import Stencil.Proofs.Html.Blocks
import Stencil.Proofs.Html.Crossing
import Stencil.Proofs.Inline.EmphasisAccount

/-!
# When emphasis is nested

A phrase between asterisks has no asterisk in it, so what the three styles of asterisks emphasise is
a block to each other, and their elements are nested (`boxed_foldl`).  Underscores and tildes see
the tags that are there already as part of their phrases: each of these styles keeps the nesting if
its phrases are nested by themselves, and spoils it otherwise (`isNested_foldl`).  So the elements
of each sign alone are nested, and all of them together are exactly if no phrase has one tag of a
pair without the other (`emphasize_nested_iff`).
-/

namespace Stencil.Emphasis

open Html (Built IsClosed IsNested IsTagOf followAll)

/-- The names of the elements that a style writes, outermost first. -/
def Style.names (style : Style) : List Text := Html.tags style.opening

def elements : List Text := ["strong", "em", "u", "s"]

/-- The elements of emphasis, as they may stand in each other or in none. -/
def model : Html.ContentModel := Html.free elements

/-- The phrases that some styles find, one after the other. -/
def phrasesFrom : List Style → Text → List Text
  | [], _ => []
  | style :: styles, s => Text.finds style.read s ++ phrasesFrom styles (style.apply s)

/-- The phrases that emphasis finds in a text, with the tags they have by then. -/
def phrases (s : Text) : List Text :=
  phrasesFrom styles (sheltered (s.filter fun c => !isReserved c))

/-- Whether a tag belongs to an element that the styles with a sign write. -/
def isTagOf (sign : Char) (tag : Text) : Bool :=
  styles.any fun style => style.sign == sign && style.names.contains (Markup.dropSlash tag)

/-- The tags of a text that the styles with a sign write. -/
def tagsOf (sign : Char) (s : Text) : List Text := (Html.tags s).filter (isTagOf sign)

/-- Whether a text has no tags but those of some elements. -/
def Tagged (names : List Text) : Text → Prop :=
  Built fun w => ∃ tag, IsTagOf names tag ∧ w = '<' :: tag ++ ['>']

variable {s t u x w name : Text} {names : List Text} {style : Style} {sign : Char}
  {block : Text → Prop}

theorem areNames : Html.AreNames elements := by decide

theorem Style.names_subset (known : style ∈ styles) : ∀ name ∈ style.names, name ∈ elements :=
  (show ∀ style ∈ styles, ∀ name ∈ style.names, name ∈ elements by decide) style known

/-- A style puts its elements around a phrase. -/
theorem Style.enclose_phrase (known : style ∈ styles) (phrase : Text) :
    style.opening ++ phrase ++ style.closing = style.names.foldr Html.enclose phrase := by
  have names : styles.map Style.names =
      ([["strong", "em"], ["strong"], ["em"], ["u"], ["s"]] : List (List Text)) := by
    decide
  simp only [styles, List.map_cons, List.cons.injEq] at names known ⊢
  obtain ⟨first, second, third, fourth, fifth, _⟩ := names
  simp only [List.mem_cons, List.not_mem_nil, or_false] at known
  rcases known with rfl | rfl | rfl | rfl | rfl <;>
    simp only [first, second, third, fourth, fifth] <;>
    simp [Html.enclose, Html.nameOf, isTagSpace]

/-! ## Cutting a text at its marks -/

theorem Style.cut_mark (often : 0 < style.times) (apart : ∀ w, block w → style.sign ∉ w)
    (h : Built block (u ++ (style.mark ++ x))) : Built block u ∧ Built block x := by
  obtain ⟨more, times⟩ := Nat.exists_eq_add_one_of_ne_zero often.ne'
  rw [Style.mark, times] at h
  clear often times
  induction more generalizing u with
  | zero => exact h.cut apart
  | succ more ih =>
    obtain ⟨before, behind⟩ := h.cut apart
    exact ⟨before, (ih (u := []) (by simpa using behind)).2⟩

/-- The phrases of a style and the texts around them are made of the same blocks as the text. -/
theorem Style.built_parts (often : 0 < style.times) (apart : ∀ w, block w → style.sign ∉ w)
    (h : Built block s) :
    Built block (Text.parts (Text.scan style.read s)).1 ∧
      ∀ part ∈ (Text.parts (Text.scan style.read s)).2,
        Built block part.1.2 ∧ Built block part.2 := by
  refine Built.parts [] id (fun source phrase member u x whole => ?_) ?_
  · obtain rfl := Style.source_of_found often member
    obtain ⟨before, behind⟩ := Style.cut_mark often apart
      (show Built block (u ++ (style.mark ++ (phrase ++ style.mark ++ x))) by simpa using whole)
    exact ⟨before, Style.cut_mark often apart (by simpa using behind)⟩
  · rwa [List.nil_append, Text.sources_scan]

/-- What a style makes of a text, block by block. -/
theorem Style.built_apply (known : style ∈ styles) (apart : ∀ w, block w → style.sign ∉ w)
    (encloses : ∀ phrase, style.sign ∉ phrase → Built block phrase →
      Built block (style.names.foldr Html.enclose phrase)) (h : Built block s) :
    Built block (style.apply s) := by
  have often := (Style.facts known).1
  obtain ⟨first, others⟩ := Style.built_parts often apart h
  rw [Style.apply, Text.substitute, Text.ofPieces_eq_parts]
  refine first.append (Built.flatMap fun part member => ?_)
  obtain ⟨before, rest, found⟩ := Text.read_of_found_mem (style.delimited_read often).cuts
    (Text.mem_of_mem_parts member)
  rw [Style.enclose_phrase known]
  have absent := ((Style.read_eq_some_iff often).mp found).2.1
  exact (encloses _ absent (others part member).1).append
    (others part member).2

/-! ## Texts with tags of emphasis -/

theorem clear_of_mem_elements (known : name ∈ elements) :
    Html.nameOf name = name ∧ name.head? ≠ some '/' ∧ '>' ∉ name ∧
      ∀ c ∈ standIn.opening :: standIn.closing :: signs, c ∉ '<' :: '/' :: name ++ ['>'] :=
  (show ∀ name ∈ elements, Html.nameOf name = name ∧ name.head? ≠ some '/' ∧ '>' ∉ name ∧
      ∀ c ∈ standIn.opening :: standIn.closing :: signs, c ∉ '<' :: '/' :: name ++ ['>']
    by decide) name known

namespace Tagged

variable (subset : ∀ name ∈ names, name ∈ elements)

include subset

theorem not_mem {c : Char} (foreign : c ∈ standIn.opening :: standIn.closing :: signs) :
    ∀ w, (∃ tag, IsTagOf names tag ∧ w = '<' :: tag ++ ['>']) → c ∉ w := by
  rintro w ⟨tag, kind, rfl⟩
  cases kind with
  | opening known =>
    have absent := (clear_of_mem_elements (subset _ known)).2.2.2 c foreign
    simp only [List.cons_append, List.mem_cons, not_or] at absent ⊢
    exact ⟨absent.1, absent.2.2⟩
  | closing known => exact (clear_of_mem_elements (subset _ known)).2.2.2 c foreign

theorem clear {tag : Text} (kind : IsTagOf names tag) : '>' ∉ tag := by
  cases kind with
  | opening known => exact (clear_of_mem_elements (subset _ known)).2.2.1
  | closing known =>
    simpa using (clear_of_mem_elements (subset _ known)).2.2.1

theorem closed (h : Tagged names s) : IsClosed s := by
  refine Built.closed ?_ h
  rintro w ⟨tag, kind, rfl⟩
  exact .of_tag (clear subset kind)

/-- The tags of a tagged text are those of its elements. -/
theorem isTagOf (h : Tagged names s) : ∀ tag ∈ Html.tags s, IsTagOf names tag := by
  refine (Built.forall_of_append (p := fun s => IsClosed s ∧ ∀ tag ∈ Html.tags s,
    IsTagOf names tag) (fun s absent => ⟨.of_not_mem absent, ?_⟩) ?_ ?_ h).2
  · rw [Html.tags_of_not_mem absent]
    simp
  · rintro s t ⟨closed, left⟩ ⟨closed', right⟩
    refine ⟨closed.append closed', ?_⟩
    rw [closed.tags_append]
    exact List.forall_mem_append.mpr ⟨left, right⟩
  · rintro w ⟨tag, kind, rfl⟩
    have clear := clear subset kind
    refine ⟨.of_tag clear, ?_⟩
    rw [Html.tags_tag clear]
    simpa using kind

omit subset in
theorem mono {names' : List Text} (more : ∀ name ∈ names, name ∈ names') (h : Tagged names s) :
    Tagged names' s := by
  refine Built.forall_of_append (fun _ => .of_not_mem) (fun _ _ => .append) ?_ h
  rintro w ⟨tag, kind, rfl⟩
  exact .of_block ⟨tag, kind.mono more, rfl⟩

theorem enclose (known : name ∈ names) (h : Tagged names s) :
    Tagged names (Html.enclose name s) := by
  rw [Html.enclose, (clear_of_mem_elements (subset _ known)).1]
  exact ((Built.of_block ⟨name, .opening known, rfl⟩).append h).append
    (.of_block ⟨'/' :: name, .closing known, rfl⟩)

theorem foldr_enclose {more : List Text} (known : ∀ name ∈ more, name ∈ names)
    (h : Tagged names s) : Tagged names (more.foldr Html.enclose s) := by
  induction more with
  | nil => exact h
  | cons name more ih =>
    obtain ⟨here, later⟩ := List.forall_mem_cons.mp known
    exact (ih later).enclose subset here

theorem apply (known : style ∈ styles) (writes : ∀ name ∈ style.names, name ∈ names)
    (h : Tagged names s) : Tagged names (style.apply s) :=
  Style.built_apply known (not_mem subset (by simp [(Style.facts known).2.1]))
    (fun _ _ => foldr_enclose subset writes) h

end Tagged

/-! ## Asterisks -/

/-- Whether asterisks cannot cut into a text, and it is nested wherever it stands. -/
def Boxed (w : Text) : Prop := '*' ∉ w ∧ Html.Fits model (none :: elements.map some) w

/-- An element of emphasis around a boxed text is boxed. -/
theorem Boxed.enclose (known : name ∈ elements) (h : Boxed s) : Boxed (Html.enclose name s) := by
  obtain ⟨whole, slash, bracket, foreign⟩ := clear_of_mem_elements known
  obtain ⟨absent, fits⟩ := h
  constructor
  · have outside := foreign '*' (by decide)
    rw [Html.enclose, whole]
    simp_all
  · refine .enclose bracket slash (fun parent inside => ?_) (fits.mono fun parent inner => ?_)
    · rw [whole]
      exact Html.mem_free.mpr ⟨fun p same => by simpa [Option.mem_def.mp same] using inside, known⟩
    · rw [whole] at inner
      obtain rfl := List.mem_singleton.mp inner
      exact List.mem_cons_of_mem _ (List.mem_map_of_mem known)

theorem isNested_of_boxed (h : Built Boxed s) : IsNested model s :=
  (h.fits fun _ boxed => boxed.2).isNested List.mem_cons_self

/-- What a style of asterisks emphasises is a block to the others. -/
theorem Style.boxed_apply (known : style ∈ styles) (asterisk : style.sign = '*')
    (h : Built Boxed s) : Built Boxed (style.apply s) := by
  refine Style.built_apply known (fun w boxed => asterisk ▸ boxed.1)
    (fun phrase absent inner => ?_) h
  have boxed : Boxed phrase := ⟨asterisk ▸ absent, inner.fits fun _ boxed => boxed.2⟩
  have subset := Style.names_subset known
  refine .of_block ?_
  generalize style.names = names at subset
  induction names with
  | nil => exact boxed
  | cons name names ih =>
    obtain ⟨here, later⟩ := List.forall_mem_cons.mp subset
    exact (ih later).enclose here

theorem Style.isNested_of_boxed (known : style ∈ styles) (asterisk : style.sign = '*')
    (h : Built Boxed s) : ∀ phrase ∈ Text.finds style.read s, IsNested model phrase := by
  intro phrase member
  rw [Text.finds_eq_foundValues, Text.foundValues] at member
  obtain ⟨part, inside, rfl⟩ := List.mem_map.mp member
  have parts := Style.built_parts (Style.facts known).1 (fun w boxed => asterisk ▸ boxed.1) h
  exact Emphasis.isNested_of_boxed (parts.2 part inside).1

/-- Asterisks find and leave nested texts only. -/
theorem boxed_foldl {all : List Style}
    (asterisks : ∀ style ∈ all, style ∈ styles ∧ style.sign = '*') (h : Built Boxed s) :
    Built Boxed (all.foldl (fun s style => style.apply s) s) ∧
      ∀ phrase ∈ phrasesFrom all s, IsNested model phrase := by
  induction all generalizing s with
  | nil => exact ⟨h, by simp [phrasesFrom]⟩
  | cons style all ih =>
    obtain ⟨⟨known, asterisk⟩, later⟩ := List.forall_mem_cons.mp asterisks
    obtain ⟨boxed, nested⟩ := ih later (Style.boxed_apply known asterisk h)
    exact ⟨boxed, List.forall_mem_append.mpr ⟨Style.isNested_of_boxed known asterisk h, nested⟩⟩

theorem tagged_foldl {all : List Style} (known : ∀ style ∈ all, style ∈ styles)
    (subset : ∀ name ∈ names, name ∈ elements)
    (writes : ∀ style ∈ all, ∀ name ∈ style.names, name ∈ names) (h : Tagged names s) :
    Tagged names (all.foldl (fun s style => style.apply s) s) := by
  induction all generalizing s with
  | nil => exact h
  | cons style all ih =>
    obtain ⟨here, later⟩ := List.forall_mem_cons.mp known
    obtain ⟨here', later'⟩ := List.forall_mem_cons.mp writes
    exact ih later later' (h.apply subset here here')

/-! ## Underscores and tildes -/

/-- A style with one element puts its tags around those of each phrase. -/
theorem Style.exists_tags_apply (known : style ∈ styles) (single : style.names = [name])
    (subset : ∀ name ∈ names, name ∈ elements) (h : Tagged names s) :
    ∃ (first : List Text) (parts : List (List Text × List Text)),
      Html.tags s = first ++ parts.flatMap (fun part => part.1 ++ part.2) ∧
      Html.tags (style.apply s) =
        first ++ parts.flatMap (fun part => name :: (part.1 ++ ('/' :: name) :: part.2)) ∧
      parts.map Prod.fst = (Text.finds style.read s).map Html.tags := by
  obtain ⟨often, sign, _⟩ := Style.facts known
  obtain ⟨whole, _, bracket, _⟩ :=
    clear_of_mem_elements (Style.names_subset known name (by simp [single]))
  have mark : '<' ∉ style.mark := fun member =>
    absurd (List.eq_of_mem_replicate member ▸ sign : '<' ∈ signs) (by decide)
  obtain ⟨first, others⟩ := Style.built_parts often (Tagged.not_mem subset (by simp [sign])) h
  have before := Tagged.closed subset first
  have inside (part) (member) := Tagged.closed subset (others part member).1
  have behind (part) (member) := Tagged.closed subset (others part member).2
  have plain := IsClosed.of_not_mem mark
  refine ⟨Html.tags (Text.parts (Text.scan style.read s)).1,
    (Text.parts (Text.scan style.read s)).2.map fun part => (Html.tags part.1.2, Html.tags part.2),
    ?_, ?_, ?_⟩
  · have source (part) (member : part ∈ (Text.parts (Text.scan style.read s)).2) :
        part.1.1 = style.mark ++ part.1.2 ++ style.mark :=
      Style.source_of_found often (Text.mem_of_mem_parts member)
    have tags := IsClosed.tags_ofPieces (fun source _ => source) before fun part member => by
      refine ⟨?_, behind part member⟩
      rw [source part member]
      exact (plain.append (inside part member)).append plain
    rw [← Text.substitute, Text.substitute_source] at tags
    rw [tags, List.flatMap_map]
    refine congrArg _ (List.flatMap_congr fun part member => ?_)
    rw [source part member, List.append_assoc, plain.tags_append,
      (inside part member).tags_append, Html.tags_of_not_mem mark]
    simp
  · have encloses (phrase : Text) :
        style.opening ++ phrase ++ style.closing = Html.enclose name phrase := by
      rw [Style.enclose_phrase known, single]
      rfl
    rw [Style.apply, Text.substitute, List.flatMap_map]
    simp only [encloses]
    rw [IsClosed.tags_ofPieces (fun _ phrase => Html.enclose name phrase) before fun part member =>
      ⟨(inside part member).enclose bracket, behind part member⟩]
    refine congrArg _ (List.flatMap_congr fun part member => ?_)
    rw [Html.tags_enclose bracket (inside part member), whole]
    simp
  · rw [Text.finds_eq_foundValues, Text.foundValues, List.map_map, List.map_map]
    rfl

/-- A style with an element that is not there yet keeps the nesting of a text, if its phrases are
nested by themselves. -/
theorem Style.isNested_apply (known : style ∈ styles) (single : style.names = [name])
    (fresh : name ∉ names) (subset : ∀ name ∈ names, name ∈ elements) (h : Tagged names s) :
    IsNested model (style.apply s) ↔
      (∀ phrase ∈ Text.finds style.read s, IsNested model phrase) ∧ IsNested model s := by
  have within : name ∈ elements := Style.names_subset known name (by simp [single])
  have kinds := Tagged.isTagOf subset h
  obtain ⟨first, parts, tags, tags', finds⟩ := Style.exists_tags_apply known single subset h
  have phrases : (∀ phrase ∈ Text.finds style.read s, IsNested model phrase) ↔
      ∀ part ∈ parts, followAll elements [] part.1 = some [] := by
    have same := congrArg (∀ inner ∈ ·, followAll elements [] inner = some []) finds
    change (∀ phrase ∈ _, followAll elements [] (Html.tags phrase) = some []) ↔ _
    simpa using same.symm
  rw [tags, List.forall_mem_append, List.forall_mem_flatMap] at kinds
  obtain ⟨before, kinds⟩ := kinds
  have apart (part) (member : part ∈ parts) := Html.IsTagOf.fresh areNames subset within fresh
    (List.forall_mem_append.mp (kinds part member)).1
  have known' (part) (member : part ∈ parts) (tag) (inside : tag ∈ part.1 ++ part.2) :=
    (kinds part member tag inside).mono subset
  change followAll elements [] _ = some [] ↔ _ ∧ followAll elements [] _ = some []
  rw [phrases, tags, tags', Html.followAll_append, Html.followAll_append]
  cases first_open : followAll elements [] first with
  | none => simp
  | some stack =>
    have opened := Html.mem_of_followAll areNames
      (fun tag member => (before tag member).mono subset) (by simp) first_open
    exact Html.followAll_enclosing areNames within known' apart fun n member => (opened n member).1

/-- Who writes the tags of a style. -/
theorem Style.isTagOf_names (known : style ∈ styles) : ∀ name ∈ style.names, ∀ sign ∈ signs,
    isTagOf sign name = (style.sign == sign) ∧ isTagOf sign ('/' :: name) = (style.sign == sign) :=
  (show ∀ style ∈ styles, ∀ name ∈ style.names, ∀ sign ∈ signs,
    isTagOf sign name = (style.sign == sign) ∧ isTagOf sign ('/' :: name) = (style.sign == sign)
    by decide) style known

/-- The tags of the styles with a sign stay nested, if a style has the sign only where there are no
such tags yet. -/
theorem Style.nested_tagsOf_apply (known : style ∈ styles) (single : style.names = [name])
    (member : sign ∈ signs) (first : style.sign = sign → tagsOf sign s = [])
    (subset : ∀ name ∈ names, name ∈ elements) (h : Tagged names s)
    (nested : followAll elements [] (tagsOf sign s) = some []) :
    followAll elements [] (tagsOf sign (style.apply s)) = some [] := by
  obtain ⟨before, parts, tags, tags', _⟩ := Style.exists_tags_apply known single subset h
  obtain ⟨opening, closing⟩ := Style.isTagOf_names known name (by simp [single]) sign member
  rw [tagsOf, tags, List.filter_append, List.filter_flatMap] at first nested
  rw [tagsOf, tags', List.filter_append, List.filter_flatMap]
  by_cases same : style.sign = sign
  · have none := first same
    simp only [List.filter_append, List.append_eq_nil_iff, List.flatMap_eq_nil_iff] at none
    obtain ⟨noneBefore, noneInside⟩ := none
    have pairs : (parts.flatMap fun part => (name :: (part.1 ++ ('/' :: name) :: part.2)).filter
        (isTagOf sign)) = parts.flatMap fun _ => [name, '/' :: name] := by
      refine List.flatMap_congr fun part inside => ?_
      obtain ⟨left, right⟩ := noneInside part inside
      simp [opening, closing, same, left, right]
    rw [noneBefore, pairs, List.nil_append]
    exact Html.followAll_pairs areNames (Style.names_subset known name (by simp [single])) parts
  · simpa [opening, closing, same] using nested

theorem exists_writer {before : List Style} (known : ∀ style ∈ before, style ∈ styles)
    (member : sign ∈ signs) {tag : Text} (kind : IsTagOf (before.flatMap Style.names) tag) :
    ∃ style ∈ before, isTagOf sign tag = (style.sign == sign) := by
  obtain ⟨written⟩ | ⟨written⟩ := kind
  all_goals
    obtain ⟨style, earlier, named⟩ := List.mem_flatMap.mp written
    have writes := Style.isTagOf_names (known style earlier) _ named sign member
  · exact ⟨style, earlier, writes.1⟩
  · exact ⟨style, earlier, writes.2⟩

theorem subset_elements {before : List Style} (known : ∀ style ∈ before, style ∈ styles) :
    ∀ name ∈ before.flatMap Style.names, name ∈ elements :=
  List.forall_mem_flatMap.mpr fun style inside => Style.names_subset (known style inside)

/-- What styles without a sign wrote has no tags of that sign. -/
theorem tagsOf_eq_nil {before : List Style} (known : ∀ style ∈ before, style ∈ styles)
    (member : sign ∈ signs) (apart : ∀ style ∈ before, style.sign ≠ sign)
    (h : Tagged (before.flatMap Style.names) s) : tagsOf sign s = [] := by
  rw [tagsOf, List.filter_eq_nil_iff]
  intro tag inside
  obtain ⟨style, earlier, writes⟩ :=
    exists_writer known member (Tagged.isTagOf (subset_elements known) h tag inside)
  simp [writes, apart style earlier]

/-- What styles with a sign wrote has no tags but those of that sign. -/
theorem tagsOf_eq_self {before : List Style} (known : ∀ style ∈ before, style ∈ styles)
    (member : sign ∈ signs) (same : ∀ style ∈ before, style.sign = sign)
    (h : Tagged (before.flatMap Style.names) s) : tagsOf sign s = Html.tags s := by
  rw [tagsOf, List.filter_eq_self]
  intro tag inside
  obtain ⟨style, earlier, writes⟩ :=
    exists_writer known member (Tagged.isTagOf (subset_elements known) h tag inside)
  simp [writes, same style earlier]

/-- Styles with one element and a sign of their own each keep the nesting of a text if all their
phrases are nested by themselves; the tags of each sign they keep nested anyway. -/
theorem isNested_foldl {all before : List Style}
    (singles : ∀ style ∈ all, style ∈ styles ∧ ∃ name, style.names = [name])
    (known : ∀ style ∈ before, style ∈ styles) (distinct : (all.map Style.sign).Nodup)
    (apart : ∀ style ∈ all, ∀ other ∈ before, other.sign ≠ style.sign)
    (h : Tagged (before.flatMap Style.names) s) :
    (IsNested model (all.foldl (fun s style => style.apply s) s) ↔
        IsNested model s ∧ ∀ phrase ∈ phrasesFrom all s, IsNested model phrase) ∧
      ∀ sign ∈ signs, followAll elements [] (tagsOf sign s) = some [] →
        followAll elements [] (tagsOf sign (all.foldl (fun s style => style.apply s) s)) =
          some [] := by
  induction all generalizing s before with
  | nil => simp [phrasesFrom]
  | cons style all ih =>
    obtain ⟨⟨here, name, single⟩, later⟩ := List.forall_mem_cons.mp singles
    obtain ⟨other, distinct⟩ := List.nodup_cons.mp distinct
    obtain ⟨apartHere, apartLater⟩ := List.forall_mem_cons.mp apart
    have sign := (Style.facts here).2.1
    have known' : ∀ style' ∈ style :: before, style' ∈ styles :=
      List.forall_mem_cons.mpr ⟨here, known⟩
    have fresh : name ∉ before.flatMap Style.names := by
      intro inside
      obtain ⟨earlier, member, named⟩ := List.mem_flatMap.mp inside
      have own := (Style.isTagOf_names here name (by simp [single]) _ sign).1
      have others := (Style.isTagOf_names (known earlier member) name named _ sign).1
      simp [others, apartHere earlier member] at own
    have tagged : Tagged ((style :: before).flatMap Style.names) (style.apply s) :=
      Tagged.apply (subset_elements known') here (fun name => List.mem_append_left _)
        (h.mono fun name => List.mem_append_right _)
    have apart' : ∀ style' ∈ all, ∀ other ∈ style :: before, other.sign ≠ style'.sign := by
      refine fun style' inside =>
        List.forall_mem_cons.mpr ⟨fun same => ?_, apartLater style' inside⟩
      exact other (same ▸ List.mem_map_of_mem inside)
    obtain ⟨iff, each⟩ := ih later known' distinct apart' tagged
    have step := Style.isNested_apply here single fresh (subset_elements known) h
    constructor
    · rw [List.foldl_cons, iff, step, phrasesFrom, List.forall_mem_append]
      tauto
    · intro sign' member nested
      refine each sign' member
        (Style.nested_tagsOf_apply here single member (fun same => ?_) (subset_elements known) h
          nested)
      exact tagsOf_eq_nil known member (fun other inside => same ▸ apartHere other inside) h

theorem phrasesFrom_append (all more : List Style) (s : Text) :
    phrasesFrom (all ++ more) s =
      phrasesFrom all s ++ phrasesFrom more (all.foldl (fun s style => style.apply s) s) := by
  induction all generalizing s with
  | nil => rfl
  | cons style all ih => simp [phrasesFrom, ih]

/-- As `emphasize_nested_iff`, for a sheltered text. -/
theorem applyAll_nested_iff (plain : '<' ∉ t) :
    (∀ sign ∈ signs, followAll elements [] (tagsOf sign (applyAll t)) = some []) ∧
      (IsNested model (applyAll t) ↔ ∀ phrase ∈ phrasesFrom styles t, IsNested model phrase) := by
  have asterisks : ∀ style ∈ styles.take 3, style ∈ styles ∧ style.sign = '*' := fun style inside =>
    ⟨List.mem_of_mem_take inside,
      (show ∀ style ∈ styles.take 3, style.sign = '*' by decide) style inside⟩
  have singles : ∀ style ∈ styles.drop 3, style ∈ styles ∧ ∃ name, style.names = [name] :=
    fun style inside => ⟨List.mem_of_mem_drop inside, List.length_eq_one_iff.mp
      ((show ∀ style ∈ styles.drop 3, style.names.length = 1 by decide) style inside)⟩
  have distinct : ((styles.drop 3).map Style.sign).Nodup := by decide
  have apart : ∀ style ∈ styles.drop 3, ∀ other ∈ styles.take 3, other.sign ≠ style.sign := by
    decide
  have known (style) (inside : style ∈ styles.take 3) := (asterisks style inside).1
  have split : applyAll t = (styles.drop 3).foldl (fun s style => style.apply s)
      ((styles.take 3).foldl (fun s style => style.apply s) t) := by
    rw [← List.foldl_append, List.take_append_drop]
    rfl
  obtain ⟨boxed, nested⟩ := boxed_foldl asterisks (.of_not_mem plain)
  have tagged := tagged_foldl known (subset_elements known)
    (fun style inside name member => List.mem_flatMap.mpr ⟨style, inside, member⟩)
    (Built.of_not_mem plain)
  have phrases := phrasesFrom_append (styles.take 3) (styles.drop 3) t
  rw [List.take_append_drop] at phrases
  rw [split, phrases, List.forall_mem_append]
  generalize (styles.take 3).foldl (fun s style => style.apply s) t = s at boxed tagged
  obtain ⟨iff, each⟩ := isNested_foldl singles known distinct apart tagged
  constructor
  · intro sign member
    refine each sign member ?_
    by_cases asterisk : sign = '*'
    · rw [tagsOf_eq_self known member (fun style inside =>
        (asterisks style inside).2.trans asterisk.symm) tagged]
      exact isNested_of_boxed boxed
    · rw [tagsOf_eq_nil known member (fun style inside same =>
        asterisk (same.symm.trans (asterisks style inside).2)) tagged]
      rfl
  · rw [iff]
    exact ⟨fun h => ⟨nested, h.2⟩, fun h => ⟨isNested_of_boxed boxed, h.2⟩⟩

/-! ## Sheltering and filling -/

/-- Filling stand-ins with texts that have no brackets leaves the tags of a text. -/
theorem tags_fill {parts : Array Text}
    (plain : ∀ (i : Nat) (part : Text), parts[i]? = some part → '<' ∉ part)
    (h : Tagged elements s) : Html.tags (StandIn.fill [standIn] parts s) = Html.tags s := by
  have token {source : Text} {value : Option Nat}
      (member : .found source value ∈ Text.scan (StandIn.read [standIn]) s) :
      ∃ digits, (∀ c ∈ digits, isDigit c = true) ∧
        source = standIn.opening :: (digits ++ [standIn.closing]) := by
    obtain ⟨before, rest, found⟩ :=
      Text.read_of_found_mem (StandIn.delimited_read [standIn]).cuts member
    obtain ⟨kind, known, digits, digit, split, _⟩ := StandIn.read_eq_some found
    obtain rfl := List.mem_singleton.mp known
    refine ⟨digits, digit, List.append_cancel_right (split.trans ?_)⟩
    simp
  have bare {source : Text} {value : Option Nat}
      (member : .found source value ∈ Text.scan (StandIn.read [standIn]) s) : '<' ∉ source := by
    obtain ⟨digits, digit, rfl⟩ := token member
    have absent : '<' ∉ digits := fun inside => absurd (digit _ inside) (by decide)
    simpa [absent] using (by decide : '<' ≠ standIn.opening ∧ '<' ≠ standIn.closing)
  have written (value : Option Nat) : '<' ∉ (value.bind fun i => parts[i]?).getD [] := by
    cases there : value.bind fun i => parts[i]? with
    | none => exact List.not_mem_nil
    | some part =>
      obtain ⟨i, _, there⟩ := Option.bind_eq_some_iff.mp there
      exact plain i part there
  have whole : Tagged elements
      ([] ++ (Text.scan (StandIn.read [standIn]) s).flatMap Piece.source) := by
    rwa [List.nil_append, Text.sources_scan]
  obtain ⟨first, others⟩ := Built.parts [] (fun _ => []) (fun _ _ member u x h => by
    obtain ⟨digits, _, rfl⟩ := token member
    rw [List.cons_append, List.append_assoc, List.singleton_append] at h
    obtain ⟨before, behind⟩ := Built.cut (Tagged.not_mem (fun _ => id) List.mem_cons_self) h
    have after := Built.cut (Tagged.not_mem (fun _ => id) (by simp)) behind
    exact ⟨before, .nil, after.2⟩) whole
  have closed := Tagged.closed (fun _ => id) first
  have behind (part) (member) := Tagged.closed (fun _ => id) (others part member).2
  rw [StandIn.fill, Text.substitute, IsClosed.tags_ofPieces _ closed fun part member =>
    ⟨.of_not_mem (written part.1.2), behind part member⟩]
  conv_rhs => rw [← Text.substitute_source (StandIn.read [standIn]) s, Text.substitute,
    IsClosed.tags_ofPieces _ closed fun part member =>
      ⟨.of_not_mem (bare (Text.mem_of_mem_parts member)), behind part member⟩]
  refine congrArg _ (List.flatMap_congr fun part member => ?_)
  rw [Html.tags_of_not_mem (written part.1.2),
    Html.tags_of_not_mem (bare (Text.mem_of_mem_parts member))]

theorem not_mem_sheltered (unopened : '<' ∉ s) : '<' ∉ sheltered s := by
  intro member
  rcases StandIn.mem_place member with inside | ⟨i, inside⟩
  · rw [Text.sources_scan] at inside
    exact unopened inside
  · exact StandIn.not_mem_token (by decide) (by decide) (by decide) (by decide) i inside

/-- What is sheltered brings no tag, so that the tags are those that the styles write. -/
theorem tags_emphasize (unopened : '<' ∉ s) :
    Html.tags (emphasize s) =
      Html.tags (applyAll (sheltered (s.filter fun c => !isReserved c))) := by
  have unopened' : '<' ∉ s.filter fun c => !isReserved c := fun member =>
    unopened (List.mem_of_mem_filter member)
  have tagged : Tagged elements (applyAll (sheltered (s.filter fun c => !isReserved c))) :=
    tagged_foldl (fun _ => id) (fun _ => id) (fun _ => Style.names_subset)
      (.of_not_mem (not_mem_sheltered unopened'))
  refine tags_fill (fun i part there bracket => unopened' ?_) tagged
  rw [List.getElem?_toArray, StandIn.place_snd] at there
  obtain ⟨find, inside, rfl⟩ := List.mem_map.mp (List.mem_of_getElem? there)
  exact Text.mem_of_mem_scanFrom (Text.mem_of_mem_parts inside) bracket

/-- The elements of each sign are nested, and all of them are if those in each phrase are. -/
theorem emphasize_nested_iff (unopened : '<' ∉ s) :
    (∀ sign ∈ signs, followAll elements [] (tagsOf sign (emphasize s)) = some []) ∧
      (IsNested model (emphasize s) ↔ ∀ phrase ∈ phrases s, IsNested model phrase) := by
  have plain : '<' ∉ sheltered (s.filter fun c => !isReserved c) :=
    not_mem_sheltered fun member => unopened (List.mem_of_mem_filter member)
  have tags := tags_emphasize unopened
  have nested := applyAll_nested_iff plain
  unfold tagsOf IsNested at nested ⊢
  rw [tags]
  exact nested

/-- Phrases in phrases. -/
theorem emphasize_nested_inside :
    let s : Text := "~~a __b *c*__~~ __d__ ***e***"
    '<' ∉ s ∧ (∀ sign ∈ signs, followAll elements [] (tagsOf sign (emphasize s)) = some []) ∧
      IsNested model (emphasize s) := by
  intro s
  have unopened : '<' ∉ s := by decide
  obtain ⟨each, iff⟩ := emphasize_nested_iff unopened
  exact ⟨unopened, each, iff.mpr (by decide)⟩

/-- An underlined phrase may begin in an emphasised one and end behind it. -/
theorem not_nested_crossing :
    let s : Text := "*a __b* c__"
    '<' ∉ s ∧ emphasize s = "<em>a <u>b</em> c</u>" ∧ ¬IsNested model (emphasize s) := by
  decide

end Stencil.Emphasis
