import Stencil.Proofs.Inline.Rise
import Stencil.Proofs.Text.Severable

/-!
# What emphasis adds and leaves out

A text is `Dressed` as another one if that has tags of emphasis added and characters of marks left
out, and shows some parts of the text, in their order, as other texts.  A sheltered text is dressed
with stand-ins (`dressed_place`), every style adds to the dress (`Style.dressed_apply`), and filling
shows the parts as they are (`Dressed.fill`).  So emphasis keeps what it shelters, and without its
tags and without marks a text is the same before and after it (`emphasize_account`).
-/

namespace Stencil.Emphasis

def signs : List Char := ['*', '_', '~']

def tags : List Text :=
  ["<strong>", "</strong>", "<em>", "</em>", "<u>", "</u>", "<s>", "</s>"]

def readTag : Reader Unit := fun _ s => (tags.findSome? fun tag => Text.after? tag s).map ((), ·)

def untagged (s : Text) : Text := Text.substitute readTag (fun _ _ => []) s

def unmarked (s : Text) : Text := s.filter fun c => !signs.contains c

/-- The parts of a text that emphasis must not touch, in order. -/
def spans (s : Text) : List Text := Text.foundSources (Text.scan readSheltered s)

/-- The characters that neither begin a tag nor belong to stand-ins. -/
def isOrdinary (c : Char) : Bool := c != '<' && !isReserved c

/-- Whether a text is dressed as another, where the parts on the left stand for those on the
right. -/
inductive Dressed : List (Text × Text) → Text → Text → Prop where
  | nil : Dressed [] [] []
  | plain {c : Char} {parts : List (Text × Text)} {s t : Text} (ordinary : isOrdinary c = true)
    (rest : Dressed parts s t) : Dressed parts (c :: s) (c :: t)
  | mark {c : Char} {parts : List (Text × Text)} {s t : Text} (sign : c ∈ signs)
    (rest : Dressed parts s t) : Dressed parts (c :: s) t
  | tag {w : Text} {parts : List (Text × Text)} {s t : Text} (known : w ∈ tags)
    (rest : Dressed parts s t) : Dressed parts s (w ++ t)
  | part {v w : Text} {parts : List (Text × Text)} {s t : Text} (rest : Dressed parts s t) :
    Dressed ((v, w) :: parts) (v ++ s) (w ++ t)

variable {s t u v w x : Text} {c : Char} {parts more : List (Text × Text)} {ts : List Text}

theorem not_mem_tags (sign : c ∈ signs) (known : w ∈ tags) : c ∉ w :=
  (show ∀ c ∈ signs, ∀ w ∈ tags, c ∉ w by decide) c sign w known

namespace Dressed

/-- Dressing can be done part by part. -/
theorem append (h : Dressed parts s t) (h' : Dressed more u v) :
    Dressed (parts ++ more) (s ++ u) (t ++ v) := by
  induction h with
  | nil => exact h'
  | plain ordinary _ ih => exact .plain ordinary ih
  | mark sign _ ih => exact .mark sign ih
  | tag known _ ih =>
    rw [List.append_assoc]
    exact .tag known ih
  | part _ ih =>
    rw [List.append_assoc, List.append_assoc]
    exact .part ih

theorem tagged (known : ∀ tag ∈ ts, tag ∈ tags) (h : Dressed parts s t) :
    Dressed parts s (ts.flatten ++ t) := by
  induction ts with
  | nil => exact h
  | cons tag ts ih =>
    obtain ⟨here, later⟩ := List.forall_mem_cons.mp known
    rw [List.flatten_cons, List.append_assoc]
    exact .tag here (ih later)

/-- A character of a mark that is still there cuts both texts, if it is in no part. -/
theorem cut (sign : c ∈ signs) (clear : ∀ part ∈ parts, c ∉ part.2)
    (h : Dressed parts s (u ++ c :: x)) :
    ∃ parts₁ parts₂ s₁ s₂, parts = parts₁ ++ parts₂ ∧ s = s₁ ++ c :: s₂ ∧
      Dressed parts₁ s₁ u ∧ Dressed parts₂ s₂ x := by
  generalize whole : u ++ c :: x = t at h
  induction h generalizing u with
  | nil => simp at whole
  | @plain d parts s t ordinary rest ih =>
    cases u with
    | nil =>
      obtain ⟨rfl, rfl⟩ := List.cons.inj whole
      exact ⟨[], parts, [], s, rfl, rfl, .nil, rest⟩
    | cons e u =>
      obtain ⟨rfl, behind⟩ := List.cons.inj whole
      obtain ⟨parts₁, parts₂, s₁, s₂, rfl, rfl, left, right⟩ := ih clear behind
      exact ⟨parts₁, parts₂, e :: s₁, s₂, rfl, rfl, .plain ordinary left, right⟩
  | @mark d parts s t dropped rest ih =>
    obtain ⟨parts₁, parts₂, s₁, s₂, rfl, rfl, left, right⟩ := ih clear whole
    exact ⟨parts₁, parts₂, d :: s₁, s₂, rfl, rfl, .mark dropped left, right⟩
  | @tag w parts s t known rest ih =>
    obtain ⟨u, rfl, behind⟩ := Text.exists_of_append_cons (not_mem_tags sign known) whole
    obtain ⟨parts₁, parts₂, s₁, s₂, rfl, rfl, left, right⟩ := ih clear behind
    exact ⟨parts₁, parts₂, s₁, s₂, rfl, rfl, .tag known left, right⟩
  | @part v w parts s t rest ih =>
    obtain ⟨here, later⟩ := List.forall_mem_cons.mp clear
    obtain ⟨u, rfl, behind⟩ := Text.exists_of_append_cons here whole
    obtain ⟨parts₁, parts₂, s₁, s₂, rfl, rfl, left, right⟩ := ih later behind
    exact ⟨(v, w) :: parts₁, parts₂, v ++ s₁, s₂, rfl, by simp, .part left, right⟩

/-- Tags may take the place of a character of a mark. -/
theorem replace (sign : c ∈ signs) (clear : ∀ part ∈ parts, c ∉ part.2)
    (known : ∀ tag ∈ ts, tag ∈ tags) (h : Dressed parts s (u ++ c :: x)) :
    Dressed parts s (u ++ (ts.flatten ++ x)) := by
  obtain ⟨parts₁, parts₂, s₁, s₂, rfl, rfl, left, right⟩ := h.cut sign clear
  exact left.append (.mark sign (right.tagged known))

/-- As `replace`, for a whole mark. -/
theorem replace_mark {style : Style} (often : 0 < style.times) (sign : style.sign ∈ signs)
    (clear : ∀ part ∈ parts, style.sign ∉ part.2) (known : ∀ tag ∈ ts, tag ∈ tags)
    (h : Dressed parts s (u ++ (style.mark ++ x))) : Dressed parts s (u ++ (ts.flatten ++ x)) := by
  obtain ⟨more, times⟩ := Nat.exists_eq_add_one_of_ne_zero often.ne'
  rw [Style.mark, times] at h
  clear often times
  induction more with
  | zero => exact h.replace sign clear known
  | succ more ih =>
    have dropped : Dressed parts s (u ++ (([] : List Text).flatten ++ _)) :=
      h.replace sign clear (by simp)
    exact ih (by simpa using dropped)

/-- A dressed text has the characters of the other one, of tags, and of what stands for parts. -/
theorem forall_mem {p : Char → Prop} (known : ∀ tag ∈ tags, ∀ c ∈ tag, p c)
    (shown : ∀ part ∈ parts, ∀ c ∈ part.2, p c) (own : ∀ c ∈ s, p c) (h : Dressed parts s t) :
    ∀ c ∈ t, p c := by
  induction h with
  | nil => simp
  | plain _ _ ih =>
    obtain ⟨here, later⟩ := List.forall_mem_cons.mp own
    exact List.forall_mem_cons.mpr ⟨here, ih shown later⟩
  | mark _ _ ih => exact ih shown (List.forall_mem_cons.mp own).2
  | tag member _ ih => exact List.forall_mem_append.mpr ⟨known _ member, ih shown own⟩
  | part _ ih =>
    obtain ⟨here, later⟩ := List.forall_mem_cons.mp shown
    exact List.forall_mem_append.mpr ⟨here, ih later (List.forall_mem_append.mp own).2⟩

end Dressed

/-! ## The styles -/

/-- What all styles have in common: the mark is not empty, its sign is known, and the tags are those
of emphasis. -/
theorem Style.facts {style : Style} (known : style ∈ styles) :
    0 < style.times ∧ style.sign ∈ signs ∧ ∃ opening closing : List Text,
      (∀ tag ∈ opening, tag ∈ tags) ∧ (∀ tag ∈ closing, tag ∈ tags) ∧
      style.opening = opening.flatten ∧ style.closing = closing.flatten := by
  revert style
  simp only [styles, List.forall_mem_cons]
  refine ⟨⟨by decide, by decide, ["<strong>", "<em>"], ["</em>", "</strong>"], by decide,
      by decide, by decide, by decide⟩,
    ⟨by decide, by decide, ["<strong>"], ["</strong>"], by decide, by decide, by decide,
      by decide⟩,
    ⟨by decide, by decide, ["<em>"], ["</em>"], by decide, by decide, by decide, by decide⟩,
    ⟨by decide, by decide, ["<u>"], ["</u>"], by decide, by decide, by decide, by decide⟩,
    ⟨by decide, by decide, ["<s>"], ["</s>"], by decide, by decide, by decide, by decide⟩, by simp⟩

/-- A style reads a phrase between two marks that has no such sign in it. -/
theorem Style.read_eq_some_iff {style : Style} (often : 0 < style.times) {before : Option Char}
    {phrase rest : Text} : style.read before s = some (phrase, rest) ↔
      isPhrase phrase = true ∧ style.sign ∉ phrase ∧
        s = style.mark ++ phrase ++ style.mark ++ rest := by
  constructor
  · intro found
    have split := Style.read_eq_some found
    obtain ⟨tail, _, found⟩ := Option.bind_eq_some_iff.mp found
    dsimp only at found
    split at found
    · simp at found
    · next shown =>
      obtain ⟨rest', _, same⟩ := Option.bind_eq_some_iff.mp found
      obtain ⟨rfl, rfl⟩ := Prod.mk.inj (Option.some.inj same)
      refine ⟨by simpa using shown, fun member => ?_, split⟩
      simpa using List.mem_takeWhile_imp member
  · rintro ⟨shown, absent, rfl⟩
    obtain ⟨more, times⟩ := Nat.exists_eq_add_one_of_ne_zero often.ne'
    have mark : style.mark = style.sign :: List.replicate more style.sign := by
      rw [Style.mark, times, List.replicate_succ]
    have run : ∀ c ∈ phrase, (c != style.sign) = true := fun c member => by
      simpa using ne_of_mem_of_not_mem member absent
    have behind : phrase ++ style.mark ++ rest =
        phrase ++ style.sign :: (List.replicate more style.sign ++ rest) := by simp [mark]
    have taken : (phrase ++ style.mark ++ rest).takeWhile (· != style.sign) = phrase := by
      rw [behind, Text.takeWhile_append_cons (by simp), List.takeWhile_eq_self_iff.mpr run]
    have dropped : (phrase ++ style.mark ++ rest).dropWhile (· != style.sign) =
        style.mark ++ rest := by
      rw [behind, Text.dropWhile_append_cons (by simp), List.dropWhile_eq_nil_iff.mpr run, mark]
      rfl
    have whole : style.mark ++ phrase ++ style.mark ++ rest =
        style.mark ++ (phrase ++ style.mark ++ rest) := by simp
    rw [Style.read, whole, Text.after?_append]
    simp only [Option.bind_eq_bind, Option.bind_some, taken, dropped, shown, Text.after?_append]
    rfl

/-- A style finds nothing exactly if no phrase stands between its marks. -/
theorem Style.finds_eq_nil_iff {style : Style} (often : 0 < style.times) :
    Text.finds style.read s = [] ↔ ∀ phrase, isPhrase phrase = true → style.sign ∉ phrase →
      ¬style.mark ++ phrase ++ style.mark <:+: s := by
  constructor
  · rintro none phrase shown absent ⟨left, right, rfl⟩
    have passed := Text.scan_eq_plain_of_finds none
    rw [List.append_assoc] at passed
    have some : style.mark ++ phrase ++ style.mark ++ right ≠ [] := by
      intro empty
      simp [Style.mark, often.ne'] at empty
    obtain ⟨before, nothing⟩ := Text.exists_read_eq_none some passed
    have found : style.read before (style.mark ++ phrase ++ style.mark ++ right) =
        .some (phrase, right) := (Style.read_eq_some_iff often).mpr ⟨shown, absent, rfl⟩
    rw [nothing] at found
    cases found
  · intro quiet
    refine Text.finds_of_scan_eq_plain (Text.scan_eq_plain fun t tail _ before => ?_)
    cases found : style.read before t with
    | none => rfl
    | some answer =>
      obtain ⟨shown, absent, rfl⟩ := (Style.read_eq_some_iff often).mp found
      exact absurd ((List.prefix_append _ _).isInfix.trans tail.isInfix) (quiet _ shown absent)

/-- A phrase is found between two marks. -/
theorem Style.source_of_found {style : Style} (often : 0 < style.times) {source phrase : Text}
    (member : .found source phrase ∈ Text.scan style.read s) :
    source = style.mark ++ phrase ++ style.mark := by
  obtain ⟨before, rest, found⟩ := Text.read_of_found_mem (style.delimited_read often).cuts member
  exact List.append_cancel_right (Style.read_eq_some found)

/-- A style adds to the dress of a text. -/
theorem Style.dressed_apply {style : Style} (known : style ∈ styles)
    (clear : ∀ part ∈ parts, ∀ c ∈ signs, c ∉ part.2) (h : Dressed parts s t) :
    Dressed parts s (style.apply t) := by
  obtain ⟨often, sign, opening, closing, opens, closes, opened, closed⟩ := Style.facts known
  have free : ∀ part ∈ parts, style.sign ∉ part.2 := fun part member =>
    clear part member style.sign sign
  -- What stands before a place has its tags already.
  have pieces : ∀ (pieces : List (Piece Text)) (run : Text),
      (∀ source phrase, .found source phrase ∈ pieces →
        source = style.mark ++ phrase ++ style.mark) →
      Dressed parts s (run ++ pieces.flatMap Piece.source) →
      Dressed parts s (run ++ Text.ofPieces
        (fun _ phrase => style.opening ++ phrase ++ style.closing) pieces) := by
    intro pieces
    induction pieces with
    | nil => exact fun _ _ h => h
    | cons piece pieces ih =>
      intro run reads h
      have later := fun source phrase member =>
        reads source phrase (List.mem_cons_of_mem _ member)
      cases piece with
      | plain c =>
        simpa [Text.ofPieces] using ih (run ++ [c]) later (by simpa [Piece.source] using h)
      | found source phrase =>
        obtain rfl := reads source phrase List.mem_cons_self
        have whole : Dressed parts s (run ++ (style.mark ++
            (phrase ++ style.mark ++ pieces.flatMap Piece.source))) := by
          simpa [Piece.source] using h
        have begun := whole.replace_mark often sign free opens
        have ended : Dressed parts s ((run ++ opening.flatten ++ phrase) ++
            (closing.flatten ++ pieces.flatMap Piece.source)) :=
          Dressed.replace_mark often sign free closes (by simpa using begun)
        simpa [Text.ofPieces, opened, closed] using
          ih (run ++ opening.flatten ++ phrase ++ closing.flatten) later (by simpa using ended)
  refine pieces (Text.scan style.read t) [] (fun _ _ => Style.source_of_found often) ?_
  rwa [List.nil_append, Text.sources_scan]

/-- All styles together only dress a text further. -/
theorem dressed_applyAll (clear : ∀ part ∈ parts, ∀ c ∈ signs, c ∉ part.2)
    (h : Dressed parts s t) : Dressed parts s (applyAll t) := by
  have each : ∀ style ∈ styles, ∀ t, Dressed parts s t → Dressed parts s (style.apply t) :=
    fun style known t h => Style.dressed_apply known clear h
  unfold applyAll
  generalize styles = all at each
  induction all generalizing t with
  | nil => exact h
  | cons style all ih =>
    obtain ⟨first, rest⟩ := List.forall_mem_cons.mp each
    exact ih (first t h) rest

/-- No style touches a character of no mark that a text begins with. -/
theorem Style.apply_cons {style : Style} (often : 0 < style.times) (other : c ≠ style.sign)
    (s : Text) : style.apply (c :: s) = c :: style.apply s := by
  have nothing : style.read none (c :: s) = none := by
    cases found : style.read none (c :: s) with
    | none => rfl
    | some answer =>
      obtain ⟨first, _, _, split, opens, _⟩ := style.delimited_read often none _ _ _ found
      exact absurd ((List.cons.inj split).1.trans (List.mem_singleton.mp opens)) other
  have blind : Text.scanFrom style.read (some c) 0 s = Text.scanFrom style.read none 0 s :=
    Text.scanFrom_before (fun _ _ _ => rfl) (some c) none 0 s
  rw [Style.apply, Text.substitute, Text.scan, Text.scanFrom, nothing]
  dsimp only
  rw [blind]
  rfl

/-- A character that belongs to no mark stays in front. -/
theorem exists_applyAll_cons (other : c ∉ signs) (s : Text) : ∃ t, applyAll (c :: s) = c :: t := by
  have each : ∀ style ∈ styles, 0 < style.times ∧ c ≠ style.sign := fun style known =>
    ⟨(Style.facts known).1, fun same => other (same ▸ (Style.facts known).2.1)⟩
  unfold applyAll
  generalize styles = all at each
  induction all generalizing s with
  | nil => exact ⟨s, rfl⟩
  | cons style all ih =>
    obtain ⟨⟨often, apart⟩, later⟩ := List.forall_mem_cons.mp each
    rw [List.foldl_cons, Style.apply_cons often apart]
    exact ih (style.apply s) later

/-! ## Sheltering and filling -/

/-- Texts with the stand-ins for them, numbered from `n` on. -/
def numbered (n : Nat) (vs : List Text) : List (Text × Text) :=
  (vs.zipIdx n).map fun (v, i) => (v, standIn.token i)

@[simp] theorem numbered_nil (n : Nat) : numbered n [] = [] := rfl

@[simp] theorem numbered_cons (n : Nat) (v : Text) (vs : List Text) :
    numbered n (v :: vs) = (v, standIn.token n) :: numbered (n + 1) vs := by
  simp [numbered]

theorem signless_numbered {n : Nat} {vs : List Text} :
    ∀ part ∈ numbered n vs, ∀ c ∈ signs, c ∉ part.2 := by
  have apart : ∀ c ∈ signs, isDigit c = false ∧ c ∉ allStandIns.map StandIn.opening ∧
      c ∉ allStandIns.map StandIn.closing := by decide
  intro part member c sign
  obtain ⟨⟨v, i⟩, _, rfl⟩ := List.mem_map.mp member
  obtain ⟨digit, opening, closing⟩ := apart c sign
  exact StandIn.not_mem_token (by decide) digit opening closing i

/-- Where stand-ins are left for finds, the text is dressed with them. -/
theorem dressed_place {α : Type} {pieces : List (Piece α)}
    (ordinary : ∀ c, .plain c ∈ pieces → isOrdinary c = true) (n : Nat) :
    Dressed (numbered n (Text.foundSources pieces)) (pieces.flatMap Piece.source)
      (standIn.place (fun source _ => source) n pieces).1 := by
  induction pieces generalizing n with
  | nil => exact .nil
  | cons piece pieces ih =>
    have later (n : Nat) := ih (fun c member => ordinary c (List.mem_cons_of_mem _ member)) n
    cases piece with
    | plain c => exact .plain (ordinary c List.mem_cons_self) (later n)
    | found source value =>
      rw [Text.foundSources_found, numbered_cons]
      exact .part (later (n + 1))

/-- Filling the stand-ins shows the parts as they are. -/
theorem Dressed.fill {filled : Array Text} {n : Nat} {vs : List Text}
    (fits : n + vs.length ≤ Text.maxIndex + 1) (there : ∀ j, filled[n + j]? = vs[j]?)
    (h : Dressed (numbered n vs) s t) :
    Dressed (vs.map fun v => (v, v)) s (StandIn.fill [standIn] filled t) := by
  generalize named : numbered n vs = parts at h
  induction h generalizing n vs with
  | nil =>
    cases vs with
    | nil => exact .nil
    | cons v vs => simp at named
  | @plain c parts s t ordinary _ ih =>
    have unopened : c ∉ [standIn].map StandIn.opening := by
      rintro member
      obtain rfl : c = standIn.opening := by simpa using member
      exact absurd ordinary (by decide)
    rw [StandIn.fill_cons unopened]
    exact .plain ordinary (ih fits there named)
  | mark sign _ ih => exact .mark sign (ih fits there named)
  | @tag w parts s t known _ ih =>
    have unopened := (show ∀ w ∈ tags, ∀ c ∈ w, c ∉ [standIn].map StandIn.opening by decide)
    rw [StandIn.fill_append_of_unopened (unopened w known)]
    exact .tag known (ih fits there named)
  | @part v w parts s t _ ih =>
    cases vs with
    | nil => simp at named
    | cons v' vs =>
      rw [numbered_cons] at named
      obtain ⟨same, rfl⟩ := List.cons.inj named
      obtain ⟨rfl, rfl⟩ := Prod.mk.inj same
      rw [List.length_cons] at fits
      have here : filled[n]? = some v' := there 0
      have chosen : [standIn].find? (fun kind => kind.opening == standIn.opening) = some standIn :=
        rfl
      rw [StandIn.fill_token chosen (by decide) (by omega) here]
      refine .part (ih (n := n + 1) (by omega) (fun j => ?_) rfl)
      rw [Nat.add_assoc, Nat.add_comm 1 j]
      exact there (j + 1)

/-- Emphasis dresses a text, with what is sheltered left as it stands. -/
theorem dressed_emphasize (unopened : '<' ∉ s) (clear : ∀ c ∈ s, isReserved c = false)
    (fits : (spans s).length ≤ Text.maxIndex + 1) :
    Dressed ((spans s).map fun v => (v, v)) s (emphasize s) := by
  have ordinary (c : Char) (member : .plain c ∈ Text.scan readSheltered s) :
      isOrdinary c = true := by
    have inside : c ∈ s := Text.mem_of_mem_scanFrom member (List.mem_singleton_self c)
    simp [isOrdinary, clear c inside, ne_of_mem_of_not_mem inside unopened]
  have placed := dressed_place ordinary 0
  rw [Text.sources_scan] at placed
  rw [emphasize_eq clear]
  refine (dressed_applyAll signless_numbered placed).fill (by simpa [spans] using fits) fun j => ?_
  simp [StandIn.place_snd, spans, Text.foundSources]

/-! ## Undressing -/

/-- The texts around the parts of a dressed text. -/
theorem Dressed.exists_weave (h : Dressed parts s t) :
    ∃ gaps, gaps.length = parts.length + 1 ∧ t = Text.weave gaps (parts.map Prod.snd) := by
  induction h with
  | nil => exact ⟨[[]], rfl, rfl⟩
  | @plain c parts s t _ _ ih =>
    obtain ⟨gaps, length, rfl⟩ := ih
    obtain ⟨gap, gaps, rfl⟩ := List.exists_cons_of_length_eq_add_one length
    exact ⟨([c] ++ gap) :: gaps, length, by rw [← Text.append_weave]; rfl⟩
  | mark _ _ ih => exact ih
  | @tag w parts s t _ _ ih =>
    obtain ⟨gaps, length, rfl⟩ := ih
    obtain ⟨gap, gaps, rfl⟩ := List.exists_cons_of_length_eq_add_one length
    exact ⟨(w ++ gap) :: gaps, length, Text.append_weave _ _ _ _⟩
  | @part v w parts s t _ ih =>
    obtain ⟨gaps, length, rfl⟩ := ih
    exact ⟨[] :: gaps, by simpa using length, by simp⟩

theorem ofPieces_readTag (before : Option Char) (s : Text) :
    Text.ofPieces (fun _ _ => []) (Text.scanFrom readTag before 0 s) = untagged s := by
  have blind (before before' : Option Char) (s : Text) : readTag before s = readTag before' s := rfl
  rw [untagged, Text.substitute, Text.scan, Text.scanFrom_before blind before none]

theorem untagged_cons (other : c ≠ '<') (s : Text) : untagged (c :: s) = c :: untagged s := by
  have opens : ∀ tag ∈ tags, Text.after? tag (c :: s) = none := by
    have first : ∀ tag ∈ tags, tag.head? = some '<' := by decide
    intro tag known
    obtain ⟨rest, rfl⟩ := List.head?_eq_some_iff.mp (first tag known)
    simp [Text.after?, other.symm]
  have nothing : readTag none (c :: s) = none := by
    simpa [readTag] using opens
  rw [untagged, Text.substitute, Text.scan, Text.scanFrom, nothing]
  exact congrArg (c :: ·) (ofPieces_readTag (some c) s)

theorem untagged_append (absent : '<' ∉ w) (s : Text) : untagged (w ++ s) = w ++ untagged s := by
  induction w with
  | nil => rfl
  | cons c w ih =>
    rw [List.mem_cons, not_or] at absent
    rw [List.cons_append, untagged_cons (Ne.symm absent.1), ih absent.2, List.cons_append]

theorem untagged_tag (known : w ∈ tags) (s : Text) : untagged (w ++ s) = untagged s := by
  have found : readTag none (w ++ s) = some ((), s) := by
    revert w
    simp only [tags, List.forall_mem_cons]
    exact ⟨rfl, rfl, rfl, rfl, rfl, rfl, rfl, rfl, by simp⟩
  have some : w ≠ [] := (show ∀ w ∈ tags, w ≠ [] by decide) w known
  obtain ⟨before, scanned⟩ := Text.scanFrom_found readTag some found
  rw [untagged, Text.substitute, Text.scan, scanned]
  exact ofPieces_readTag before s

/-- Without tags and marks, a text is left as it was before it was dressed. -/
theorem Dressed.unmarked_untagged (shown : ∀ part ∈ parts, part.2 = part.1 ∧ '<' ∉ part.1)
    (h : Dressed parts s t) : unmarked (untagged t) = unmarked s := by
  induction h with
  | nil => rfl
  | @plain c parts s t ordinary _ ih =>
    have other : c ≠ '<' := by
      rintro rfl
      exact absurd ordinary (by decide)
    have rest := ih shown
    unfold unmarked at rest ⊢
    rw [untagged_cons other, List.filter_cons, List.filter_cons, rest]
  | @mark c parts s t sign _ ih =>
    have rest := ih shown
    unfold unmarked at rest ⊢
    rw [rest, List.filter_cons_of_neg (by simpa using sign)]
  | tag known _ ih => rw [untagged_tag known, ih shown]
  | @part v w parts s t _ ih =>
    obtain ⟨⟨same, absent⟩, later⟩ := List.forall_mem_cons.mp shown
    obtain rfl : w = v := same
    have rest := ih later
    unfold unmarked at rest ⊢
    rw [untagged_append absent, List.filter_append, List.filter_append, rest]

/-- Emphasis keeps what it shelters, in its order, and changes nothing but tags and marks. -/
theorem emphasize_account (unopened : '<' ∉ s) (clear : ∀ c ∈ s, isReserved c = false)
    (fits : s.length ≤ Text.maxIndex) :
    (∃ gaps, gaps.length = (spans s).length + 1 ∧ emphasize s = Text.weave gaps (spans s)) ∧
      unmarked (untagged (emphasize s)) = unmarked s := by
  have few : (spans s).length ≤ s.length := by
    rw [spans, Text.length_foundSources]
    exact Text.length_foundValues_le _ _ _ _
  have dressed := dressed_emphasize unopened clear (by omega)
  constructor
  · obtain ⟨gaps, length, woven⟩ := dressed.exists_weave
    exact ⟨gaps, by simpa using length, by simpa [Function.comp_def] using woven⟩
  · refine dressed.unmarked_untagged fun part member => ?_
    obtain ⟨v, inside, rfl⟩ := List.mem_map.mp member
    refine ⟨rfl, fun bracket => unopened ?_⟩
    rw [← Text.weave_scan readSheltered s]
    refine (Text.infix_weave inside ?_).subset bracket
    rw [Text.length_around, spans, Text.length_foundSources]

/-- Phrases that cross each other, with a span in both and marks in the spans. -/
theorem emphasize_account_crossed :
    let s : Text := "*\x7b\x7ba_b\x7d\x7d __x* y](/p__q)__ *"
    ('<' ∉ s ∧ (∀ c ∈ s, isReserved c = false) ∧ s.length ≤ Text.maxIndex) ∧
      (∃ gaps : List Text, gaps.length = 3 ∧
        emphasize s = Text.weave gaps ["\x7b\x7ba_b\x7d\x7d", "](/p__q)"]) ∧
      unmarked (untagged (emphasize s)) = "\x7b\x7bab\x7d\x7d x y](/pq) ".toList := by
  intro s
  have sheltered : spans s = ["\x7b\x7ba_b\x7d\x7d", "](/p__q)"] := by decide
  have unopened : '<' ∉ s := by decide
  have clear : ∀ c ∈ s, isReserved c = false := by decide
  have fits : s.length ≤ Text.maxIndex := by decide
  obtain ⟨kept, same⟩ := emphasize_account unopened clear fits
  rw [sheltered] at kept
  exact ⟨⟨unopened, clear, fits⟩, kept, same⟩

end Stencil.Emphasis
