import Stencil.Proofs.Render.Frame
import Stencil.Proofs.Render.Tokens
import Stencil.Proofs.Tag.Extraction

/-!
# Putting elements back undoes taking them out

A source whose texts around the elements hold no token of their own comes back from extraction and
reinsertion with every element in canonical form, in its place (`reinsertTags_extract`).  The one
exception is an element whose name is spelled with a long s or a Kelvin sign and is taken for a
style.

Extraction and reinsertion read by different rules.  They meet in the skeleton: the placeholders in
it are tokens, nothing else in it is one, and each brings the element that left it behind.
-/

namespace Stencil

/-- Whether a text holds no token of either kind. -/
structure HoldsNoToken (s : Text) : Prop where
  wildcard : Text.Clear Wildcard.read s
  positional : Text.Clear Positional.read s

theorem holdsNoToken_iff {s : Text} : HoldsNoToken s ↔
    ∀ t ∈ s.tails, Wildcard.read none t = none ∧ Positional.read none t = none := by
  simp only [List.mem_tails]
  exact ⟨fun h t inside => ⟨h.wildcard t inside, h.positional t inside⟩,
    fun h => ⟨fun t inside => (h t inside).1, fun t inside => (h t inside).2⟩⟩

instance (s : Text) : Decidable (HoldsNoToken s) := decidable_of_iff _ holdsNoToken_iff.symm

/-- A text without opening braces and brackets holds no token. -/
theorem holdsNoToken_of_notMem {s : Text} (brace : '\x7b' ∉ s) (bracket : '<' ∉ s) :
    HoldsNoToken s := by
  constructor
  case wildcard =>
    intro t inside
    cases t with
    | nil => rfl
    | cons c t =>
      refine Wildcard.read_cons_of_ne (fun same => brace ?_) none t
      exact same ▸ inside.subset List.mem_cons_self
  case positional =>
    intro t inside
    cases t with
    | nil => rfl
    | cons c t =>
      refine Positional.read_cons_of_ne (fun same => bracket ?_) none t
      exact same ▸ inside.subset List.mem_cons_self

/-- The sweep of wildcards passes over the placeholder of an element. -/
theorem isOpaque_placeholder (k : TagKind) (n : Nat) :
    Text.IsOpaque Wildcard.read (k.placeholder n) := by
  have noBrace : '\x7b' ∉ k.placeholder n := by
    have digits : '\x7b' ∉ Text.ofNat n :=
      fun member => absurd (Text.isDigit_of_mem_ofNat member) (by decide)
    have name : '\x7b' ∉ k.name := by cases k <;> decide
    simp [TagKind.placeholder, digits, name]
  refine ⟨⟨_, rfl⟩, ?_⟩
  intro t inside nonempty before w
  cases t with
  | nil => exact absurd rfl nonempty
  | cons c t =>
    have differs : c ≠ '\x7b' := fun same =>
      noBrace (same ▸ inside.subset List.mem_cons_self)
    exact Wildcard.read_cons_of_ne differs before (t ++ w)

variable {tags : TagTable} {nonce : Option Nonce}

theorem reinsertTags_consTemplate (s : Text) :
    reinsertTags tags nonce (Part.consTemplate s []) =
      (Positional.replace tags nonce (Wildcard.replace tags nonce s []).2
        (Wildcard.replace tags nonce s []).1 []).1 := by
  cases s with
  | nil => rfl
  | cons c s => simp [Part.consTemplate, reinsertTags, Part.mapTemplates, Part.join, Part.text]

theorem Wildcard.replace_of_foundValues {s : Text} {spent : List TagKind}
    (h : Text.foundValues (Text.scan Wildcard.read s) = []) :
    Wildcard.replace tags nonce s spent = (s, spent) :=
  Text.ofPiecesWith_scan_of_foundValues h _ spent

theorem Positional.replace_of_foundValues {s : Text} {spent : List TagKind}
    {used : List (TagKind × Nat)} (h : Text.foundValues (Text.scan Positional.read s) = []) :
    Positional.replace tags nonce spent s used = (s, used) :=
  Text.ofPiecesWith_scan_of_foundValues h _ used

/-- Placeholders for elements that differ each bring their element. -/
theorem writeAll_of_nodup {places used : List (TagKind × Nat)} (nodup : places.Nodup)
    (unused : ∀ place ∈ places, place ∉ used) :
    (Text.writeAll (Positional.write tags nonce []) (places.map some) used).1 =
      places.map fun (k, n) => ((tags.get? k n).map (Nonced.apply nonce k)).getD [] := by
  induction places generalizing used with
  | nil => rfl
  | cons place places ih =>
    obtain ⟨k, n⟩ := place
    obtain ⟨fresh, nodup⟩ := List.nodup_cons.mp nodup
    have here : (k, n) ∉ used := unused _ List.mem_cons_self
    have unused (place : TagKind × Nat) (member : place ∈ places) :
        place ∉ (k, n) :: used := by
      rintro (_ | ⟨_, known⟩)
      · exact fresh member
      · exact unused place (List.mem_cons_of_mem _ member) known
    have rest := ih nodup unused
    simp [Text.writeAll, Positional.write, here, rest]

/-- Placeholders between texts without tokens are replaced by their elements, each in its place. -/
theorem reinsertTags_weave (tags : TagTable) (nonce : Option Nonce) {us : List Text}
    {places : List (TagKind × Nat)} (length : us.length = places.length + 1)
    (clear : ∀ u ∈ us, HoldsNoToken u) (nodup : places.Nodup)
    (fits : ∀ k n, (k, n) ∈ places → n ≤ Text.maxIndex) :
    reinsertTags tags nonce
        (Part.consTemplate (Text.weave us (places.map fun (k, n) => k.placeholder n)) []) =
      Text.weave us
        (places.map fun (k, n) => ((tags.get? k n).map (Nonced.apply nonce k)).getD []) := by
  let tokens := places.map fun (k, n) => (k.placeholder n, some (k, n))
  have skeleton : (places.map fun (k, n) => k.placeholder n) = tokens.map Prod.fst := by
    simp [tokens, Function.comp_def]
  have values : tokens.map Prod.snd = places.map some := by
    simp [tokens, Function.comp_def]
  have isToken (token : Text × Option (TagKind × Nat)) (member : token ∈ tokens) :
      Text.IsToken Positional.read token := by
    obtain ⟨⟨k, n⟩, placed, rfl⟩ := List.mem_map.mp member
    exact Positional.isToken_placeholder (fits k n placed)
  have isOpaque (s : Text) (member : s ∈ tokens.map Prod.fst) :
      Text.IsOpaque Wildcard.read s := by
    rw [← skeleton] at member
    obtain ⟨⟨k, n⟩, _, rfl⟩ := List.mem_map.mp member
    exact isOpaque_placeholder k n
  have length : us.length = tokens.length + 1 := by simpa [tokens] using length
  rw [skeleton, reinsertTags_consTemplate]
  -- The first sweep finds no wildcard and changes nothing.
  have none := Text.foundValues_scanFrom_weave Wildcard.isLocal
    (by simpa using length) (fun u member => (clear u member).wildcard) isOpaque Option.none
  rw [Wildcard.replace_of_foundValues none]
  -- The second sweep finds the placeholders and nothing else.
  obtain ⟨around, found⟩ := Text.scanFrom_weave Positional.isLocal length
    (fun u member => (clear u member).positional) isToken Option.none
  rw [Positional.replace, Text.scan, Text.ofPiecesWith_eq_weave, around, found, values,
    writeAll_of_nodup nodup fun _ _ => List.not_mem_nil]

/-- The numbers of extracted elements lead to these elements in the table. -/
theorem elements_numbers (found : List Captured) :
    ((Captured.numbers .none .empty found).map fun (k, n) =>
        (((TagTable.empty.pushAll .none found).get? k n).map (Nonced.apply none k)).getD []) =
      found.map (Captured.element .none) := by
  have entries := congrArg (List.map (·.getD [])) (@Captured.get?_numbers .none .empty found)
  rw [List.map_map, List.map_map] at entries
  calc _ = (Captured.numbers .none .empty found).map
        ((·.getD []) ∘ fun (k, n) => (TagTable.empty.pushAll .none found).get? k n) := by
        refine List.map_congr_left fun (k, n) _ => ?_
        cases h : (TagTable.empty.pushAll .none found).get? k n with
        | none => simp [h]
        | some element => simp [h, Nonced.apply]
    _ = found.map (Captured.element .none) := entries

/-- The finds of extraction are segments, and what is stored for them is what is stored for the
segments. -/
theorem exists_segments (before : Option Char) (skip : Nat) (s : Text) :
    ∃ segments : List Segment,
      Text.foundSources (Text.scanFrom Captured.read before skip s) =
        segments.map Segment.text ∧
      (Text.foundValues (Text.scanFrom Captured.read before skip s)).map
        (Captured.element .none) = segments.map Segment.stored := by
  have each := @Text.forall₂_found _ (Text.scanFrom Captured.read before skip s)
    (fun source tag => ∃ g : Segment, source = g.text ∧ tag.element .none = g.stored)
    fun source tag member => by
      obtain ⟨_, _, found⟩ := Text.read_of_found_mem Captured.delimited_read.cuts member
      obtain ⟨g, split, stored⟩ := Captured.read_eq_some found
      exact ⟨g, List.append_cancel_right split, stored⟩
  generalize Text.foundSources (Text.scanFrom Captured.read before skip s) = sources,
    Text.foundValues (Text.scanFrom Captured.read before skip s) = tags at each ⊢
  induction each with
  | nil => exact ⟨[], rfl, rfl⟩
  | cons here _ ih =>
    obtain ⟨g, rfl, stored⟩ := here
    obtain ⟨segments, rfl, elements⟩ := ih
    exact ⟨g :: segments, rfl, by simp [stored, elements]⟩

/-- A page of stored segments is the one of their canonical forms if and only if no segment is
misread. -/
theorem weave_stored_eq_iff {us : List Text} {segments : List Segment}
    (length : us.length = segments.length + 1) :
    Text.weave us (segments.map Segment.stored) = Text.weave us (segments.map Segment.canonical) ↔
      ∀ g ∈ segments, ¬g.Misread := by
  induction segments generalizing us with
  | nil => simp
  | cons g segments ih =>
    obtain ⟨u, us, rfl⟩ := List.exists_cons_of_length_eq_add_one length
    have rest := @ih us (by simpa using length)
    -- The first misread segment shows, whatever follows it.
    by_cases misread : g.Misread
    · simp [Text.weave, misread, misread.append_ne]
    · simp [Text.weave, misread, Segment.stored_eq_canonical misread, rest]

/-- What was taken out of a source comes back in its place. -/
theorem reinsertTags_extract_eq_weave {source : Text} (fits : source.length ≤ Text.maxIndex)
    (clear : ∀ u ∈ Text.around (Text.scan Captured.read source), HoldsNoToken u) :
    reinsertTags (extract .none source).2 none (Part.consTemplate (extract .none source).1 []) =
      Text.weave (Text.around (Text.scan Captured.read source))
        ((Text.foundValues (Text.scan Captured.read source)).map (Captured.element .none)) := by
  rw [extract, Captured.collect_eq_weave]
  have few : (Text.foundValues (Text.scan Captured.read source)).length ≤ source.length :=
    Text.length_foundValues_le _ _ _ _
  have length := Text.length_around (Text.scan Captured.read source)
  generalize Text.foundValues (Text.scan Captured.read source) = found at few length ⊢
  have fits (k : TagKind) (n : Nat) (member : (k, n) ∈ Captured.numbers .none .empty found) :
      n ≤ Text.maxIndex := by
    have bound := (Captured.mem_numbers member).2
    have count : TagTable.empty.count k = 0 := by simp [TagTable.count]
    omega
  rw [← Captured.length_numbers .empty found] at length
  rw [reinsertTags_weave _ _ length clear (Captured.nodup_numbers .empty found) fits,
    elements_numbers]

/-- Putting back what was taken out gives the source with each element as it is stored.  These are
the canonical forms if and only if no element is misread, and the source itself if all elements are
plain.  There is only one way to see the elements as segments.  A text in memory is never too long
for the numbers of its elements to be read back, which is all that `fits` asks. -/
theorem reinsertTags_extract (source : Text) (fits : source.length ≤ Text.maxIndex)
    (clear : ∀ u ∈ Text.around (Text.scan Captured.read source), HoldsNoToken u) :
    ∃ segments : List Segment,
      let us := Text.around (Text.scan Captured.read source)
      let sources := Text.foundSources (Text.scan Captured.read source)
      let page := reinsertTags (extract .none source).2 none
        (Part.consTemplate (extract .none source).1 [])
      sources = segments.map Segment.text ∧
      (∀ others, sources = others.map Segment.text → others = segments) ∧
      source = Text.weave us (segments.map Segment.text) ∧
      page = Text.weave us (segments.map Segment.stored) ∧
      (page = Text.weave us (segments.map Segment.canonical) ↔ ∀ g ∈ segments, ¬g.Misread) ∧
      ((∀ g ∈ segments, g.Plain) → page = source) := by
  obtain ⟨segments, sources, elements⟩ := exists_segments none 0 source
  rw [← Text.scan] at sources elements
  have length : (Text.around (Text.scan Captured.read source)).length = segments.length + 1 := by
    rw [← List.length_map Segment.text, ← sources, Text.length_foundSources]
    exact Text.length_around _
  have woven : source = Text.weave (Text.around (Text.scan Captured.read source))
      (segments.map Segment.text) := by
    rw [← sources]
    exact (Text.weave_scan Captured.read source).symm
  have page := reinsertTags_extract_eq_weave fits clear
  rw [elements] at page
  refine ⟨segments, sources, ?_, woven, page, ?_, ?_⟩
  · intro others same
    exact (List.map_inj_right fun _ _ => Segment.text_injective).mp (same.symm.trans sources)
  · rw [page]
    exact weave_stored_eq_iff length
  · intro plain
    have same : segments.map Segment.stored = segments.map Segment.text :=
      List.map_congr_left fun g member => (plain g member).stored_eq
    rw [page, same, ← woven]

/-- A page with one script comes back as it is. -/
theorem reinsertTags_extract_script :
    ∃ segments : List Segment, segments.map Segment.text = (["<script>s</script>"] : List Text) ∧
      Text.weave ["a", "b"] (segments.map Segment.stored) = "a<script>s</script>b" := by
  have around : Text.around (Text.scan Captured.read "a<script>s</script>b") =
      (["a", "b"] : List Text) := by decide +kernel
  have sources : Text.foundSources (Text.scan Captured.read "a<script>s</script>b") =
      (["<script>s</script>"] : List Text) := by decide +kernel
  have clear : ∀ u ∈ Text.around (Text.scan Captured.read "a<script>s</script>b"),
      HoldsNoToken u := by
    rw [around]
    intro u member
    simp only [List.mem_cons, List.not_mem_nil, or_false] at member
    rcases member with rfl | rfl
    · exact holdsNoToken_of_notMem (by decide) (by decide)
    · exact holdsNoToken_of_notMem (by decide) (by decide)
  obtain ⟨segments, texts, _, _, page, _, _⟩ :=
    reinsertTags_extract "a<script>s</script>b" (by decide) clear
  rw [around] at page
  exact ⟨segments, texts.symm.trans sources, page.symm.trans (by decide +kernel)⟩

/-- A script element whose name is spelled with a long s. -/
def longSScript : Segment where
  written := "\u017fcript"
  raw := []
  content := "x"
  closing := "</\u017fcript>"
  named := by decide
  ends := by decide
  opened := by decide
  closed := .inr (by decide)

/-- It is put back as a style. -/
theorem reinsertTags_extract_longS :
    longSScript.canonical = "<script>x</script>" ∧
      reinsertTags (extract .none longSScript.text).2 none
        (Part.consTemplate (extract .none longSScript.text).1 []) = "<style>x</style>" := by
  decide +kernel

end Stencil
