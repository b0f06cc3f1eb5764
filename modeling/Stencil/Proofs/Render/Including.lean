import Stencil.Proofs.Render.Confinement
import Stencil.Proofs.Render.Inverse
import Stencil.Proofs.Render.Surviving
import Stencil.Proofs.Text.Whole

/-!
# An include between two texts

A page that is nothing but the placeholder of an include between two texts comes out as what is
included between the same texts, or with the placeholder if there is nothing
(`Encloses.fillValues_eq`, `Encloses.reinsertTags_parts`).  The two texts may hold no placeholder
and no token of an element, and neither may the name of the include.
-/

namespace Stencil

variable {α τ : Type}

namespace Part

theorem consTemplate_nil (parts : List Part) : consTemplate [] parts = parts := by
  cases parts with
  | nil => rfl
  | cons part parts => cases part <;> rfl

theorem consTemplate_append (s t : Text) (parts : List Part) :
    consTemplate s (consTemplate t parts) = consTemplate (s ++ t) parts := by
  cases parts with
  | nil => cases t <;> cases s <;> simp [consTemplate]
  | cons part parts =>
    cases part with
    | template u => simp [consTemplate]
    | value u => cases t <;> cases s <;> simp [consTemplate]

@[simp] theorem join_nil : join [] = [] := rfl

@[simp] theorem join_value (s : Text) (parts : List Part) :
    join (.value s :: parts) = s ++ join parts := rfl

@[simp] theorem join_consTemplate (s : Text) (parts : List Part) :
    join (consTemplate s parts) = s ++ join parts := by
  cases parts with
  | nil => cases s <;> simp [consTemplate, join, text]
  | cons part parts => cases part <;> cases s <;> simp [consTemplate, join, text]

theorem eq_of_template_mem_consTemplate {s t : Text} (h : .template t ∈ consTemplate s []) :
    t = s := by
  cases s with
  | nil => simp [consTemplate] at h
  | cons c s => simpa [consTemplate] using h

theorem template_mem_consTemplate_value {s t v : Text} {parts : List Part}
    (h : .template t ∈ consTemplate s (.value v :: parts)) : t = s ∨ .template t ∈ parts := by
  cases s with
  | nil => exact .inr (by simpa [consTemplate] using h)
  | cons c s => simpa [consTemplate] using h

/-- Template texts that are left as they are. -/
theorem mapTemplates_eq {f : Text → τ → Text × τ} {parts : List Part} {t : τ}
    (fixed : ∀ s, .template s ∈ parts → f s t = (s, t)) : mapTemplates f parts t = (parts, t) := by
  induction parts with
  | nil => rfl
  | cons part parts ih =>
    have rest := ih fun s member => fixed s (List.mem_cons_of_mem _ member)
    cases part with
    | template s => simp [mapTemplates, fixed s List.mem_cons_self, rest]
    | value s => simp [mapTemplates, rest]

end Part

/-- Whether the sweeps that put elements back find nothing in a text. -/
structure Unswept (s : Text) : Prop where
  wildcards : Text.foundValues (Text.scan Wildcard.read s) = []
  places : Positional.placesOf s = []

/-- A page whose template texts hold nothing to sweep is put together as it is. -/
theorem reinsertTags_eq_join_of_unswept {tags : TagTable} {nonce : Option Nonce}
    {parts : List Part} (unswept : ∀ s, .template s ∈ parts → Unswept s) :
    reinsertTags tags nonce parts = Part.join parts := by
  have wildcards : Part.mapTemplates (Wildcard.replace tags nonce) parts [] = (parts, []) :=
    Part.mapTemplates_eq fun s member =>
      Wildcard.replace_of_foundValues (unswept s member).wildcards
  have places : Part.mapTemplates (Positional.replace tags nonce []) parts [] = (parts, []) :=
    Part.mapTemplates_eq fun s member =>
      Positional.replace_of_foundValues (unswept s member).places
  unfold reinsertTags
  rw [wildcards]
  dsimp only
  rw [places]

theorem fillPieces_map_plain (sources : Sources τ) (s : Text) (pieces : List (Piece Placeholder))
    (t : τ) :
    fillPieces sources (s.map .plain ++ pieces) t =
      (Part.consTemplate s (fillPieces sources pieces t).1, (fillPieces sources pieces t).2) := by
  induction s with
  | nil => simp [Part.consTemplate_nil]
  | cons c s ih => simp [fillPieces, ih, Part.consTemplate_append]

namespace Placeholder

theorem read_cons_of_ne {c : Char} (h : c ≠ '\x7b') (before : Option Char) (s : Text) :
    read before (c :: s) = none := by
  simp [read, readBody?, Text.after?, h.symm]

def including (name : Text) : Placeholder := ⟨'#' :: name, false⟩

theorem written_including (name : Text) :
    (including name).written =
      '\x7b' :: '\x7b' :: '\x7b' :: '#' :: (name ++ ['\x7d', '\x7d', '\x7d']) := by
  simp [including, written]

/-- The placeholder of an include is read as a whole, whatever surrounds it. -/
theorem read_including {name : Text} (brace : '\x7d' ∉ name) (line : '\n' ∉ name)
    (before : Option Char) (s : Text) :
    read before ((including name).written ++ s) = some (including name, s) := by
  have split : Text.splitAtFirst? ['\x7d', '\x7d', '\x7d']
      ('#' :: name ++ '\x7d' :: (['\x7d', '\x7d'] ++ s)) = some ('#' :: name, s) :=
    Text.splitAtFirst?_append (by simpa using brace) s
  have opened : Text.after? ['\x7b', '\x7b', '\x7b'] ((including name).written ++ s) =
      some ('#' :: name ++ '\x7d' :: (['\x7d', '\x7d'] ++ s)) := by
    simp [written_including, Text.after?]
  have body : readBody? ['\x7b', '\x7b', '\x7b'] ['\x7d', '\x7d', '\x7d']
      ((including name).written ++ s) = some ('#' :: name, s) := by
    simp only [readBody?, opened, splitLine?, Option.bind_eq_bind, Option.bind_some, split]
    rw [if_neg (by simpa using line)]
  rw [read, body]
  rfl

end Placeholder

theorem unswept_of_holdsNoToken {s : Text} (h : HoldsNoToken s) : Unswept s := by
  have plain {α : Type} : Text.foundValues (s.map (Piece.plain (α := α))) = [] := by
    have passed := Text.foundValues_map_plain_append s ([] : List (Piece α))
    rwa [List.append_nil] at passed
  have wildcards : Text.scan Wildcard.read s = s.map .plain :=
    Text.scan_eq_plain fun t inside _ _ => h.wildcard t inside
  have places : Text.scan Positional.read s = s.map .plain :=
    Text.scan_eq_plain fun t inside _ _ => h.positional t inside
  exact ⟨by rw [wildcards, plain], by rw [Positional.placesOf, places, plain]⟩

/-- A name and two texts that do not disturb the placeholder which includes a template by the name
and stands between the two. -/
structure Encloses (name before after : Text) : Prop where
  named : ∀ c ∈ name, c ∉ ['\x7b', '\x7d', '<', '\n']
  front : '\x7b' ∉ before
  back : '\x7b' ∉ after
  frontToken : HoldsNoToken before
  backToken : HoldsNoToken after

namespace Encloses

variable {name before after : Text}

/-- Between two texts that do not disturb it, an include is the only placeholder. -/
theorem scan_eq (h : Encloses name before after) :
    Text.scan Placeholder.read (before ++ ((Placeholder.including name).written ++ after)) =
      before.map .plain ++
        .found (Placeholder.including name).written (Placeholder.including name) ::
          after.map .plain := by
  have pass {s : Text} (brace : '\x7b' ∉ s) := Text.scanFrom_pass_of_notMem
    (fun d other => Placeholder.read_cons_of_ne other) brace
  have read (b : Option Char) := Placeholder.read_including
    (fun brace => h.named _ brace (by decide)) (fun line => h.named _ line (by decide)) b after
  obtain ⟨b, front⟩ := pass h.front ((Placeholder.including name).written ++ after) none
  obtain ⟨b', found⟩ := Text.scanFrom_found Placeholder.read (Placeholder.written_ne_nil _) (read b)
  obtain ⟨b'', back⟩ := pass h.back [] b'
  rw [List.append_nil] at back
  rw [Text.scan, front, found, back]
  simp [Text.scanFrom]

/-- No wildcard begins in the placeholder. -/
theorem wildcard_read_suffix (h : Encloses name before after) {t : Text}
    (inside : t <:+ (Placeholder.including name).written) (nonempty : t ≠ []) (b : Option Char) :
    Wildcard.read b (t ++ after) = none := by
  rw [Placeholder.written_including] at inside
  rcases List.suffix_cons_iff.mp inside with rfl | inside
  · simp [Wildcard.read, Text.after?, Wildcard.dropBrace]
  · rcases List.suffix_cons_iff.mp inside with rfl | inside
    · simp [Wildcard.read, Text.after?, Wildcard.dropBrace]
    · rcases List.suffix_cons_iff.mp inside with rfl | inside
      · simp [Wildcard.read, Text.after?]
      · obtain ⟨c, t, rfl⟩ := List.exists_cons_of_ne_nil nonempty
        refine Wildcard.read_cons_of_ne (fun same => ?_) b (t ++ after)
        have member := inside.subset List.mem_cons_self
        simp only [same, List.mem_cons, List.mem_append, List.not_mem_nil, or_false] at member
        rcases member with hash | named | closing
        · exact absurd hash (by decide)
        · exact h.named _ named (by decide)
        · exact absurd closing (by decide)

/-- The sweeps find nothing in such a template. -/
theorem unswept (h : Encloses name before after) :
    Unswept (before ++ ((Placeholder.including name).written ++ after)) := by
  have front := unswept_of_holdsNoToken h.frontToken
  have back := unswept_of_holdsNoToken h.backToken
  constructor
  case wildcards =>
    have pass {s : Text} (brace : '\x7b' ∉ s) := Text.scanFrom_pass_of_notMem
      (fun d other => Wildcard.read_cons_of_ne other) brace
    obtain ⟨b, front⟩ := pass h.front ((Placeholder.including name).written ++ after) none
    obtain ⟨b', middle⟩ := Text.scanFrom_pass Wildcard.read
      (fun t inside nonempty => h.wildcard_read_suffix inside nonempty) b
    obtain ⟨b'', back⟩ := pass h.back [] b'
    rw [List.append_nil] at back
    rw [Text.scan, front, middle, back]
    simp only [Text.foundValues_map_plain_append]
    rfl
  case places =>
    have named : '<' ∉ name := fun member => h.named _ member (by decide)
    have bracket : '<' ∉ (Placeholder.including name).written := by
      simp [Placeholder.written_including, named]
    have split := Positional.placesOf_append_of_notMem bracket after
    rw [back.places] at split
    rw [Placeholder.written_including] at split ⊢
    rw [List.cons_append] at split ⊢
    rw [Positional.placesOf_append_brace, front.places, split]
    rfl

def parts (name before after : Text) (answer : Option Text) : List Part :=
  Part.consTemplate before <|
    match answer with
    | some html => .value html :: Part.consTemplate after []
    | none => Part.consTemplate (Placeholder.including name).written (Part.consTemplate after [])

/-- Filling such a template puts the answer to the include between its texts. -/
theorem fillValues_eq (h : Encloses name before after) {path : Text}
    (asks : Request.parse? ('#' :: name) = some (.template path)) (sources : Sources τ) (t : τ) :
    fillValues sources (before ++ ((Placeholder.including name).written ++ after)) t =
      (parts name before after (sources.template path t).1, (sources.template path t).2) := by
  have request : (Placeholder.including name).request? = some (.template path) := asks
  have back := fillPieces_map_plain sources after []
  simp only [List.append_nil, fillPieces] at back
  rw [fillValues, h.scan_eq, fillPieces_map_plain, fillPieces]
  simp only [Placeholder.fill, request, back]
  cases (sources.template path t).1 with
  | none => rfl
  | some html => rfl

/-- What is included stands between the two texts; the placeholder does if there is nothing. -/
theorem reinsertTags_parts (h : Encloses name before after) (tags : TagTable)
    (nonce : Option Nonce) (answer : Option Text) :
    reinsertTags tags nonce (parts name before after answer) =
      before ++ (answer.getD (Placeholder.including name).written ++ after) := by
  unfold parts
  cases answer with
  | none =>
    rw [Part.consTemplate_append, Part.consTemplate_append, List.append_assoc,
      reinsertTags_eq_join_of_unswept fun t inside =>
        Part.eq_of_template_mem_consTemplate inside ▸ h.unswept]
    simp
  | some html =>
    rw [reinsertTags_eq_join_of_unswept]
    · simp
    · intro t inside
      rcases Part.template_mem_consTemplate_value inside with rfl | inside
      · exact unswept_of_holdsNoToken h.frontToken
      · rw [Part.eq_of_template_mem_consTemplate inside]
        exact unswept_of_holdsNoToken h.backToken

end Encloses

end Stencil
