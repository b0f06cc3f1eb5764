import Stencil.Context.Value
import Stencil.Proofs.Render.Frame

/-!
# Values have no influence on the elements that are put back

Two renders of one skeleton in which the same placeholders resolve differ, once the elements are
back, in nothing but the texts that were filled in (`reinsertTags_noninterfering`).  The frame
around those texts is the same in both, so that no text can claim, move, repeat or suppress an
element, whatever it looks like, and none is scanned again.
-/

namespace Stencil

variable {τ τ' : Type}

/-- What the placeholders among some pieces resolve to, from left to right. -/
def answers (sources : Sources τ) : List (Piece Placeholder) → τ → List (Option Text)
  | [], _ => []
  | .plain _ :: pieces, t => answers sources pieces t
  | .found _ p :: pieces, t => (p.fill sources t).1 :: answers sources pieces (p.fill sources t).2

/-- The parts of a page in which each placeholder has an answer or stays as it is. -/
def place : List (Piece Placeholder) → List (Option Text) → List Part
  | [], _ => []
  | .plain c :: pieces, texts => Part.consTemplate [c] (place pieces texts)
  | .found _ _ :: pieces, some s :: texts => .value s :: place pieces texts
  | .found source _ :: pieces, none :: texts => Part.consTemplate source (place pieces texts)
  | .found source _ :: pieces, [] => Part.consTemplate source (place pieces [])

theorem length_answers (sources : Sources τ) (pieces : List (Piece Placeholder)) (t : τ) :
    (answers sources pieces t).length = (Text.foundValues pieces).length := by
  induction pieces generalizing t with
  | nil => rfl
  | cons piece pieces ih => cases piece <;> simp [answers, ih]

/-- Each answer is that of its placeholder in some state on the way. -/
theorem exists_fill_of_mem_answers {sources : Sources τ} {pieces : List (Piece Placeholder)} {t : τ}
    {p : Placeholder} {answer : Option Text}
    (member : (p, answer) ∈ (Text.foundValues pieces).zip (answers sources pieces t)) :
    ∃ t', (p.fill sources t').1 = answer := by
  induction pieces generalizing t with
  | nil => simp at member
  | cons piece pieces ih =>
    cases piece with
    | plain c => exact ih member
    | found source q =>
      rw [Text.foundValues_found, answers, List.zip_cons_cons] at member
      rcases List.mem_cons.mp member with same | later
      · obtain ⟨rfl, filled⟩ := Prod.mk.inj same
        exact ⟨t, filled.symm⟩
      · exact ih later

/-- A filled page is its placeholders' answers put in their places. -/
theorem fillPieces_eq_place (sources : Sources τ) (pieces : List (Piece Placeholder)) (t : τ) :
    (fillPieces sources pieces t).1 = place pieces (answers sources pieces t) := by
  induction pieces generalizing t with
  | nil => rfl
  | cons piece pieces ih =>
    cases piece with
    | plain c => simp [fillPieces, answers, place, ih]
    | found source p =>
      simp only [fillPieces, answers]
      cases (p.fill sources t).1 with
      | none => simp [place, ih]
      | some s => simp [place, ih]

theorem map_blank_consTemplate (s : Text) (parts : List Part) :
    (Part.consTemplate s parts).map Part.blank = Part.consTemplate s (parts.map Part.blank) := by
  cases parts with
  | nil => by_cases h : s.isEmpty <;> simp [Part.consTemplate, Part.blank, h]
  | cons part parts =>
    cases part with
    | template t => rfl
    | value t => by_cases h : s.isEmpty <;> simp [Part.consTemplate, Part.blank, h]

@[simp] theorem values_consTemplate (s : Text) (parts : List Part) :
    Part.values (Part.consTemplate s parts) = Part.values parts := by
  cases parts with
  | nil => by_cases h : s.isEmpty <;> simp [Part.consTemplate, h]
  | cons part parts =>
    cases part with
    | template t => rfl
    | value t => by_cases h : s.isEmpty <;> simp [Part.consTemplate, h]

/-- An answer of which only is known that there is one. -/
def blankAnswer (answer : Option Text) : Option Text := answer.map fun _ => []

theorem map_blank_place (pieces : List (Piece Placeholder)) (texts : List (Option Text)) :
    (place pieces texts).map Part.blank = place pieces (texts.map blankAnswer) := by
  fun_induction place pieces texts with
  | case1 texts => rfl
  | case2 c pieces texts ih => rw [map_blank_consTemplate, ih, place]
  | case3 source p pieces s texts ih => simpa [place, blankAnswer, Part.blank] using ih
  | case4 source p pieces texts ih =>
    rw [map_blank_consTemplate, ih]
    rfl
  | case5 source p pieces ih => rw [map_blank_consTemplate, ih, List.map_nil, place]

/-- The values of a page are the answers that there are, in order. -/
theorem values_place (pieces : List (Piece Placeholder)) (texts : List (Option Text))
    (enough : texts.length = (Text.foundValues pieces).length) :
    Part.values (place pieces texts) = texts.filterMap id := by
  fun_induction place pieces texts with
  | case1 texts =>
    obtain rfl := List.eq_nil_of_length_eq_zero enough
    rfl
  | case2 c pieces texts ih => simpa using ih (by simpa using enough)
  | case3 source p pieces s texts ih => simpa using ih (by simpa using enough)
  | case4 source p pieces texts ih => simpa using ih (by simpa using enough)
  | case5 source p pieces ih => simp at enough

theorem map_blankAnswer_eq {texts others : List (Option Text)}
    (same : texts.map Option.isSome = others.map Option.isSome) :
    texts.map blankAnswer = others.map blankAnswer := by
  have factor (texts : List (Option Text)) : texts.map blankAnswer =
      (texts.map Option.isSome).map fun known => if known then some [] else none := by
    rw [List.map_map]
    exact List.map_congr_left fun answer _ => by cases answer <;> rfl
  rw [factor, factor, same]

def resolved (sources : Sources τ) (skeleton : Text) (t : τ) : List (Option Text) :=
  answers sources (Text.scan Placeholder.read skeleton) t

theorem map_blank_fillValues (sources : Sources τ) (skeleton : Text) (t : τ) :
    (fillValues sources skeleton t).1.map Part.blank =
      place (Text.scan Placeholder.read skeleton)
        ((resolved sources skeleton t).map blankAnswer) := by
  rw [fillValues, fillPieces_eq_place, map_blank_place, resolved]

theorem values_fillValues (sources : Sources τ) (skeleton : Text) (t : τ) :
    Part.values (fillValues sources skeleton t).1 = (resolved sources skeleton t).filterMap id := by
  rw [fillValues, fillPieces_eq_place, values_place _ _ (length_answers _ _ _), resolved]

/-- Two runs in which the same placeholders resolve have the same frame of processed template text;
each is that frame with the texts it filled in, one after the other and as they are. -/
theorem reinsertTags_noninterfering (tags : TagTable) (nonce : Option Nonce) (skeleton : Text)
    (a : Sources τ) (t : τ) (b : Sources τ') (t' : τ')
    (same : (resolved a skeleton t).map Option.isSome =
      (resolved b skeleton t').map Option.isSome) :
    ∃ frame : List Text,
      frame.length = ((resolved a skeleton t).filterMap id).length + 1 ∧
      frame.length = ((resolved b skeleton t').filterMap id).length + 1 ∧
      frame = Part.around (swept tags nonce (fillValues a skeleton t).1) ∧
      frame = Part.around (swept tags nonce (fillValues b skeleton t').1) ∧
      reinsertTags tags nonce (fillValues a skeleton t).1 =
        Text.weave frame ((resolved a skeleton t).filterMap id) ∧
      reinsertTags tags nonce (fillValues b skeleton t').1 =
        Text.weave frame ((resolved b skeleton t').filterMap id) := by
  have blank : (fillValues a skeleton t).1.map Part.blank =
      (fillValues b skeleton t').1.map Part.blank := by
    rw [map_blank_fillValues, map_blank_fillValues, map_blankAnswer_eq same]
  have frames := @around_swept_eq tags nonce _ _ blank
  have enough {υ : Type} (sources : Sources υ) (u : υ) :
      (Part.around (swept tags nonce (fillValues sources skeleton u).1)).length =
        ((resolved sources skeleton u).filterMap id).length + 1 := by
    rw [Part.length_around, Part.values_eq_of_map_value? (map_value?_swept _), values_fillValues]
  refine ⟨Part.around (swept tags nonce (fillValues a skeleton t).1), enough a t, ?_, rfl, frames,
    ?_, ?_⟩
  · rw [frames]
    exact enough b t'
  · rw [reinsertTags_eq_weave, values_fillValues]
  · rw [reinsertTags_eq_weave, values_fillValues, frames]

def withValue (value : Text) : Sources Unit :=
  ⟨Context.resolve { values := [("a", .literal (.string value))] }, fun _ t => (none, t)⟩

def valueThenScript : Text := "\x7b\x7b\x7ba\x7d\x7d\x7d<@script:1>"

theorem resolved_withValue (value : Text) :
    resolved (withValue value) valueThenScript () = [some value] :=
  rfl

/-- A value that looks like a wildcard stands where any other one would, and the script comes back
where its placeholder is. -/
theorem reinsertTags_wildcard_value :
    ∃ frame : List Text,
      (∀ value ∈ [("\x7b\x7b-script\x7d\x7d" : Text), ("x" : Text)],
        reinsertTags { script := ["<script></script>"] } none
          (fillValues (withValue value) valueThenScript ()).1 = Text.weave frame [value]) ∧
      Text.weave frame ["x"] = "x<script></script>" := by
  obtain ⟨frame, _, _, _, _, wild, tame⟩ :=
    reinsertTags_noninterfering { script := ["<script></script>"] } none valueThenScript
      (withValue "\x7b\x7b-script\x7d\x7d") () (withValue "x") () (by simp [resolved_withValue])
  rw [resolved_withValue] at wild tame
  refine ⟨frame, ?_, ?_⟩
  · intro value member
    simp only [List.mem_cons, List.not_mem_nil, or_false] at member
    rcases member with rfl | rfl
    · exact wild
    · exact tame
  · rw [← show _ = Text.weave frame ["x"] from tame]
    decide +kernel

end Stencil
