import Stencil.Proofs.Text.Weave

/-!
# Parts of a page and the frame around its values

A page in the making is a frame of template texts with the filled-in texts in between.  Neither of
the two sweeps that put elements back touches a filled-in text, and what they make of the template
texts does not depend on one: a page whose values are blanked out is swept to the same frame
(`around_swept_eq`).
-/

namespace Stencil

variable {τ : Type}

namespace Part

def value? : Part → Option Text
  | .template _ => none
  | .value s => some s

def values (parts : List Part) : List Text := parts.filterMap value?

/-- Template text before the template texts of a page. -/
def prepend (s : Text) : List Text → List Text
  | [] => [s]
  | t :: around => (s ++ t) :: around

/-- The template texts around the values of a page. -/
def around : List Part → List Text
  | [] => [[]]
  | .template s :: parts => prepend s (around parts)
  | .value _ :: parts => [] :: around parts

/-- The part without the text that was filled in. -/
def blank : Part → Part
  | .template s => .template s
  | .value _ => .value []

@[simp] theorem values_template (s : Text) (parts : List Part) :
    values (.template s :: parts) = values parts := rfl

@[simp] theorem values_value (s : Text) (parts : List Part) :
    values (.value s :: parts) = s :: values parts := rfl

/-- There is one template text more than there are values. -/
theorem length_around (parts : List Part) : (around parts).length = (values parts).length + 1 := by
  induction parts with
  | nil => rfl
  | cons part parts ih =>
    cases part with
    | template s =>
      rw [around]
      cases h : around parts with
      | nil => simp [h] at ih
      | cons t ts => simpa [prepend, h] using ih
    | value s => simpa [around] using ih

theorem weave_prepend (s : Text) {ss : List Text} (h : ss ≠ []) (between : List Text) :
    Text.weave (prepend s ss) between = s ++ Text.weave ss between := by
  cases ss with
  | nil => exact absurd rfl h
  | cons t ss => exact (Text.append_weave s t ss between).symm

/-- A page is the weave of its values into the template texts around them. -/
theorem join_eq_weave (parts : List Part) :
    join parts = Text.weave (around parts) (values parts) := by
  induction parts with
  | nil => rfl
  | cons part parts ih =>
    have nonempty : around parts ≠ [] := by
      intro h
      have := length_around parts
      simp [h] at this
    cases part with
    | template s =>
      have step : join (.template s :: parts) = s ++ join parts := rfl
      rw [step, ih, around, weave_prepend s nonempty]
      rfl
    | value s =>
      have step : join (.value s :: parts) = s ++ join parts := rfl
      rw [step, ih]
      rfl

@[simp] theorem around_map_blank (parts : List Part) : around (parts.map blank) = around parts := by
  induction parts with
  | nil => rfl
  | cons part parts ih => cases part <;> simp [around, blank, ih]

theorem map_value?_mapTemplates (f : Text → τ → Text × τ) (parts : List Part) (t : τ) :
    (mapTemplates f parts t).1.map value? = parts.map value? := by
  induction parts generalizing t with
  | nil => rfl
  | cons part parts ih => cases part <;> simp [mapTemplates, value?, ih]

theorem mapTemplates_map_blank (f : Text → τ → Text × τ) (parts : List Part) (t : τ) :
    mapTemplates f (parts.map blank) t =
      ((mapTemplates f parts t).1.map blank, (mapTemplates f parts t).2) := by
  induction parts generalizing t with
  | nil => rfl
  | cons part parts ih => cases part <;> simp [mapTemplates, blank, ih]

theorem values_eq_of_map_value? {parts others : List Part}
    (h : parts.map value? = others.map value?) : values parts = values others := by
  have unfold (parts : List Part) : values parts = (parts.map value?).filterMap id := by
    simp [values, List.filterMap_map]
  rw [unfold, unfold, h]

end Part

/-- The parts of a page after both sweeps. -/
def swept (tags : TagTable) (nonce : Option Nonce) (parts : List Part) : List Part :=
  let (parts, spent) := Part.mapTemplates (Wildcard.replace tags nonce) parts []
  (Part.mapTemplates (Positional.replace tags nonce spent) parts []).1

variable {tags : TagTable} {nonce : Option Nonce}

theorem reinsertTags_eq_join (parts : List Part) :
    reinsertTags tags nonce parts = Part.join (swept tags nonce parts) :=
  rfl

theorem map_value?_swept (parts : List Part) :
    (swept tags nonce parts).map Part.value? = parts.map Part.value? := by
  simp [swept, Part.map_value?_mapTemplates]

theorem swept_map_blank (parts : List Part) :
    swept tags nonce (parts.map Part.blank) = (swept tags nonce parts).map Part.blank := by
  simp [swept, Part.mapTemplates_map_blank]

/-- Pages that differ in nothing but their values are swept to the same frame. -/
theorem around_swept_eq {parts others : List Part}
    (h : parts.map Part.blank = others.map Part.blank) :
    Part.around (swept tags nonce parts) = Part.around (swept tags nonce others) := by
  rw [← Part.around_map_blank (swept tags nonce parts), ← swept_map_blank, h, swept_map_blank,
    Part.around_map_blank]

/-- A page with its elements put back is the weave of its values into the swept frame. -/
theorem reinsertTags_eq_weave (parts : List Part) :
    reinsertTags tags nonce parts =
      Text.weave (Part.around (swept tags nonce parts)) (Part.values parts) := by
  rw [reinsertTags_eq_join, Part.join_eq_weave,
    Part.values_eq_of_map_value? (map_value?_swept parts)]

end Stencil
