import Stencil.Render.Parts

/-!
# Filling the same placeholders over two states

Two runs fill the placeholders of one skeleton, each from sources of its own and over a state of its
own.  Where the sources answer alike in related states and lead to related states, so does the
filling as a whole (`Sources.Related.fillValues`).  Every comparison of two renders goes through
this lemma, whatever the states are.
-/

namespace Stencil

variable {τ τ' : Type}

/-- Two sources answer alike in related states and leave related states behind. -/
structure Sources.Related (R : τ → τ' → Prop) (a : Sources τ) (b : Sources τ') : Prop where
  value : ∀ name t t', R t t' →
    (a.value name t).1 = (b.value name t').1 ∧ R (a.value name t).2 (b.value name t').2
  template : ∀ path t t', R t t' →
    (a.template path t).1 = (b.template path t').1 ∧ R (a.template path t).2 (b.template path t').2

namespace Sources.Related

variable {R : τ → τ' → Prop} {a : Sources τ} {b : Sources τ'}

/-- One placeholder gets the same text from related sources. -/
theorem fill (related : Sources.Related R a b) (p : Placeholder) {t : τ} {t' : τ'} (h : R t t') :
    (p.fill a t).1 = (p.fill b t').1 ∧ R (p.fill a t).2 (p.fill b t').2 := by
  unfold Placeholder.fill
  cases p.request? with
  | none => exact ⟨rfl, h⟩
  | some request =>
    match request with
    | .template path =>
      obtain ⟨same, after⟩ := related.template path t t' h
      exact ⟨congrArg (Option.map p.escape) same, after⟩
    | .value name =>
      obtain ⟨same, after⟩ := related.value name t t' h
      exact ⟨congrArg (Option.map p.escape) same, after⟩
    | .attribute attr name quote =>
      obtain ⟨same, after⟩ := related.value name t t' h
      exact ⟨congrArg (Option.map _) same, after⟩

/-- All placeholders get the same texts from related sources, one after the other. -/
theorem fillPieces (related : Sources.Related R a b) (pieces : List (Piece Placeholder)) {t : τ}
    {t' : τ'} (h : R t t') :
    (Stencil.fillPieces a pieces t).1 = (Stencil.fillPieces b pieces t').1 ∧
      R (Stencil.fillPieces a pieces t).2 (Stencil.fillPieces b pieces t').2 := by
  induction pieces generalizing t t' with
  | nil => exact ⟨rfl, h⟩
  | cons piece pieces ih =>
    cases piece with
    | plain c =>
      obtain ⟨same, after⟩ := ih h
      exact ⟨congrArg (Part.consTemplate [c]) same, after⟩
    | found source p =>
      obtain ⟨filled, between⟩ := related.fill p h
      obtain ⟨same, after⟩ := ih between
      simp only [Stencil.fillPieces, filled, same]
      cases (p.fill b t').1 with
      | none => exact ⟨rfl, after⟩
      | some s => exact ⟨rfl, after⟩

/-- Filling a skeleton from sources that answer alike gives the same parts. -/
theorem fillValues (related : Sources.Related R a b) (skeleton : Text) {t : τ} {t' : τ'}
    (h : R t t') :
    (Stencil.fillValues a skeleton t).1 = (Stencil.fillValues b skeleton t').1 ∧
      R (Stencil.fillValues a skeleton t).2 (Stencil.fillValues b skeleton t').2 :=
  related.fillPieces _ h

end Sources.Related

end Stencil
