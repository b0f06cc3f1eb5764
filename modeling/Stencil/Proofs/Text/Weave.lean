import Mathlib.Data.List.Forall2
import Stencil.Render.Reinsert

/-!
# Texts around finds

Scanned pieces are seen as the texts around the finds and, in between, what the finds turn into:
`weave` puts the two back together.  Woven with what the finds took up, the texts around them are
the scanned text (`weave_scan`); woven with what is written in their place, they are the result of a
stage that replaces its finds over a state (`ofPiecesWith_eq_weave`).
-/

namespace Stencil.Text

variable {α τ : Type}

/-- Texts with others between them, in turn.  There is one more around than there are between. -/
def weave : (around between : List Text) → Text
  | [], _ => []
  | s :: _, [] => s
  | s :: around, v :: between => s ++ v ++ weave around between

def around (pieces : List (Piece α)) : List Text :=
  (parts pieces).1 :: (parts pieces).2.map Prod.snd

def foundSources (pieces : List (Piece α)) : List Text := (parts pieces).2.map (·.1.1)

def foundValues (pieces : List (Piece α)) : List α := (parts pieces).2.map (·.1.2)

theorem mem_of_mem_parts {pieces : List (Piece α)} {part : (Text × α) × Text}
    (member : part ∈ (parts pieces).2) : .found part.1.1 part.1.2 ∈ pieces := by
  induction pieces with
  | nil => simp [parts] at member
  | cons piece pieces ih =>
    cases piece with
    | plain c => exact List.mem_cons_of_mem _ (ih member)
    | found source value =>
      rcases List.mem_cons.mp member with rfl | later
      · exact List.mem_cons_self
      · exact List.mem_cons_of_mem _ (ih later)

/-- What holds of every find with its value holds along the finds and the values. -/
theorem forall₂_found {pieces : List (Piece α)} {p : Text → α → Prop}
    (each : ∀ source value, .found source value ∈ pieces → p source value) :
    List.Forall₂ p (foundSources pieces) (foundValues pieces) := by
  rw [foundSources, foundValues, List.forall₂_map_left_iff, List.forall₂_map_right_iff,
    List.forall₂_same]
  exact fun part there => each _ _ (mem_of_mem_parts there)

@[simp] theorem around_nil : around ([] : List (Piece α)) = [[]] := rfl

@[simp] theorem around_found (source : Text) (value : α) (pieces : List (Piece α)) :
    around (.found source value :: pieces) = [] :: around pieces := rfl

@[simp] theorem foundSources_nil : foundSources ([] : List (Piece α)) = [] := rfl

@[simp] theorem foundSources_plain (c : Char) (pieces : List (Piece α)) :
    foundSources (.plain c :: pieces) = foundSources pieces := rfl

theorem foundSources_map_plain (s : Text) :
    foundSources (s.map fun c => (.plain c : Piece α)) = [] := by
  induction s with
  | nil => rfl
  | cons c s ih => exact ih

@[simp] theorem foundSources_found (source : Text) (value : α) (pieces : List (Piece α)) :
    foundSources (.found source value :: pieces) = source :: foundSources pieces := rfl

@[simp] theorem foundValues_nil : foundValues ([] : List (Piece α)) = [] := rfl

@[simp] theorem foundValues_plain (c : Char) (pieces : List (Piece α)) :
    foundValues (.plain c :: pieces) = foundValues pieces := rfl

@[simp] theorem foundValues_found (source : Text) (value : α) (pieces : List (Piece α)) :
    foundValues (.found source value :: pieces) = value :: foundValues pieces := rfl

@[simp] theorem length_around (pieces : List (Piece α)) :
    (around pieces).length = (foundValues pieces).length + 1 := by
  simp [around, foundValues]

theorem length_foundSources (pieces : List (Piece α)) :
    (foundSources pieces).length = (foundValues pieces).length := by
  simp [foundSources, foundValues]

theorem finds_eq_foundValues (read : Reader α) (s : Text) :
    finds read s = foundValues (scan read s) := by
  unfold finds
  generalize scan read s = pieces
  induction pieces with
  | nil => rfl
  | cons piece pieces ih => cases piece <;> simp [ih]

theorem append_weave (s t : Text) (ss between : List Text) :
    s ++ weave (t :: ss) between = weave ((s ++ t) :: ss) between := by
  cases between <;> simp [weave]

@[simp] theorem weave_around_plain (c : Char) (pieces : List (Piece α)) (between : List Text) :
    weave (around (.plain c :: pieces)) between = c :: weave (around pieces) between := by
  cases between <;> rfl

@[simp] theorem weave_nil_cons (ss : List Text) (v : Text) (between : List Text) :
    weave ([] :: ss) (v :: between) = v ++ weave ss between :=
  rfl

theorem weave_foundSources (pieces : List (Piece α)) :
    weave (around pieces) (foundSources pieces) = pieces.flatMap Piece.source := by
  induction pieces with
  | nil => rfl
  | cons piece pieces ih =>
    cases piece with
    | plain c => simp [Piece.source, ih]
    | found source value => simp [Piece.source, ih]

/-- A text is the weave of what was found in it into the texts around. -/
theorem weave_scan (read : Reader α) (s : Text) :
    weave (around (scan read s)) (foundSources (scan read s)) = s := by
  rw [weave_foundSources, sources_scan]

/-- What some values are replaced with from left to right over a state, and the state at the end. -/
def writeAll (write : α → τ → Text × τ) : List α → τ → List Text × τ
  | [], t => ([], t)
  | value :: values, t =>
    let (s, t) := write value t
    let (texts, t) := writeAll write values t
    (s :: texts, t)

@[simp] theorem length_writeAll (write : α → τ → Text × τ) (values : List α) (t : τ) :
    (writeAll write values t).1.length = values.length := by
  induction values generalizing t with
  | nil => rfl
  | cons value values ih => simp [writeAll, ih]

theorem writeAll_append (write : α → τ → Text × τ) (values more : List α) (t : τ) :
    writeAll write (values ++ more) t =
      ((writeAll write values t).1 ++ (writeAll write more (writeAll write values t).2).1,
        (writeAll write more (writeAll write values t).2).2) := by
  induction values generalizing t with
  | nil => rfl
  | cons value values ih => simp [writeAll, ih]

/-- Replacing finds over a state weaves what replaces them into the texts around them. -/
theorem ofPiecesWith_eq_weave (write : α → τ → Text × τ) (pieces : List (Piece α)) (t : τ) :
    ofPiecesWith write pieces t =
      (weave (around pieces) (writeAll write (foundValues pieces) t).1,
        (writeAll write (foundValues pieces) t).2) := by
  induction pieces generalizing t with
  | nil => rfl
  | cons piece pieces ih =>
    cases piece with
    | plain c => simp [ofPiecesWith, ih]
    | found source value => simp [ofPiecesWith, writeAll, ih]

/-- Where nothing is found, nothing is replaced. -/
theorem ofPiecesWith_scan_of_foundValues {read : Reader α} {s : Text}
    (h : foundValues (scan read s) = []) (write : α → τ → Text × τ) (t : τ) :
    ofPiecesWith write (scan read s) t = (s, t) := by
  have sources : foundSources (scan read s) = [] := by
    apply List.eq_nil_of_length_eq_zero
    rw [length_foundSources, h, List.length_nil]
  have all := weave_scan read s
  rw [sources] at all
  rw [ofPiecesWith_eq_weave, h]
  simp [writeAll, all]

end Stencil.Text
