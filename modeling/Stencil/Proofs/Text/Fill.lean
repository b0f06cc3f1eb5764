import Stencil.Proofs.Text.Rise

/-!
# Filling stand-ins

A text is filled part by part, as long as no stand-in runs from one part on into the next
(`StandIn.fill_append`).  So a text that rises does so when its stand-ins are filled as well
(`Rises.fill`).
-/

namespace Stencil

/-- Whether no stand-in can begin in one text and end in another that follows it. -/
def Parted (u x : Text) : Prop :=
  (∀ c ∈ u.getLast?, isDigit c = false ∧ c ∉ allStandIns.map StandIn.opening) ∨
    ∀ c ∈ x.head?, isDigit c = false ∧ c ∉ allStandIns.map StandIn.closing

variable {kinds : List StandIn} {parts : Array Text} {s t u x : Text} {c : Char}

theorem Parted.of_head (digit : isDigit c = false)
    (closing : c ∉ allStandIns.map StandIn.closing) : Parted u (c :: x) :=
  .inr fun d first => by
    obtain rfl := Option.some.inj first
    exact ⟨digit, closing⟩

theorem Parted.of_cons (parted : Parted (c :: u) x) : Parted u x := by
  cases u with
  | nil => exact .inl (by simp)
  | cons d u => exact parted

theorem Parted.of_append {v : Text} (parted : Parted (v ++ u) x) : Parted u x := by
  induction v with
  | nil => exact parted
  | cons c v ih => exact ih parted.of_cons

theorem Parted.of_prefix {a : Text} (parted : Parted u (a ++ x)) (some : a ≠ []) : Parted u a := by
  obtain ⟨c, a, rfl⟩ := List.exists_cons_of_ne_nil some
  exact parted

/-- Where a stand-in is cut behind its opening character or one of its digits, what follows does
not go on with it. -/
theorem Parted.ended {kind : StandIn} (parted : Parted (kind.opening :: u) x)
    (known : kind ∈ allStandIns) (digits : ∀ c ∈ u, isDigit c = true) :
    ∀ c ∈ x.head?, isDigit c = false ∧ c ∉ allStandIns.map StandIn.closing := by
  refine parted.resolve_left fun ends => ?_
  rcases List.eq_nil_or_concat' u with rfl | ⟨u, d, rfl⟩
  · exact (ends kind.opening rfl).2 (List.mem_map_of_mem known)
  · have last : (kind.opening :: (u ++ [d])).getLast? = some d := by
      rw [← List.cons_append, List.getLast?_concat]
    have digit := digits d (by simp)
    simp [(ends d last).1] at digit

namespace StandIn

/-- A stand-in is not parted inside. -/
theorem not_parted {kind : StandIn} {i : Nat} {a : Text} (known : kind ∈ allStandIns)
    (split : kind.token i = u ++ a) (left : u ≠ []) (right : a ≠ []) : ¬Parted u a := by
  have digits : ∀ c ∈ Text.ofNat i, isDigit c = true := fun c => Text.isDigit_of_mem_ofNat
  obtain ⟨c, u, rfl⟩ := List.exists_cons_of_ne_nil left
  obtain ⟨rfl, inside⟩ := List.cons.inj (split : kind.opening :: _ = c :: (u ++ a))
  obtain ⟨a, d, rfl⟩ := (List.eq_nil_or_concat' a).resolve_left right
  have inside : Text.ofNat i ++ [kind.closing] = (u ++ a) ++ [d] :=
    inside.trans (List.append_assoc u a [d]).symm
  obtain ⟨run, last⟩ := List.append_inj' inside rfl
  obtain rfl := (List.cons.inj last).1
  intro parted
  have begins := parted.ended known fun c member => digits c (by simp [run, member])
  cases a with
  | nil => exact (begins kind.closing rfl).2 (List.mem_map_of_mem known)
  | cons e a =>
    have digit := digits e (by simp [run])
    simp [(begins e rfl).1] at digit

theorem fill_nil : fill kinds parts [] = [] := rfl

theorem scanFrom_before (before before' : Option Char) (skip : Nat) (s : Text) :
    Text.scanFrom (read kinds) before skip s = Text.scanFrom (read kinds) before' skip s :=
  Text.scanFrom_before (fun _ _ s => by cases s <;> rfl) before before' skip s

theorem scan_of_none (h : read kinds none (c :: s) = none) :
    Text.scan (read kinds) (c :: s) = .plain c :: Text.scan (read kinds) s := by
  rw [Text.scan, Text.scanFrom, h]
  exact congrArg _ (scanFrom_before (some c) none 0 s)

theorem scan_of_some {value : Option Nat} (nonempty : u ≠ [])
    (h : read kinds none (u ++ x) = some (value, x)) :
    Text.scan (read kinds) (u ++ x) = .found u value :: Text.scan (read kinds) x := by
  obtain ⟨before, scanned⟩ := Text.scanFrom_found (read kinds) nonempty h
  rw [Text.scan, scanned, scanFrom_before before none]
  rfl

theorem fill_of_none (h : read kinds none (c :: s) = none) :
    fill kinds parts (c :: s) = c :: fill kinds parts s := by
  rw [fill, Text.substitute, scan_of_none h]
  rfl

theorem fill_of_some {value : Option Nat} {rest : Text}
    (h : read kinds none s = some (value, rest)) :
    fill kinds parts s = (value.bind fun i => parts[i]?).getD [] ++ fill kinds parts rest := by
  obtain ⟨kind, _, digits, _, rfl, _⟩ := read_eq_some h
  have split : kind.opening :: (digits ++ kind.closing :: rest) =
      (kind.opening :: (digits ++ [kind.closing])) ++ rest := by simp
  rw [split] at h ⊢
  rw [fill, Text.substitute, scan_of_some (by simp) h]
  rfl

theorem read_of_unopened (other : c ∉ kinds.map opening) (before : Option Char) (s : Text) :
    read kinds before (c :: s) = none := by
  have none : kinds.find? (fun kind => kind.opening == c) = none := by
    simpa [List.find?_eq_none] using other
  simp [read, none]

/-- A character that begins no stand-in stays. -/
theorem fill_cons (other : c ∉ kinds.map opening) (s : Text) :
    fill kinds parts (c :: s) = c :: fill kinds parts s :=
  fill_of_none (read_of_unopened other none s)

theorem fill_plain (other : ∀ c ∈ s, c ∉ kinds.map opening) : fill kinds parts s = s := by
  induction s with
  | nil => rfl
  | cons c s ih =>
    obtain ⟨here, rest⟩ := List.forall_mem_cons.mp other
    rw [fill_cons here, ih rest]

/-- A stand-in is filled with its part. -/
theorem fill_token {kind : StandIn} {i : Nat} {part : Text}
    (chosen : kinds.find? (fun k => k.opening == kind.opening) = some kind)
    (ends : isDigit kind.closing = false) (fits : i ≤ Text.maxIndex)
    (there : parts[i]? = some part) (rest : Text) :
    fill kinds parts (kind.token i ++ rest) = part ++ fill kinds parts rest := by
  rw [fill_of_some (read_token chosen ends fits none rest)]
  simp [there]

section

variable (known : ∀ kind ∈ kinds, kind ∈ allStandIns)

include known

/-- What is read in a text does not depend on what follows it, if nothing can run on. -/
theorem read_append (parted : Parted u x) (nonempty : u ≠ []) :
    read kinds none (u ++ x) = (read kinds none u).map fun answer => (answer.1, answer.2 ++ x) := by
  obtain ⟨c, u, rfl⟩ := List.exists_cons_of_ne_nil nonempty
  rw [List.cons_append, read, read]
  cases chosen : kinds.find? fun kind => kind.opening == c with
  | none => rfl
  | some kind =>
    obtain rfl : kind.opening = c := by simpa using List.find?_some chosen
    have member := known kind (List.mem_of_find?_eq_some chosen)
    by_cases all : ∀ d ∈ u, isDigit d = true
    · -- The stand-in would run on into the text that follows.
      have ended := parted.ended member all
      have stops : x.takeWhile isDigit = [] ∧ x.dropWhile isDigit = x := by
        cases x with
        | nil => simp
        | cons d x => simp [(ended d rfl).1]
      have unclosed : Text.after? [kind.closing] x = none := by
        cases x with
        | nil => rfl
        | cons d x =>
          have other : kind.closing ≠ d := fun same =>
            (ended d rfl).2 (same ▸ List.mem_map_of_mem member)
          simp [Text.after?, other]
      have whole : u.dropWhile isDigit = [] := List.dropWhile_eq_nil_iff.mpr all
      rw [List.takeWhile_append_of_pos all, List.dropWhile_append_of_pos all, stops.1, stops.2]
      simp [unclosed, whole, Text.after?]
    · -- The first character that is no digit decides.
      have left : u.dropWhile isDigit ≠ [] := fun none =>
        all (List.dropWhile_eq_nil_iff.mp none)
      obtain ⟨d, rest, stopped⟩ := List.exists_cons_of_ne_nil left
      have digits : (u ++ x).takeWhile isDigit = u.takeWhile isDigit := by
        rw [List.takeWhile_append, if_neg]
        intro whole
        have total := congrArg List.length (List.takeWhile_append_dropWhile (p := isDigit) (l := u))
        rw [List.length_append, whole] at total
        exact left (List.eq_nil_of_length_eq_zero (by omega))
      have after : (u ++ x).dropWhile isDigit = u.dropWhile isDigit ++ x := by
        rw [List.dropWhile_append, if_neg (by simpa using left)]
      rw [digits, after, stopped]
      by_cases empty : (u.takeWhile isDigit).isEmpty
      · simp [empty]
      · by_cases closes : kind.closing = d
        · simp [empty, Text.after?, closes]
        · simp [empty, Text.after?, closes]

/-- A text is filled part by part. -/
theorem fill_append (parted : Parted u x) :
    fill kinds parts (u ++ x) = fill kinds parts u ++ fill kinds parts x := by
  induction length : u.length using Nat.strong_induction_on generalizing u with
  | _ n ih =>
    cases u with
    | nil => rfl
    | cons c u =>
      have here := read_append known parted (List.cons_ne_nil c u)
      cases found : read kinds none (c :: u) with
      | none =>
        rw [found] at here
        rw [List.cons_append] at here ⊢
        rw [fill_of_none here, fill_of_none found,
          ih u.length (by simp [← length]) parted.of_cons rfl]
        rfl
      | some answer =>
        rw [found] at here
        obtain ⟨kind, _, digits, _, split, _⟩ := read_eq_some found
        have cut : c :: u = (kind.opening :: (digits ++ [kind.closing])) ++ answer.2 := by
          simp [split]
        have shorter : answer.2.length < n := by
          rw [← length, cut, List.length_append]
          simp
        rw [fill_of_some here, fill_of_some found,
          ih answer.2.length shorter (Parted.of_append (cut ▸ parted)) rfl, List.append_assoc]

theorem not_mem_opening_of_known (other : c ∉ allStandIns.map opening) : c ∉ kinds.map opening := by
  intro member
  obtain ⟨kind, inside, rfl⟩ := List.mem_map.mp member
  exact other (List.mem_map_of_mem (known kind inside))

/-- A character that stand-ins have nothing to do with stays at the end of a text. -/
theorem fill_concat (noDigit : isDigit c = false) (plain : c ∉ standInChars) :
    fill kinds parts (u ++ [c]) = fill kinds parts u ++ [c] := by
  obtain ⟨notOpening, notClosing⟩ : c ∉ allStandIns.map opening ∧ c ∉ allStandIns.map closing := by
    simpa [standInChars] using plain
  have parted : Parted u [c] := .of_head noDigit notClosing
  rw [fill_append known parted, fill_cons (not_mem_opening_of_known known notOpening), fill_nil]

end

/-- Where stand-ins are left for finds, filling them gives the text back, at least up to a find
that is too far on to be numbered. -/
theorem exists_fill_place {α : Type} {kind : StandIn} {marks : List Char} {pieces : List (Piece α)}
    {n : Nat} (ends : isDigit kind.closing = false)
    (clear : ∀ c, .plain c ∈ pieces → c ≠ kind.opening)
    (marked : ∀ source value, .found source value ∈ pieces → ∃ c ∈ source, c ∈ marks)
    (there : ∀ j, parts[n + j]? = (kind.place (fun source _ => source) n pieces).2[j]?) :
    ∃ w r r', fill [kind] parts (kind.place (fun source _ => source) n pieces).1 = w ++ r ∧
      pieces.flatMap Piece.source = w ++ r' ∧
      (r = [] ∧ r' = [] ∨ Text.maxIndex < n + w.countP (· ∈ marks)) := by
  induction pieces generalizing n with
  | nil => exact ⟨[], [], [], rfl, rfl, .inl ⟨rfl, rfl⟩⟩
  | cons piece pieces ih =>
    have later (n : Nat) := ih (n := n) (fun c member => clear c (List.mem_cons_of_mem _ member))
      (fun source value member => marked source value (List.mem_cons_of_mem _ member))
    cases piece with
    | plain c =>
      obtain ⟨w, r, r', filled, whole, far⟩ := later n there
      have other : c ∉ [kind].map opening := by simpa using clear c List.mem_cons_self
      refine ⟨c :: w, r, r', ?_, congrArg (c :: ·) whole, far.imp_right fun far => ?_⟩
      · exact (fill_cons other _).trans (congrArg (c :: ·) filled)
      · exact far.trans_le (Nat.add_le_add_left (List.sublist_cons_self c w).countP_le n)
    | found source value =>
      by_cases fits : n ≤ Text.maxIndex
      · obtain ⟨w, r, r', filled, whole, far⟩ := later (n + 1) fun j => by
          rw [Nat.add_assoc, Nat.add_comm 1 j]
          exact there (j + 1)
        have part : parts[n]? = some source := there 0
        refine ⟨source ++ w, r, r', ?_, ?_, far.imp_right fun far => ?_⟩
        · refine (fill_token (by simp) ends fits part _).trans ?_
          rw [filled, List.append_assoc]
        · exact (congrArg (source ++ ·) whole).trans (List.append_assoc _ _ _).symm
        · obtain ⟨c, inside, known⟩ := marked source value List.mem_cons_self
          have some : 0 < source.countP (· ∈ marks) :=
            List.countP_pos_iff.mpr ⟨c, inside, by simpa using known⟩
          rw [List.countP_append]
          omega
      · exact ⟨[], _, _, rfl, rfl, .inr (by simpa using fits)⟩

end StandIn

theorem eq_of_height_pos (h : 0 < height c) : c = '<' ∨ c = 'p' := by
  unfold height at h
  split at h
  · exact .inl ‹_›
  · split at h
    · exact .inr ‹_›
    · simp at h

/-- A text that rises does so with its stand-ins filled, if that of code at which a paragraph may
begin is filled with an element. -/
theorem Rises.fill (known : ∀ kind ∈ kinds, kind ∈ allStandIns) (h : Rises s t)
    (code : ∀ u x, s = u ++ Code.inline.opening :: x → Code.inline ∈ kinds →
      ∃ e y, StandIn.fill kinds parts (Code.inline.opening :: x) = '<' :: e :: y ∧
        (e = 'c' ∨ e = 'C')) :
    Rises (StandIn.fill kinds parts s) (StandIn.fill kinds parts t) := by
  obtain ⟨u, c, x, d, y, rfl, rfl, higher, free⟩ := h
  have written : ∀ c ∈ ['<', 'p'], isDigit c = false ∧ c ∉ allStandIns.map StandIn.opening ∧
      c ∉ allStandIns.map StandIn.closing := by decide
  have stays {c : Char} (above : 0 < height c) (s : Text) :
      StandIn.fill kinds parts (c :: s) = c :: StandIn.fill kinds parts s :=
    StandIn.fill_cons (StandIn.not_mem_opening_of_known known
      (written c (by simpa using eq_of_height_pos above)).2.1) s
  have above : 0 < height d := Nat.zero_lt_of_lt higher
  obtain ⟨noDigit, _, noClosing⟩ := written d (by simpa using eq_of_height_pos above)
  have cut : Parted u (d :: y) := .of_head noDigit noClosing
  rw [StandIn.fill_append known cut, stays above]
  rcases free with ⟨plain, line⟩ | ⟨rfl, rfl, e, first, risen⟩
  · obtain ⟨notOpening, notClosing⟩ : c ∉ allStandIns.map StandIn.opening ∧
        c ∉ allStandIns.map StandIn.closing := by simpa [standInChars] using plain
    have parted : Parted u (c :: x) := by
      by_cases digit : isDigit c = true
      · refine .inl fun e last => ?_
        obtain ⟨noDigit, other⟩ := line digit e last
        exact ⟨noDigit, fun opening => other (List.mem_append_left _ opening)⟩
      · exact .of_head (by simpa using digit) notClosing
    rw [StandIn.fill_append known parted,
      StandIn.fill_cons (StandIn.not_mem_opening_of_known known notOpening)]
    refine ⟨_, c, _, d, _, rfl, rfl, higher, .inl ⟨plain, fun digit e last => ?_⟩⟩
    rcases List.eq_nil_or_concat' u with rfl | ⟨u, f, rfl⟩
    · simp [StandIn.fill_nil] at last
    · obtain ⟨noDigit, other⟩ := line digit f (by simp)
      rw [StandIn.fill_concat known noDigit other] at last
      obtain rfl : f = e := by simpa using last
      exact ⟨noDigit, other⟩
  · obtain ⟨y, rfl⟩ : ∃ y', y = e :: y' := by
      cases y with
      | nil => simp at first
      | cons f y => exact ⟨y, by simpa using first⟩
    have cut : Parted u (Code.inline.opening :: x) := .of_head (by decide) (by decide)
    rw [StandIn.fill_append known cut, stays risen]
    by_cases inline : Code.inline ∈ kinds
    · -- The text goes on with the name of the element, the other with what stands above it.
      obtain ⟨f, z, filled, name⟩ := code u x rfl inline
      have low : height f < height e := by rcases name with rfl | rfl <;> exact risen
      refine ⟨StandIn.fill kinds parts u ++ ['<'], f, z, e, StandIn.fill kinds parts y,
        by simp [filled], by simp, low, .inl ?_⟩
      rcases name with rfl | rfl <;> exact ⟨by decide, fun digit => absurd digit (by decide)⟩
    · have stays : Code.inline.opening ∉ kinds.map StandIn.opening := fun member => by
        obtain ⟨kind, inside, same⟩ := List.mem_map.mp member
        have one : ∀ kind ∈ allStandIns, kind.opening = Code.inline.opening →
            kind = Code.inline := by decide
        exact inline (one kind (known kind inside) same ▸ inside)
      rw [StandIn.fill_cons stays]
      exact ⟨_, _, _, _, _, rfl, rfl, higher, .inr ⟨rfl, rfl, e, rfl, risen⟩⟩

end Stencil
