import Stencil.Proofs.Storage.Burst

/-!
# Changes that come to nothing

A template that is created and then removed was never seen, so nothing is told of it.  But what is
left of several changes no longer says whether the template was there before them.  A change of a
template that was there is lost exactly if the template is reported as created although it is there,
and removed after that (`waits_throughout_iff`): before a first removal one creation is too many,
and between two removals the second one is.

What is left of a burst depends on the number of creations since the last removal only, which is
where the induction over the changes gets its invariant from.
-/

namespace Stencil

namespace Change

/-- Whether, after `n` creations, there is a second one before the next removal. -/
def CreatedTwice (n : Nat) (changes : List Change) : Prop :=
  ∃ part, part ++ [removed] <+: changes ∧ removed ∉ part ∧ 2 ≤ n + part.count created

/-- Whether a template is reported as created although it is there, and removed after that.  A
template counts as created once if it is there, which it is taken to be before the first change. -/
def Recreated (changes : List Change) : Prop :=
  CreatedTwice 1 changes ∨ ∃ later, removed :: later <:+ changes ∧ CreatedTwice 0 later

/-- What is left of a removal and some creations after it. -/
def ofCreations : Nat → Change
  | 0 => removed
  | 1 => modified
  | _ + 2 => created

variable {n : Nat} {changes : List Change}

theorem combine_created (n : Nat) :
    (ofCreations n).combine created = some (ofCreations (n + 1)) := by
  rcases n with _ | _ | n <;> rfl

theorem combine_modified (n : Nat) :
    (ofCreations n).combine modified = some (ofCreations n) := by
  rcases n with _ | _ | n <;> rfl

theorem combine_removed (n : Nat) :
    (ofCreations n).combine removed = if 2 ≤ n then none else some (ofCreations 0) := by
  rcases n with _ | _ | n <;> rfl

theorem not_createdTwice_nil : ¬CreatedTwice n [] := by
  rintro ⟨part, start, _⟩
  simp at start

/-- Up to the first removal a change adds to the creations or leaves them as they are. -/
theorem createdTwice_cons {change : Change} (other : change ≠ removed) :
    CreatedTwice n (change :: changes) ↔
      CreatedTwice (n + [change].count created) changes := by
  constructor
  · rintro ⟨part, start, none, twice⟩
    cases part with
    | nil => exact absurd (List.cons_prefix_cons.mp start).1.symm other
    | cons first part =>
      obtain ⟨rfl, rest⟩ := List.cons_prefix_cons.mp start
      refine ⟨part, rest, fun member => none (List.mem_cons_of_mem _ member), ?_⟩
      rw [List.count_cons] at twice ⊢
      simp only [List.count_nil]
      omega
  · rintro ⟨part, start, none, twice⟩
    refine ⟨change :: part, List.cons_prefix_cons.mpr ⟨rfl, start⟩, ?_, ?_⟩
    · simpa [other.symm] using none
    · rw [List.count_cons] at twice ⊢
      simp only [List.count_nil] at twice
      omega

theorem createdTwice_removed : CreatedTwice n (removed :: changes) ↔ 2 ≤ n := by
  constructor
  · rintro ⟨part, start, none, twice⟩
    cases part with
    | nil => simpa using twice
    | cons first part =>
      obtain ⟨rfl, _⟩ := List.cons_prefix_cons.mp start
      exact absurd List.mem_cons_self none
  · exact fun twice => ⟨[], by simp, by simp, by simpa using twice⟩

theorem suffix_cons_iff {change : Change} (other : change ≠ removed) {later : List Change} :
    removed :: later <:+ change :: changes ↔ removed :: later <:+ changes := by
  rw [List.suffix_cons_iff]
  simp [other.symm]

/-- After `n` creations nothing is left of some changes if one creation in them is too many. -/
theorem foldlM_combine_eq_none_iff (n : Nat) (changes : List Change) :
    changes.foldlM combine (ofCreations n) = none ↔
      CreatedTwice n changes ∨ ∃ later, removed :: later <:+ changes ∧ CreatedTwice 0 later := by
  induction changes generalizing n with
  | nil => simp [not_createdTwice_nil]
  | cons change changes ih =>
    rw [List.foldlM_cons]
    cases change with
    | created =>
      rw [combine_created, createdTwice_cons (by decide)]
      simp only [suffix_cons_iff (by decide : created ≠ removed)]
      exact ih (n + 1)
    | modified =>
      rw [combine_modified, createdTwice_cons (by decide)]
      simp only [suffix_cons_iff (by decide : modified ≠ removed)]
      exact ih n
    | removed =>
      rw [combine_removed, createdTwice_removed]
      split <;> rename_i twice
      · simp [twice]
      · have whole (later : List Change) : removed :: later <:+ removed :: changes ↔
            later = changes ∨ removed :: later <:+ changes := by
          simp [List.suffix_cons_iff]
        simp only [whole, or_and_right, exists_or, exists_eq_left, twice, false_or]
        exact ih 0

/-- Nothing is left of changes exactly if a template that is there is created again and removed. -/
theorem net?_eq_none_iff (some : changes ≠ []) : net? changes = none ↔ Recreated changes := by
  obtain ⟨first, rest, rfl⟩ := List.exists_cons_of_ne_nil some
  have whole : net? (first :: rest) = (first :: rest).foldlM combine (ofCreations 1) := rfl
  rw [whole, foldlM_combine_eq_none_iff, Recreated]

end Change

namespace Burst

theorem isLive_nil : IsLive [] := fun some => absurd rfl some

/-- Whatever is left of a burst was left of its first changes. -/
theorem IsLive.of_append {b c : Burst} (live : IsLive (b ++ c)) : b.IsLive := by
  intro some
  obtain ⟨first, rest, rfl⟩ := List.exists_cons_of_ne_nil some
  obtain ⟨change, net⟩ := Option.isSome_iff_exists.mp (live (by simp))
  rw [net?, List.cons_append, List.map_cons, List.map_append, Change.net?,
    List.foldlM_append] at net
  obtain ⟨earlier, left, _⟩ := Option.bind_eq_some_iff.mp net
  exact Option.isSome_iff_exists.mpr ⟨earlier, left⟩

theorem isLive_iff (b : Burst) : b.IsLive ↔ ¬Change.Recreated (b.map Noted.change) := by
  by_cases some : b = []
  · subst some
    have unseen : ¬Change.Recreated [] := by simp [Change.Recreated, Change.not_createdTwice_nil]
    simp [isLive_nil, unseen]
  · rw [← Change.net?_eq_none_iff (by simpa using some), IsLive, Option.isSome_iff_ne_none, net?]
    simp [some]

end Burst

namespace Debouncer

variable {window : Nat} {id : Text} {earlier since : DebouncerHistory}

/-- Whether every drain of a stretch comes less than a window after the last change of a template,
if there is one before it. -/
def IsUnbroken (window : Nat) (id : Text) (since : DebouncerHistory) : Prop :=
  ∀ (part : DebouncerHistory) time, part ++ [.drain time] <+: since →
    (part.noted id).isQuiet window time = false

theorem IsUnbroken.of_prefix {part : DebouncerHistory} (unbroken : IsUnbroken window id since)
    (start : part <+: since) : IsUnbroken window id part :=
  fun first time begins => unbroken first time (begins.trans start)

/-- As long as something is left of them, all changes of an unbroken stretch are in one burst. -/
theorem IsUnbroken.burst_eq (unbroken : IsUnbroken window id since)
    (rests : earlier.burst window id = []) (live : (since.noted id).IsLive) :
    DebouncerHistory.burst window id (earlier ++ since) = since.noted id := by
  induction since using List.reverseRecOn with
  | nil => rw [List.append_nil, rests, DebouncerHistory.noted, List.filterMap_nil]
  | append_singleton since s ih =>
    rw [DebouncerHistory.noted_append] at live ⊢
    rw [← List.append_assoc, DebouncerHistory.burst_append,
      ih (unbroken.of_prefix (List.prefix_append _ _)) live.of_append]
    refine Burst.after_eq fun ends => ?_
    cases s with
    | record time e =>
      rw [Burst.after] at ends
      by_cases same : e.id = id
      · have joins := live (by simp [DebouncerStep.noted?, same])
        simp only [DebouncerStep.noted?, same, if_true, Option.toList] at joins
        simp [same, joins] at ends
      · simpa [same] using ends
    | drain time =>
      have going := unbroken since time List.prefix_rfl
      rw [Burst.after, if_neg (by simp [going])] at ends
      exact ends

/-- If the changes of an unbroken stretch come to nothing, nothing waits at some moment after one of
them. -/
theorem IsUnbroken.exists_part (unbroken : IsUnbroken window id since)
    (rests : earlier.burst window id = []) (dead : ¬(since.noted id).IsLive) :
    ∃ part : DebouncerHistory, part <+: since ∧ part.noted id ≠ [] ∧
      DebouncerHistory.burst window id (earlier ++ part) = [] := by
  induction since using List.reverseRecOn with
  | nil => exact absurd Burst.isLive_nil dead
  | append_singleton since s ih =>
    have shorter := unbroken.of_prefix (List.prefix_append since [s])
    by_cases live : (DebouncerHistory.noted id since).IsLive
    · -- The last step is the change that leaves nothing.
      rw [DebouncerHistory.noted_append] at dead
      have before := shorter.burst_eq rests live
      refine ⟨since ++ [s], List.prefix_rfl, ?_, ?_⟩
      · rw [DebouncerHistory.noted_append]
        exact fun none => dead (none ▸ Burst.isLive_nil)
      · rw [← List.append_assoc, DebouncerHistory.burst_append, before]
        by_contra going
        have joined := Burst.after_eq fun ends => absurd ends going
        have still : (Burst.after window id (DebouncerHistory.noted id since) s).IsLive :=
          live.after s
        rw [joined] at still
        exact dead still
    · obtain ⟨part, start, some, ends⟩ := ih shorter live
      exact ⟨part, start.trans (List.prefix_append _ _), some, ends⟩

/-- Changes of one template that fall into one burst, whatever happens to other templates meanwhile.
From the first of them on a change waits at every moment, exactly if the template is not created
again while it is there and then removed; and if so, the net effect of the changes is handed out
once the last of them is a window old. -/
theorem waits_throughout_iff (rests : (run window earlier).waits id = false)
    (unbroken : IsUnbroken window id since) :
    ((∀ part : DebouncerHistory, part <+: since → part.noted id ≠ [] →
        (run window (earlier ++ part)).waits id = true) ↔
      ¬Change.Recreated ((since.noted id).map Noted.change)) ∧
    (¬Change.Recreated ((since.noted id).map Noted.change) → since.noted id ≠ [] →
      ∀ now, (since.noted id).isQuiet window now = true →
        ∃ change, (since.noted id).net? = some change ∧
          ⟨id, change⟩ ∈ ((run window (earlier ++ since)).drain now).1) := by
  have rests : earlier.burst window id = [] := by
    simpa [rests] using waits_run window earlier id
  rw [← Burst.isLive_iff]
  refine ⟨⟨fun waits => ?_, fun live part start some => ?_⟩, fun live some now quiet => ?_⟩
  · by_contra dead
    obtain ⟨part, start, some, ends⟩ := unbroken.exists_part rests dead
    exact (waits_run window _ id).mp (waits part start some) ends
  · obtain ⟨rest, rfl⟩ := start
    rw [DebouncerHistory.noted, List.filterMap_append] at live
    rw [waits_run, (unbroken.of_prefix (List.prefix_append _ _)).burst_eq rests live.of_append]
    exact some
  · obtain ⟨change, net⟩ := Option.isSome_iff_exists.mp (live some)
    refine ⟨change, net, ?_⟩
    rw [mem_drain_run, unbroken.burst_eq rests live]
    exact ⟨net, quiet⟩

/-- A template that is removed and comes back while another one is created, with a drain between. -/
def comeBack : DebouncerHistory :=
  [.record 0 ⟨"page".toList, .removed⟩, .record 10 ⟨"part".toList, .created⟩, .drain 50,
    .record 60 ⟨"page".toList, .created⟩]

theorem isUnbroken_comeBack : IsUnbroken 100 "page".toList comeBack := by
  rintro (_ | ⟨a, _ | ⟨b, _ | ⟨c, _ | ⟨d, part⟩⟩⟩⟩) time ⟨rest, split⟩ <;>
    simp only [comeBack, List.cons_append, List.nil_append, List.cons.injEq, reduceCtorEq,
      false_and, and_false] at split
  · obtain ⟨rfl, rfl, same, _⟩ := split
    obtain rfl := DebouncerStep.drain.inj same
    decide
  · simp at split

theorem waits_throughout_comeBack :
    (run 100 []).waits "page".toList = false ∧ IsUnbroken 100 "page".toList comeBack ∧
      ¬Change.Recreated ((comeBack.noted "page".toList).map Noted.change) ∧
      ∃ change, (comeBack.noted "page".toList).net? = some change ∧
        ⟨"page".toList, change⟩ ∈ ((run 100 ([] ++ comeBack)).drain 160).1 := by
  have law := @waits_throughout_iff 100 _ [] comeBack rfl isUnbroken_comeBack
  have steady : ¬Change.Recreated ((comeBack.noted "page".toList).map Noted.change) :=
    (Burst.isLive_iff _).mp fun _ => by decide
  exact ⟨rfl, isUnbroken_comeBack, steady, law.2 steady (by decide) 160 (by decide)⟩

/-- A template that is modified, replaced, which is told as a creation, and then removed. -/
def replacedPage : DebouncerHistory :=
  [.record 0 ⟨"page".toList, .modified⟩, .record 10 ⟨"page".toList, .created⟩,
    .record 20 ⟨"page".toList, .removed⟩]

/-- The template was there, and nothing is told of its removal. -/
theorem not_waits_replacedPage :
    (replacedPage.noted "page".toList).map Noted.change = [.modified, .created, .removed] ∧
      (run 100 replacedPage).waits "page".toList = false ∧
      ((run 100 replacedPage).drain 1000).1 = [] := by
  decide

end Debouncer

end Stencil
