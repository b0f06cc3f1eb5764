import Mathlib.Data.List.Induction
import Mathlib.Data.List.Sort
import Stencil.Proofs.Keyed
import Stencil.Storage.Event

/-!
# What a debouncer hands out

A debouncer hands out exactly the templates that wait and have been quiet for the length of the
window, each once, in the order of their ids, and with the net effect of its changes since it was
last handed out or they last came to nothing (`drain_run`).

Those changes are the burst of the template.  It is told from the changes of the template and from
the drains, so no other template has a say in it.  The invariant is that what waits under an id is
the net effect of its burst; every step changes the one as it changes the other.
-/

namespace Stencil

/-- Something that is done with a debouncer at a moment. -/
inductive DebouncerStep where
  | record (time : Nat) (event : Event)
  | drain (time : Nat)
  deriving DecidableEq

abbrev DebouncerHistory := List DebouncerStep

structure Noted where
  time : Nat
  change : Change
  deriving DecidableEq

abbrev Burst := List Noted

/-- The net effect of changes: each is combined with what is left of those before it.  There is none
without a change, or once nothing is left. -/
def Change.net? : List Change → Option Change
  | [] => none
  | change :: changes => changes.foldlM Change.combine change

def Burst.net? (b : Burst) : Option Change := Change.net? (b.map Noted.change)

namespace DebouncerStep

def concerns (id : Text) : DebouncerStep → Bool
  | .record _ e => e.id = id
  | .drain _ => true

/-- What a step notes of a template. -/
def noted? (id : Text) : DebouncerStep → Option Noted
  | .record time e => if e.id = id then some ⟨time, e.change⟩ else none
  | .drain _ => none

end DebouncerStep

def DebouncerHistory.noted (id : Text) (h : DebouncerHistory) : Burst :=
  h.filterMap (DebouncerStep.noted? id)

namespace Debouncer

def step (d : Debouncer) : DebouncerStep → Debouncer
  | .record time e => d.record time e
  | .drain time => (d.drain time).2

def run (window : Nat) (h : DebouncerHistory) : Debouncer := h.foldl step { window := window }

def waits (d : Debouncer) (id : Text) : Bool := Keyed.contains d.pending id

/-- Whether a step settles what waits for a template: it is handed out, or a change leaves nothing
of it. -/
def Settles (d : Debouncer) (id : Text) : DebouncerStep → Prop
  | .record _ e =>
    e.id = id ∧ ∃ p, Keyed.get? d.pending id = some p ∧ p.change.combine e.change = none
  | .drain time => ∃ change, ⟨id, change⟩ ∈ (d.drain time).1

/-- Whether a stretch at the end of a history is all that happened since a template was last
settled. -/
def IsUnsettled (window : Nat) (id : Text) (h since : DebouncerHistory) : Prop :=
  ∃ before, h = before ++ since ∧
    (before = [] ∨ ∃ earlier s, before = earlier ++ [s] ∧ (run window earlier).Settles id s) ∧
    ∀ part s, part ++ [s] <+: since → ¬(run window (before ++ part)).Settles id s

end Debouncer

namespace Burst

/-- Whether the last change of a burst is at least a window old. -/
def isQuiet (window now : Nat) (b : Burst) : Bool :=
  b.getLast?.any fun last => last.time + window ≤ now

/-- The burst of a template after one more step.  A change of the template joins the burst, but if
nothing is left of the changes the burst is over.  A drain ends the burst if it is quiet. -/
def after (window : Nat) (id : Text) (b : Burst) : DebouncerStep → Burst
  | .record time e =>
    if e.id = id then
      let joined := b ++ [⟨time, e.change⟩]
      if joined.net?.isSome then joined else []
    else b
  | .drain time => if b.isQuiet window time then [] else b

def pending? (window : Nat) (b : Burst) : Option Pending :=
  b.net?.bind fun change => b.getLast?.map fun last => ⟨change, last.time + window⟩

end Burst

/-- The burst of a template at the end of a history. -/
def DebouncerHistory.burst (window : Nat) (id : Text) (h : DebouncerHistory) : Burst :=
  h.foldl (Burst.after window id) []

namespace Text

theorem le_cons_iff {a b : Char} {s t : Text} :
    le (a :: s) (b :: t) = true ↔ a < b ∨ a = b ∧ le s t = true := by
  simp [le]

theorem le_total (s t : Text) : le s t = true ∨ le t s = true := by
  induction s generalizing t with
  | nil => exact .inl rfl
  | cons a s ih =>
    cases t with
    | nil => exact .inr rfl
    | cons b t =>
      rw [le_cons_iff, le_cons_iff]
      have rest := ih t
      grind

theorem le_trans {r s t : Text} (first : le r s = true) (second : le s t = true) :
    le r t = true := by
  induction r generalizing s t with
  | nil => rfl
  | cons a r ih =>
    cases s with
    | nil => simp [le] at first
    | cons b s =>
      cases t with
      | nil => simp [le] at second
      | cons c t =>
        rw [le_cons_iff] at first second ⊢
        grind

/-- Of two different texts in order, the first difference has the smaller character first. -/
theorem lex_of_le {s t : Text} (h : le s t = true) (other : s ≠ t) : List.Lex (· < ·) s t := by
  induction s generalizing t with
  | nil =>
    cases t with
    | nil => exact absurd rfl other
    | cons b t => exact .nil
  | cons a s ih =>
    cases t with
    | nil => simp [le] at h
    | cons b t =>
      rcases le_cons_iff.mp h with less | ⟨rfl, rest⟩
      · exact .rel less
      · exact .cons (ih rest fun same => other (same ▸ rfl))

end Text

variable {window now time : Nat} {id : Text}

namespace Change

theorem net?_concat (changes : List Change) (change : Change) :
    net? (changes ++ [change]) =
      if changes = [] then some change else (net? changes).bind (·.combine change) := by
  cases changes with
  | nil => rfl
  | cons first rest => simp [net?, List.foldlM_append]

end Change

namespace Burst

variable {b : Burst}

theorem net?_concat (b : Burst) (n : Noted) :
    net? (b ++ [n]) = if b = [] then some n.change else b.net?.bind (·.combine n.change) := by
  simp [net?, Change.net?_concat]

theorem pending?_concat (window : Nat) (b : Burst) (n : Noted) :
    pending? window (b ++ [n]) = (net? (b ++ [n])).map fun change => ⟨change, n.time + window⟩ := by
  simp [pending?, Option.map_eq_bind]

/-- Whether something is left of the changes of a burst, if there are any. -/
def IsLive (b : Burst) : Prop := b ≠ [] → b.net?.isSome

/-- Something is left of a burst after every step, or the burst is over. -/
theorem IsLive.after (live : b.IsLive) (s : DebouncerStep) : (b.after window id s).IsLive := by
  cases s with
  | record time e =>
    rw [Burst.after]
    split
    · dsimp only
      split <;> rename_i left
      · exact fun _ => left
      · exact fun some => absurd rfl some
    · exact live
  | drain time =>
    rw [Burst.after]
    split
    · exact fun some => absurd rfl some
    · exact live

/-- A live burst that is not empty: its net effect and its last change say what waits. -/
theorem IsLive.exists_pending? (live : b.IsLive) (window : Nat) (some : b ≠ []) :
    ∃ change last, b.net? = Option.some change ∧ b.getLast? = Option.some last ∧
      b.pending? window = Option.some ⟨change, last.time + window⟩ := by
  obtain ⟨change, net⟩ := Option.isSome_iff_exists.mp (live some)
  have last := List.getLast?_eq_some_getLast some
  exact ⟨change, _, net, last, by simp [pending?, net, last]⟩

theorem IsLive.pending?_eq_none_iff (live : b.IsLive) : b.pending? window = none ↔ b = [] := by
  constructor
  · intro nothing
    by_contra some
    obtain ⟨change, last, _, _, waits⟩ := live.exists_pending? window some
    simp [nothing] at waits
  · rintro rfl
    rfl

/-- A drain leaves what waits for a burst that is not quiet. -/
theorem IsLive.pending?_after_drain (live : b.IsLive) (window now : Nat) :
    (b.after window id (.drain now)).pending? window =
      (b.pending? window).filter fun p => !Debouncer.isDue now p := by
  by_cases some : b = []
  · subst some
    rfl
  · obtain ⟨change, last, net, ends, waits⟩ := live.exists_pending? window some
    rw [Burst.after, isQuiet, ends, waits]
    by_cases due : last.time + window ≤ now
    · simp [Debouncer.isDue, due, Option.filter, pending?]
    · simp [Debouncer.isDue, due, Option.filter, waits]

/-- What waits for a burst is due when the burst is quiet. -/
theorem IsLive.due_iff (live : b.IsLive) {change : Change} :
    (∃ p, b.pending? window = some p ∧ p.change = change ∧ Debouncer.isDue now p = true) ↔
      b.net? = some change ∧ b.isQuiet window now = true := by
  by_cases some : b = []
  · subst some
    simp [pending?, net?, Change.net?]
  · obtain ⟨own, last, net, ends, waits⟩ := live.exists_pending? window some
    simp [Debouncer.isDue, isQuiet, net, ends, waits]

end Burst

namespace Debouncer

variable {d : Debouncer} {h since : DebouncerHistory}

/-- What is left of what waits for a template after a change. -/
def merged (waiting : Option Pending) (change : Change) : Option Change :=
  match waiting with
  | none => some change
  | some p => p.change.combine change

/-- A change is merged into what waits for a burst as it joins the burst. -/
theorem merged_pending? {b : Burst} (live : b.IsLive) (time : Nat) (change : Change) :
    merged (b.pending? window) change = Burst.net? (b ++ [⟨time, change⟩]) := by
  rw [Burst.net?_concat]
  by_cases some : b = []
  · subst some
    rfl
  · obtain ⟨own, last, net, _, waits⟩ := live.exists_pending? window some
    simp [merged, some, net, waits]

theorem record_of_some {e : Event} {change : Change}
    (left : merged (Keyed.get? d.pending e.id) e.change = some change) (time : Nat) :
    d.record time e =
      { d with pending := Keyed.insert d.pending e.id ⟨change, time + d.window⟩ } := by
  unfold merged at left
  unfold record
  grind

theorem record_of_none {e : Event}
    (left : merged (Keyed.get? d.pending e.id) e.change = none) (time : Nat) :
    d.record time e = { d with pending := Keyed.erase d.pending e.id } := by
  unfold merged at left
  unfold record
  grind

/-- Noting a change concerns the template of the change alone, and starts its window anew. -/
theorem get?_record (d : Debouncer) (time : Nat) (e : Event) (id : Text) :
    Keyed.get? (d.record time e).pending id =
      if id = e.id then
        (merged (Keyed.get? d.pending e.id) e.change).map fun change => ⟨change, time + d.window⟩
      else Keyed.get? d.pending id := by
  cases left : merged (Keyed.get? d.pending e.id) e.change with
  | some change =>
    rw [record_of_some left]
    exact Keyed.get?_insert d.pending e.id id _
  | none =>
    rw [record_of_none left]
    exact Keyed.get?_erase d.pending e.id id

/-- A step changes what waits only, and puts nothing twice under a key. -/
theorem step_frame (d : Debouncer) (s : DebouncerStep) :
    ∃ pending, d.step s = { d with pending := pending } ∧
      (d.pending.Distinct → Keyed.Distinct pending) := by
  cases s with
  | record time e =>
    cases left : merged (Keyed.get? d.pending e.id) e.change with
    | some change => exact ⟨_, record_of_some left time, fun distinct => distinct.insert _ _⟩
    | none => exact ⟨_, record_of_none left time, fun distinct => distinct.filter _⟩
  | drain time => exact ⟨_, rfl, fun distinct => distinct.filter _⟩

def byId (e f : Event) : Prop := Text.le e.id f.id = true

instance : DecidableRel byId := fun e f => inferInstanceAs (Decidable (Text.le e.id f.id = true))

instance : Std.Total byId := ⟨fun e f => Text.le_total e.id f.id⟩

instance : IsTrans Event byId := ⟨fun _ _ _ => Text.le_trans⟩

/-- What is handed out is what is due, sorted. -/
theorem drain_fst (d : Debouncer) (time : Nat) :
    (d.drain time).1 =
      ((Keyed.keep d.pending (isDue time)).map fun entry => ⟨entry.1, entry.2.change⟩).insertionSort
        byId := by
  have insert (e : Event) (events : List Event) :
      insertById e events = events.orderedInsert byId e := by
    induction events with
    | nil => rfl
    | cons f events ih =>
      rw [insertById, List.orderedInsert, ih]
      rfl
  rw [drain, List.insertionSort, List.foldr_map]
  simp only [insert]

/-- What is handed out is what waits and is due. -/
theorem mem_drain (distinct : d.pending.Distinct) (time : Nat) (change : Change) :
    ⟨id, change⟩ ∈ (d.drain time).1 ↔
      ∃ p, Keyed.get? d.pending id = some p ∧ p.change = change ∧ isDue time p = true := by
  rw [drain_fst, List.mem_insertionSort, List.mem_map]
  constructor
  · rintro ⟨⟨key, p⟩, member, same⟩
    obtain ⟨rfl, rfl⟩ := Event.mk.inj same
    obtain ⟨member, due⟩ := Keyed.mem_keep.mp member
    exact ⟨p, distinct.get?_eq_some_iff.mpr member, rfl, due⟩
  · rintro ⟨p, found, rfl, due⟩
    exact ⟨(id, p), Keyed.mem_keep.mpr ⟨Keyed.mem_of_get? found, due⟩, rfl⟩

/-- No id is handed out twice at once. -/
theorem nodup_drain (distinct : d.pending.Distinct) (time : Nat) :
    ((d.drain time).1.map Event.id).Nodup := by
  rw [drain_fst, ((List.perm_insertionSort byId _).map Event.id).nodup_iff, List.map_map]
  exact distinct.filter _

theorem sorted_drain (distinct : d.pending.Distinct) (time : Nat) :
    (d.drain time).1.Pairwise fun e f => List.Lex (· < ·) e.id f.id := by
  have ordered : (d.drain time).1.Pairwise byId := by
    rw [drain_fst]
    exact List.pairwise_insertionSort byId _
  have once := List.pairwise_map.mp (nodup_drain distinct time)
  exact (ordered.and once).imp fun h => Text.lex_of_le h.1 h.2

/-- The rules that tie a debouncer to what was done with it. -/
structure Follows (width : Nat) (h : DebouncerHistory) (d : Debouncer) : Prop where
  window : d.window = width
  distinct : d.pending.Distinct
  live : ∀ id, (h.burst width id).IsLive
  waiting : ∀ id, Keyed.get? d.pending id = (h.burst width id).pending? width

end Debouncer

theorem DebouncerHistory.noted_append (id : Text) (h : DebouncerHistory) (s : DebouncerStep) :
    DebouncerHistory.noted id (h ++ [s]) = h.noted id ++ (s.noted? id).toList := by
  cases found : s.noted? id <;> simp [noted, found]

theorem DebouncerHistory.burst_append (window : Nat) (id : Text) (h : DebouncerHistory)
    (s : DebouncerStep) :
    DebouncerHistory.burst window id (h ++ [s]) = (h.burst window id).after window id s := by
  simp [burst]

namespace Debouncer

theorem follows_new (window : Nat) : Follows window [] { window := window } where
  window := rfl
  distinct := List.nodup_nil
  live := fun _ some => absurd rfl some
  waiting := fun _ => rfl

/-- One more step changes what waits as it changes the bursts. -/
theorem Follows.step (follows : Follows window h d) (s : DebouncerStep) :
    Follows window (h ++ [s]) (d.step s) where
  window := by
    obtain ⟨pending, after, _⟩ := d.step_frame s
    rw [after, follows.window]
  distinct := by
    obtain ⟨pending, after, distinct⟩ := d.step_frame s
    rw [after]
    exact distinct follows.distinct
  live := fun id => by
    rw [DebouncerHistory.burst_append]
    exact (follows.live id).after s
  waiting := by
    intro id
    rw [DebouncerHistory.burst_append]
    have before := follows.waiting id
    have live := follows.live id
    cases s with
    | record time e =>
      change Keyed.get? (d.record time e).pending id = _
      rw [get?_record, Burst.after]
      by_cases same : id = e.id
      · subst same
        rw [if_pos rfl, if_pos rfl, before, follows.window, merged_pending? live time]
        dsimp only
        split <;> rename_i left
        · rw [Burst.pending?_concat]
        · rw [Option.not_isSome_iff_eq_none.mp left]
          rfl
      · rw [if_neg same, if_neg (Ne.symm same), before]
    | drain time =>
      change Keyed.get? (d.drain time).2.pending id = _
      rw [live.pending?_after_drain, ← before]
      exact Keyed.get?_keep follows.distinct (fun p => !isDue time p) id

theorem run_append (window : Nat) (h : DebouncerHistory) (s : DebouncerStep) :
    run window (h ++ [s]) = (run window h).step s := by
  simp [run]

theorem follows_run (window : Nat) (h : DebouncerHistory) : Follows window h (run window h) := by
  induction h using List.reverseRecOn with
  | nil => exact follows_new window
  | append_singleton h s ih =>
    rw [run_append]
    exact ih.step s

/-- What waits under an id after a history. -/
theorem get?_run (window : Nat) (h : DebouncerHistory) (id : Text) :
    Keyed.get? (run window h).pending id = (h.burst window id).pending? window :=
  (follows_run window h).waiting id

theorem waits_run (window : Nat) (h : DebouncerHistory) (id : Text) :
    (run window h).waits id = true ↔ h.burst window id ≠ [] := by
  rw [waits, Keyed.contains, get?_run, Option.isSome_iff_ne_none, ne_eq,
    ((follows_run window h).live id).pending?_eq_none_iff]

theorem mem_drain_run (window : Nat) (h : DebouncerHistory) (now : Nat) (id : Text)
    (change : Change) :
    ⟨id, change⟩ ∈ ((run window h).drain now).1 ↔
      (h.burst window id).net? = some change ∧ (h.burst window id).isQuiet window now = true := by
  have follows := follows_run window h
  rw [mem_drain follows.distinct, follows.waiting, (follows.live id).due_iff]

/-- A step settles a template if it ends a burst. -/
theorem settles_run_iff (window : Nat) (h : DebouncerHistory) (id : Text) (s : DebouncerStep) :
    (run window h).Settles id s ↔
      h.burst window id ≠ [] ∧ DebouncerHistory.burst window id (h ++ [s]) = [] := by
  have live := (follows_run window h).live id
  rw [DebouncerHistory.burst_append]
  cases s with
  | record time e =>
    rw [Settles, get?_run, Burst.after]
    by_cases some : h.burst window id = []
    · simp [some, Burst.pending?]
    · obtain ⟨change, last, net, _, waits⟩ := live.exists_pending? window some
      by_cases same : e.id = id
      · cases left : change.combine e.change <;>
          simp [same, some, waits, Burst.net?_concat, net, left]
      · simp [same, some]
  | drain time =>
    simp only [Settles, mem_drain_run, Burst.after]
    by_cases some : h.burst window id = []
    · simp [some, Burst.net?, Change.net?]
    · obtain ⟨change, net⟩ := Option.isSome_iff_exists.mp (live some)
      simp [some, net]

end Debouncer

namespace Burst

/-- A step that does not end a burst adds to it what it notes. -/
theorem after_eq {b : Burst} {s : DebouncerStep} (unended : b.after window id s = [] → b = []) :
    b.after window id s = b ++ (s.noted? id).toList := by
  cases s with
  | record time e =>
    rw [after] at unended ⊢
    by_cases same : e.id = id
    · rw [if_pos same] at unended ⊢
      dsimp only at unended ⊢
      have joins : (net? (b ++ [⟨time, e.change⟩])).isSome = true := by
        by_contra none
        rw [if_neg none] at unended
        simp [unended rfl, net?, Change.net?] at none
      rw [if_pos joins]
      simp [DebouncerStep.noted?, same]
    · simp [DebouncerStep.noted?, same]
  | drain time =>
    rw [after] at unended ⊢
    split <;> rename_i quiet
    · rw [if_pos quiet] at unended
      simp [unended rfl, DebouncerStep.noted?]
    · simp [DebouncerStep.noted?]

/-- A step that does not concern a template leaves its burst. -/
theorem after_of_not_concerns {b : Burst} {s : DebouncerStep} (other : ¬s.concerns id = true) :
    b.after window id s = b := by
  cases s with
  | record time e =>
    have differs : ¬e.id = id := by simpa [DebouncerStep.concerns] using other
    rw [after, if_neg differs]
  | drain time => simp [DebouncerStep.concerns] at other

end Burst

/-- The burst of a template depends on the steps that concern it only. -/
theorem DebouncerHistory.burst_filter (window : Nat) (id : Text) (h : DebouncerHistory) :
    burst window id (h.filter (DebouncerStep.concerns id)) = h.burst window id := by
  unfold burst
  rw [List.foldl_filter]
  congr 1
  funext b s
  split <;> rename_i concerned
  · rfl
  · exact (Burst.after_of_not_concerns concerned).symm

namespace Debouncer

/-- What was noted since a template was last settled is its burst. -/
theorem IsUnsettled.burst_eq (unsettled : IsUnsettled window id h since) :
    h.burst window id = since.noted id := by
  obtain ⟨before, rfl, begins, still⟩ := unsettled
  have rests : DebouncerHistory.burst window id before = [] := by
    rcases begins with rfl | ⟨earlier, s, rfl, settles⟩
    · rfl
    · exact ((settles_run_iff window earlier id s).mp settles).2
  induction since using List.reverseRecOn with
  | nil => rw [List.append_nil, rests, DebouncerHistory.noted, List.filterMap_nil]
  | append_singleton since s ih =>
    have earlier := ih fun part u start => still part u (start.trans (List.prefix_append _ _))
    have unended := (settles_run_iff window (before ++ since) id s).not.mp
      (still since s List.prefix_rfl)
    rw [← List.append_assoc]
    rw [DebouncerHistory.burst_append] at unended ⊢
    rw [Burst.after_eq fun ends => not_not.mp fun some => unended ⟨some, ends⟩, earlier]
    exact (DebouncerHistory.noted_append id since s).symm

/-- There is a last moment at which a template was settled, or none at all. -/
theorem exists_isUnsettled (window : Nat) (id : Text) (h : DebouncerHistory) :
    ∃ since, IsUnsettled window id h since := by
  induction h using List.reverseRecOn with
  | nil => exact ⟨[], [], rfl, .inl rfl, by simp⟩
  | append_singleton h s ih =>
    by_cases settles : (run window h).Settles id s
    · exact ⟨[], h ++ [s], by simp, .inr ⟨h, s, rfl, settles⟩, by simp⟩
    · obtain ⟨since, before, rfl, begins, still⟩ := ih
      refine ⟨since ++ [s], before, by simp, begins, fun part u start => ?_⟩
      rcases List.prefix_concat_iff.mp start with whole | earlier
      · obtain ⟨rfl, same⟩ := List.append_inj' whole rfl
        obtain rfl := List.singleton_inj.mp same
        exact settles
      · exact still part u earlier

/-- What a debouncer hands out after a history.  The events are in the order of their ids, and no id
occurs twice.  A template is among them if a change of it waits and the last one is at least a
window old; its event tells the net effect of the changes since it was last settled, and then it
waits no more.  Steps that do not concern a template make no difference to what is told of it. -/
theorem drain_run (window : Nat) (h : DebouncerHistory) (now : Nat) :
    ((run window h).drain now).1.Pairwise (fun e f => List.Lex (· < ·) e.id f.id) ∧
    (∀ id, (∃ since, IsUnsettled window id h since) ∧
      ∀ since, IsUnsettled window id h since →
        ((run window h).waits id = true ↔ since.noted id ≠ []) ∧
        ((∃ change, ⟨id, change⟩ ∈ ((run window h).drain now).1) ↔
          (run window h).waits id = true ∧ (since.noted id).isQuiet window now = true) ∧
        ∀ change, ⟨id, change⟩ ∈ ((run window h).drain now).1 →
          (since.noted id).net? = some change) ∧
    (∀ e ∈ ((run window h).drain now).1, ((run window h).drain now).2.waits e.id = false) ∧
    ∀ id (h' : DebouncerHistory),
      h'.filter (DebouncerStep.concerns id) = h.filter (DebouncerStep.concerns id) →
      ∀ change, ⟨id, change⟩ ∈ ((run window h').drain now).1 ↔
        ⟨id, change⟩ ∈ ((run window h).drain now).1 := by
  have follows := follows_run window h
  refine ⟨sorted_drain follows.distinct now, fun id => ⟨exists_isUnsettled window id h, ?_⟩, ?_, ?_⟩
  · intro since unsettled
    have live := follows.live id
    simp only [mem_drain_run, waits_run]
    rw [unsettled.burst_eq] at live ⊢
    refine ⟨Iff.rfl, ?_, fun change handed => handed.1⟩
    constructor
    · rintro ⟨change, net, quiet⟩
      refine ⟨?_, quiet⟩
      intro none
      simp [none, Burst.net?, Change.net?] at net
    · rintro ⟨some, quiet⟩
      obtain ⟨change, net⟩ := Option.isSome_iff_exists.mp (live some)
      exact ⟨change, net, quiet⟩
  · intro e handed
    have settles : (run window h).Settles e.id (.drain now) := ⟨e.change, handed⟩
    have ended := ((settles_run_iff window h e.id _).mp settles).2
    have after : ((run window h).drain now).2 = run window (h ++ [.drain now]) :=
      (run_append window h (.drain now)).symm
    rw [after, ← Bool.not_eq_true, waits_run]
    exact not_not.mpr ended
  · intro id h' same change
    rw [mem_drain_run, mem_drain_run, ← DebouncerHistory.burst_filter window id h', same,
      DebouncerHistory.burst_filter]

/-- One template is handed out while another, which was removed and created, is not quiet yet. -/
example :
    ((run 100 [.record 0 ⟨"b".toList, .removed⟩, .record 5 ⟨"a".toList, .created⟩,
      .record 20 ⟨"b".toList, .created⟩]).drain 110).1 = [⟨"a".toList, .created⟩] := by
  decide

end Debouncer

end Stencil
