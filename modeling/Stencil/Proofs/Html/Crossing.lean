import Mathlib.Data.List.ProdSigma
import Stencil.Proofs.Html.Nesting

/-!
# Elements that may cross

Where elements may stand in each other in any way (`free`), tags can only fail to be nested by
crossing: an element is closed before another one that was opened in it.  So a pair of tags around
others that have no tag of its name leaves the nesting as it was if those are nested by themselves,
and spoils it otherwise (`followAll_enclosed`); the same holds of many such pairs, one after the
other (`followAll_enclosing`).
-/

namespace Stencil.Html

/-- Elements of some names that may stand in each other, and in none. -/
def free (names : List Text) : ContentModel := (none :: names.map some).product names

/-- The elements that are open after some tags, innermost first. -/
def followAll (names stack tags : List Text) : Option (List Text) :=
  tags.foldlM (follow (free names)) stack

/-- Whether texts are names of elements, such that a tag may consist of nothing else. -/
def AreNames (names : List Text) : Prop :=
  ∀ name ∈ names, nameOf name = name ∧ name.head? ≠ some '/'
  deriving Decidable

/-- Whether a tag consists of one of some names, behind a slash or not. -/
inductive IsTagOf (names : List Text) : Text → Prop where
  | opening {name : Text} (known : name ∈ names) : IsTagOf names name
  | closing {name : Text} (known : name ∈ names) : IsTagOf names ('/' :: name)

variable {names stack stack' below tags inner rest : List Text} {name tag : Text}

theorem IsTagOf.mono {names' : List Text} (more : ∀ name ∈ names, name ∈ names')
    (h : IsTagOf names tag) : IsTagOf names' tag := by
  cases h with
  | opening known => exact .opening (more _ known)
  | closing known => exact .closing (more _ known)

theorem mem_free {parent : Option Text} : (parent, name) ∈ free names ↔
    (∀ p ∈ parent, p ∈ names) ∧ name ∈ names := by
  cases parent <;> simp [free, List.pair_mem_product]

theorem followAll_cons (tag : Text) (tags stack : List Text) :
    followAll names stack (tag :: tags) =
      (follow (free names) stack tag).bind fun stack => followAll names stack tags :=
  List.foldlM_cons

theorem followAll_append (tags tags' stack : List Text) :
    followAll names stack (tags ++ tags') =
      (followAll names stack tags).bind fun stack => followAll names stack tags' :=
  List.foldlM_append

section

variable (areNames : AreNames names)

include areNames

/-- Another name is in no tag of some names. -/
theorem IsTagOf.fresh {names' : List Text} (more : ∀ name ∈ names', name ∈ names)
    (known : name ∈ names) (fresh : name ∉ names') (isTag : ∀ tag ∈ tags, IsTagOf names' tag) :
    name ∉ tags ∧ '/' :: name ∉ tags := by
  constructor
  · intro member
    obtain ⟨inside⟩ | @⟨other, inside⟩ := isTag _ member
    · exact fresh inside
    · exact (areNames _ known).2 rfl
  · intro member
    generalize same : '/' :: name = tag at member
    obtain ⟨inside⟩ | @⟨other, inside⟩ := isTag _ member
    · exact (areNames _ (more _ inside)).2 (same ▸ rfl)
    · obtain ⟨_, rfl⟩ := List.cons.inj same
      exact fresh inside

theorem follow_opening (known : name ∈ names) (inside : ∀ n ∈ stack, n ∈ names) :
    follow (free names) stack name = some (name :: stack) := by
  obtain ⟨whole, slash⟩ := areNames name known
  unfold follow
  split
  · exact absurd rfl slash
  · exact absurd rfl slash
  · rw [whole, if_pos]
    exact mem_free.mpr ⟨fun p first => inside p (List.mem_of_mem_head? first), known⟩

/-- What is open after a tag was open before or is opened by it. -/
theorem mem_of_follow (isTag : IsTagOf names tag) (inside : ∀ n ∈ stack, n ∈ names)
    (h : follow (free names) stack tag = some stack') :
    ∀ n ∈ stack', n ∈ names ∧ (n ∈ stack ∨ n = tag) := by
  cases isTag with
  | opening known =>
    rw [follow_opening areNames known inside] at h
    obtain rfl := Option.some.inj h
    exact List.forall_mem_cons.mpr
      ⟨⟨known, .inr rfl⟩, fun n member => ⟨inside n member, .inl member⟩⟩
  | closing known =>
    cases stack with
    | nil => simp [follow] at h
    | cons innermost stack =>
      have popped : stack = stack' := by
        rw [follow] at h
        split at h
        · exact Option.some.inj h
        · simp at h
      subst popped
      exact fun n member => ⟨inside n (List.mem_cons_of_mem _ member),
        .inl (List.mem_cons_of_mem _ member)⟩

/-- An element that is open after some tags was open before them or is opened by one of them. -/
theorem mem_of_followAll (isTag : ∀ tag ∈ tags, IsTagOf names tag)
    (inside : ∀ n ∈ stack, n ∈ names) (h : followAll names stack tags = some stack') :
    ∀ n ∈ stack', n ∈ names ∧ (n ∈ stack ∨ n ∈ tags) := by
  induction tags generalizing stack with
  | nil =>
    obtain rfl := Option.some.inj h
    exact fun n member => ⟨inside n member, .inl member⟩
  | cons tag tags ih =>
    obtain ⟨here, later⟩ := List.forall_mem_cons.mp isTag
    rw [followAll_cons] at h
    obtain ⟨next, first, h⟩ := Option.bind_eq_some_iff.mp h
    have opened := mem_of_follow areNames here inside first
    intro n member
    obtain ⟨known, origin⟩ := ih later (fun n member => (opened n member).1) h n member
    refine ⟨known, ?_⟩
    rcases origin with before | after
    · refine (opened n before).2.imp_right fun same => ?_
      rw [same]
      exact List.mem_cons_self
    · exact .inr (List.mem_cons_of_mem _ after)

/-! ## What is open further out -/

/-- Elements further out make no difference to a tag that can be followed without them. -/
theorem follow_append_of_some (isTag : IsTagOf names tag)
    (inside : ∀ n ∈ stack ++ below, n ∈ names)
    (h : follow (free names) stack tag = some stack') :
    follow (free names) (stack ++ below) tag = some (stack' ++ below) := by
  cases isTag with
  | opening known =>
    rw [follow_opening areNames known (List.forall_mem_append.mp inside).1] at h
    obtain rfl := Option.some.inj h
    exact follow_opening areNames known inside
  | closing known =>
    cases stack with
    | nil => simp [follow] at h
    | cons innermost stack =>
      rw [follow] at h
      split at h <;> rename_i same
      · obtain rfl := Option.some.inj h
        exact if_pos same
      · simp at h

/-- Tags that can be followed over some open elements can be followed over more below these, which
stay open. -/
theorem followAll_append_of_some (isTag : ∀ tag ∈ tags, IsTagOf names tag)
    (inside : ∀ n ∈ stack ++ below, n ∈ names) (h : followAll names stack tags = some stack') :
    followAll names (stack ++ below) tags = some (stack' ++ below) := by
  induction tags generalizing stack with
  | nil =>
    obtain rfl := Option.some.inj h
    rfl
  | cons tag tags ih =>
    obtain ⟨here, later⟩ := List.forall_mem_cons.mp isTag
    obtain ⟨within, outside⟩ := List.forall_mem_append.mp inside
    rw [followAll_cons] at h ⊢
    obtain ⟨next, first, h⟩ := Option.bind_eq_some_iff.mp h
    have opened := mem_of_follow areNames here within first
    rw [follow_append_of_some areNames here inside first]
    exact ih later (List.forall_mem_append.mpr ⟨fun n member => (opened n member).1, outside⟩) h

/-- Tags that do not close an element cannot get past it. -/
theorem followAll_append_of_none (isTag : ∀ tag ∈ tags, IsTagOf names tag)
    (inside : ∀ n ∈ stack ++ name :: below, n ∈ names) (open_ : '/' :: name ∉ tags)
    (h : followAll names stack tags = none) :
    followAll names (stack ++ name :: below) tags = none := by
  induction tags generalizing stack with
  | nil => simp [followAll] at h
  | cons tag tags ih =>
    obtain ⟨here, later⟩ := List.forall_mem_cons.mp isTag
    obtain ⟨within, outside⟩ := List.forall_mem_append.mp inside
    rw [List.mem_cons, not_or] at open_
    rw [followAll_cons] at h ⊢
    cases first : follow (free names) stack tag with
    | some next =>
      have opened := mem_of_follow areNames here within first
      rw [first] at h
      rw [follow_append_of_some areNames here inside first]
      exact ih later (List.forall_mem_append.mpr ⟨fun n member => (opened n member).1, outside⟩)
        open_.2 h
    | none =>
      have stuck : follow (free names) (stack ++ name :: below) tag = none := by
        cases here with
        | opening known =>
          rw [follow_opening areNames known within] at first
          simp at first
        | @closing other known =>
          have differs : name ≠ other := fun same => open_.1 (congrArg _ same)
          cases stack with
          | nil => exact if_neg differs
          | cons innermost stack =>
            rw [follow] at first
            split at first <;> rename_i same
            · simp at first
            · exact if_neg same
      rw [stuck]
      rfl

/-! ## Pairs of tags -/

/-- A pair of tags around others without its name can be followed if those are nested, and then
makes no difference. -/
theorem followAll_enclosed (known : name ∈ names) (isTag : ∀ tag ∈ inner, IsTagOf names tag)
    (apart : name ∉ inner ∧ '/' :: name ∉ inner) (inside : ∀ n ∈ stack, n ∈ names) :
    followAll names stack (name :: (inner ++ ('/' :: name) :: rest)) =
      if followAll names [] inner = some [] then followAll names stack rest else none := by
  have within : ∀ n ∈ [] ++ name :: stack, n ∈ names := List.forall_mem_cons.mpr ⟨known, inside⟩
  rw [followAll_cons, follow_opening areNames known inside, Option.bind_some, followAll_append]
  cases inner_open : followAll names [] inner with
  | none =>
    have stuck := followAll_append_of_none areNames isTag within apart.2 inner_open
    rw [List.nil_append] at stuck
    simp [stuck]
  | some left =>
    have passed := followAll_append_of_some areNames isTag within inner_open
    rw [List.nil_append] at passed
    rw [passed, Option.bind_some, followAll_cons]
    cases left with
    | nil => simp [follow]
    | cons innermost left =>
      -- Something that was opened inside is still open.
      have origin := mem_of_followAll areNames isTag (by simp) inner_open innermost
        List.mem_cons_self
      have differs : innermost ≠ name := by
        rintro rfl
        exact apart.1 (by simpa using origin.2)
      simp [follow, differs]

/-- Tags that are nested make no difference to what follows them. -/
theorem followAll_nested (isTag : ∀ tag ∈ inner, IsTagOf names tag)
    (inside : ∀ n ∈ stack, n ∈ names) (nested : followAll names [] inner = some []) :
    followAll names stack (inner ++ rest) = followAll names stack rest := by
  have passed : followAll names ([] ++ stack) inner = some ([] ++ stack) :=
    followAll_append_of_some areNames isTag (by simpa using inside) nested
  rw [List.nil_append] at passed
  rw [followAll_append, passed, Option.bind_some]

/-- Pairs of tags, each around some tags and before others, are followed to the same end as those
tags alone, if what stands in the pairs is nested, and not at all otherwise. -/
theorem followAll_enclosing {parts : List (List Text × List Text)} (known : name ∈ names)
    (isTag : ∀ part ∈ parts, ∀ tag ∈ part.1 ++ part.2, IsTagOf names tag)
    (apart : ∀ part ∈ parts, name ∉ part.1 ∧ '/' :: name ∉ part.1)
    (inside : ∀ n ∈ stack, n ∈ names) :
    followAll names stack (parts.flatMap fun part =>
        name :: (part.1 ++ ('/' :: name) :: part.2)) = some stack' ↔
      (∀ part ∈ parts, followAll names [] part.1 = some []) ∧
        followAll names stack (parts.flatMap fun part => part.1 ++ part.2) = some stack' := by
  induction parts generalizing stack with
  | nil => simp
  | cons part parts ih =>
    obtain ⟨here, later⟩ := List.forall_mem_cons.mp isTag
    obtain ⟨free, others⟩ := List.forall_mem_cons.mp apart
    obtain ⟨tagsInside, tagsBehind⟩ := List.forall_mem_append.mp here
    rw [List.flatMap_cons, List.flatMap_cons, List.forall_mem_cons, List.cons_append,
      List.append_assoc, List.cons_append, List.append_assoc,
      followAll_enclosed areNames known tagsInside free inside]
    by_cases nested : followAll names [] part.1 = some []
    · rw [if_pos nested, followAll_nested areNames tagsInside inside nested, followAll_append,
        followAll_append]
      cases behind : followAll names stack part.2 with
      | none => simp
      | some next =>
        have opened := mem_of_followAll areNames tagsBehind inside behind
        simpa [nested] using ih later others fun n member => (opened n member).1
    · simp [nested]

/-- Pairs of tags with nothing in them are nested. -/
theorem followAll_pairs {α : Type} (known : name ∈ names) (items : List α) :
    followAll names [] (items.flatMap fun _ => [name, '/' :: name]) = some [] := by
  induction items with
  | nil => rfl
  | cons item items ih =>
    have pair (rest : List Text) :
        followAll names [] (name :: ('/' :: name) :: rest) = followAll names [] rest :=
      (@followAll_enclosed names [] [] rest name areNames known (by simp) (by simp) (by simp)).trans
        (if_pos rfl)
    exact (pair _).trans ih

end

end Stencil.Html
