import Stencil.Proofs.Html.Escaped

/-!
# Escaped text read back

`unescapeHtml` replaces five entities one after the other, the ampersand last.  That does what one
pass would do: an entity has no ampersand but the one before it, and none begins another, so that a
replacement neither makes nor breaks an entity for the next one (`unescapeHtml_entity`,
`unescapeHtml_kept`).

What the escape writes is read back as the character it was.  What the escape let pass, because the
text had it already, is read back too if it is one of the five, and the text becomes shorter.  So a
text comes back as it was if and only if it had none of the five (`unescapeHtml_escapeHtml_iff`).
-/

namespace Stencil

/-- The entities that are read back, in the order of their turns, with what they stand for. -/
def replacements : List (Text × Char) :=
  [("lt;", '<'), ("gt;", '>'), ("lbrace;", '\x7b'), ("rbrace;", '\x7d'), ("amp;", '&')]

/-- The known entities that are not read back. -/
def keptEntities : List Text := ["sol;", "bsol;"]

variable {e f s : Text} {c : Char}

/-- The text after the turns of some entities. -/
def replaceAll : List (Text × Char) → Text → Text
  | [], s => s
  | (e, c) :: entities, s => replaceAll entities (Text.replace ('&' :: e) [c] s)

theorem unescapeHtml_eq_replaceAll (s : Text) : unescapeHtml s = replaceAll replacements s := rfl

theorem mem_knownEntities_of_mem_replacements (member : (e, c) ∈ replacements) :
    e ∈ knownEntities :=
  (by decide : ∀ entity ∈ replacements, entity.1 ∈ knownEntities) (e, c) member

theorem ampersand_notMem_entity (known : e ∈ knownEntities) : '&' ∉ e := fun member =>
  not_mem_escapedChars_of_mem_knownEntities e known _ member List.mem_cons_self

/-- No entity begins another one. -/
theorem entity_eq_of_isPrefix (known : e ∈ knownEntities) (known' : f ∈ knownEntities)
    (start : e <+: f ++ s) : e = f := by
  have apart : ∀ e ∈ knownEntities, ∀ f ∈ knownEntities, e <+: f → e = f := by decide
  rcases List.prefix_or_prefix_of_prefix start (List.prefix_append f s) with shorter | longer
  · exact apart e known f known' shorter
  · exact (apart f known' e known longer).symm

section Replace

theorem startsWith_ampersand :
    Text.startsWith (c :: s) ('&' :: e) = true ↔ c = '&' ∧ e <+: s := by
  rw [Text.startsWith, List.isPrefixOf_iff_prefix, List.cons_prefix_cons, eq_comm]

/-- One turn passes over a character at which its entity does not stand. -/
theorem replace_cons (absent : ¬(c = '&' ∧ e <+: s)) (new : Text) :
    Text.replace ('&' :: e) new (c :: s) = c :: Text.replace ('&' :: e) new s := by
  simp [Text.replace, Text.replaceFrom, startsWith_ampersand, absent]

theorem replace_append (absent : '&' ∉ f) (new s : Text) :
    Text.replace ('&' :: e) new (f ++ s) = f ++ Text.replace ('&' :: e) new s := by
  induction f with
  | nil => rfl
  | cons c f ih =>
    obtain ⟨other, absent⟩ := not_or.mp (List.mem_cons.not.mp absent)
    rw [List.cons_append, replace_cons (fun stands => other stands.1.symm), ih absent,
      List.cons_append]

theorem replaceFrom_skip (old new f s : Text) :
    Text.replaceFrom old new f.length (f ++ s) = Text.replaceFrom old new 0 s := by
  induction f with
  | nil => rfl
  | cons c f ih => exact ih

/-- The turn of an entity takes it away. -/
theorem replace_entity (e new s : Text) :
    Text.replace ('&' :: e) new ('&' :: (e ++ s)) = new ++ Text.replace ('&' :: e) new s := by
  simp [Text.replace, Text.replaceFrom, startsWith_ampersand, replaceFrom_skip]

/-- The turn of another entity passes over it. -/
theorem replace_entity_of_ne (known : e ∈ knownEntities) (known' : f ∈ knownEntities)
    (other : e ≠ f) (new s : Text) :
    Text.replace ('&' :: e) new ('&' :: (f ++ s)) =
      '&' :: (f ++ Text.replace ('&' :: e) new s) := by
  rw [replace_cons (fun stands => other (entity_eq_of_isPrefix known known' stands.2)),
    replace_append (ampersand_notMem_entity known')]

end Replace

section Unescape

variable {entities : List (Text × Char)}

theorem replaceAll_append (more : List (Text × Char)) (s : Text) :
    replaceAll (entities ++ more) s = replaceAll more (replaceAll entities s) := by
  induction entities generalizing s with
  | nil => rfl
  | cons entity entities ih => exact ih _

/-- Turns pass over a character that is no ampersand. -/
theorem replaceAll_cons (other : ∀ entity ∈ entities, c ≠ '&') (s : Text) :
    replaceAll entities (c :: s) = c :: replaceAll entities s := by
  induction entities generalizing s with
  | nil => rfl
  | cons entity entities ih =>
    obtain ⟨here, later⟩ := List.forall_mem_cons.mp other
    rw [replaceAll, replace_cons (fun stands => here stands.1), ih later, replaceAll]

/-- Turns pass over an entity that is not among theirs. -/
theorem replaceAll_entity (known : e ∈ knownEntities)
    (others : ∀ entity ∈ entities, entity.1 ∈ knownEntities ∧ entity.1 ≠ e) (s : Text) :
    replaceAll entities ('&' :: (e ++ s)) = '&' :: (e ++ replaceAll entities s) := by
  induction entities generalizing s with
  | nil => rfl
  | cons entity entities ih =>
    obtain ⟨here, later⟩ := List.forall_mem_cons.mp others
    rw [replaceAll, replace_entity_of_ne here.1 known here.2, ih later, replaceAll]

theorem unescapeHtml_cons (other : c ≠ '&') (s : Text) :
    unescapeHtml (c :: s) = c :: unescapeHtml s := by
  rw [unescapeHtml_eq_replaceAll, replaceAll_cons fun _ _ => other, unescapeHtml_eq_replaceAll]

theorem unescapeHtml_kept (kept : e ∈ keptEntities) (s : Text) :
    unescapeHtml ('&' :: (e ++ s)) = '&' :: (e ++ unescapeHtml s) := by
  have apart : ∀ e ∈ keptEntities, e ∈ knownEntities ∧
      ∀ entity ∈ replacements, entity.1 ∈ knownEntities ∧ entity.1 ≠ e := by decide
  rw [unescapeHtml_eq_replaceAll, replaceAll_entity (apart e kept).1 (apart e kept).2,
    unescapeHtml_eq_replaceAll]

/-- An entity is read back in its own turn.  The turns before pass over it, and those after over
what it stands for: only the last one brings an ampersand. -/
theorem unescapeHtml_entity (member : (e, c) ∈ replacements) (s : Text) :
    unescapeHtml ('&' :: (e ++ s)) = c :: unescapeHtml s := by
  have apart : replacements.Pairwise fun former latter =>
      former.1 ≠ latter.1 ∧ former.2 ≠ '&' := by decide
  have known := mem_knownEntities_of_mem_replacements member
  obtain ⟨earlier, later, split⟩ := List.append_of_mem member
  rw [split] at apart
  obtain ⟨-, behind, before⟩ := List.pairwise_append.mp apart
  have others : ∀ entity ∈ earlier, entity.1 ∈ knownEntities ∧ entity.1 ≠ e := by
    intro entity inside
    refine ⟨mem_knownEntities_of_mem_replacements (c := entity.2) ?_,
      (before entity inside (e, c) List.mem_cons_self).1⟩
    exact split ▸ List.mem_append_left _ inside
  have plain : ∀ entity ∈ later, c ≠ '&' := fun entity inside =>
    ((List.pairwise_cons.mp behind).1 entity inside).2
  calc unescapeHtml ('&' :: (e ++ s))
      = replaceAll ((e, c) :: later) (replaceAll earlier ('&' :: (e ++ s))) := by
        rw [unescapeHtml_eq_replaceAll, split, replaceAll_append]
    _ = replaceAll later (c :: Text.replace ('&' :: e) [c] (replaceAll earlier s)) := by
        rw [replaceAll_entity known others, replaceAll, replace_entity, List.singleton_append]
    _ = c :: replaceAll ((e, c) :: later) (replaceAll earlier s) := by
        rw [replaceAll_cons plain, replaceAll]
    _ = c :: unescapeHtml s := by
        rw [unescapeHtml_eq_replaceAll, split, replaceAll_append]

end Unescape

section RoundTrip

/-- A text is cut into known entities and other characters. -/
theorem entity_induction {motive : Text → Prop} (nil : motive [])
    (char : ∀ c s, (c = '&' → startsKnownEntity s = false) → motive s → motive (c :: s))
    (entity : ∀ e ∈ knownEntities, ∀ s, motive s → motive ('&' :: (e ++ s))) (s : Text) :
    motive s := by
  induction length : s.length using Nat.strong_induction_on generalizing s with
  | _ n ih =>
    subst length
    cases s with
    | nil => exact nil
    | cons c s =>
      by_cases known : c = '&' ∧ startsKnownEntity s = true
      · obtain ⟨rfl, known⟩ := known
        obtain ⟨e, member, t, rfl⟩ := startsKnownEntity_iff.mp known
        refine entity e member t (ih t.length ?_ t rfl)
        rw [List.length_cons, List.length_append]
        omega
      · refine char c s (fun amp => ?_) (ih s.length (Nat.lt_succ_self _) s rfl)
        exact Bool.eq_false_iff.mpr fun starts => known ⟨amp, starts⟩

theorem escapeHtml_entity (known : e ∈ knownEntities) (s : Text) :
    escapeHtml ('&' :: (e ++ s)) = '&' :: (e ++ escapeHtml s) := by
  have starts : startsKnownEntity (e ++ s) = true :=
    startsKnownEntity_iff.mpr ⟨e, known, List.prefix_append e s⟩
  rw [escapeHtml_ampersand, if_pos starts, List.singleton_append,
    escapeHtml_append_of_not_mem s (not_mem_escapedChars_of_mem_knownEntities e known)]

/-- A character that is escaped is written as the entity that is read back as the character. -/
theorem exists_escapeHtml_cons (escaped : c ∈ escapedChars)
    (alone : c = '&' → startsKnownEntity s = false) :
    ∃ e, (e, c) ∈ replacements ∧ escapeHtml (c :: s) = '&' :: (e ++ escapeHtml s) := by
  simp only [escapedChars, delimiters, List.mem_cons, List.not_mem_nil, or_false] at escaped
  rcases escaped with rfl | rfl | rfl | rfl | rfl
  · refine ⟨"amp;", by decide, ?_⟩
    rw [escapeHtml_ampersand, if_neg (by simp [alone rfl])]
    rfl
  · exact ⟨"lt;", by decide, rfl⟩
  · exact ⟨"gt;", by decide, rfl⟩
  · exact ⟨"lbrace;", by decide, rfl⟩
  · exact ⟨"rbrace;", by decide, rfl⟩

/-- A character that is part of no entity comes back. -/
theorem unescapeHtml_escapeHtml_cons (alone : c = '&' → startsKnownEntity s = false) :
    unescapeHtml (escapeHtml (c :: s)) = c :: unescapeHtml (escapeHtml s) := by
  by_cases escaped : c ∈ escapedChars
  · obtain ⟨e, member, written⟩ := exists_escapeHtml_cons escaped alone
    rw [written, unescapeHtml_entity member]
  · rw [escapeHtml_cons_of_not_mem s escaped,
      unescapeHtml_cons (List.ne_of_not_mem_cons escaped)]

/-- Whether one of the entities that are read back occurs in a text. -/
def HasReplaced (s : Text) : Prop := ∃ entity ∈ replacements, '&' :: entity.1 <:+: s

theorem hasReplaced_cons (alone : c = '&' → startsKnownEntity s = false) :
    HasReplaced (c :: s) ↔ HasReplaced s := by
  refine exists_congr fun entity => and_congr_right fun member => ?_
  rw [List.infix_cons_iff, or_iff_right]
  intro stands
  obtain ⟨rfl, start⟩ := List.cons_prefix_cons.mp stands
  have known := mem_knownEntities_of_mem_replacements member
  have starts := startsKnownEntity_iff.mpr ⟨entity.1, known, start⟩
  exact absurd (alone rfl) (by simp [starts])

/-- An entity that is kept neither is one of those that are read back nor hides one. -/
theorem hasReplaced_kept (kept : e ∈ keptEntities) :
    HasReplaced ('&' :: (e ++ s)) ↔ HasReplaced s := by
  have apart : ∀ e ∈ keptEntities, e ∈ knownEntities ∧ ∀ entity ∈ replacements, entity.1 ≠ e := by
    decide
  obtain ⟨known', others⟩ := apart e kept
  refine exists_congr fun entity => and_congr_right fun member => ?_
  have known := mem_knownEntities_of_mem_replacements member
  constructor
  · intro inside
    rcases List.infix_cons_iff.mp inside with start | inside
    · have start := (List.cons_prefix_cons.mp start).2
      exact absurd (entity_eq_of_isPrefix known known' start) (others entity member)
    · exact Text.infix_right inside fun c first => by
        obtain rfl := Option.some.inj first
        exact ampersand_notMem_entity known'
  · intro inside
    exact inside.trans (List.suffix_append ('&' :: e) s).isInfix

/-- A text comes back as it was and has none of the entities that are read back, or it comes back
shorter and has one. -/
theorem unescapeHtml_escapeHtml_account (s : Text) :
    unescapeHtml (escapeHtml s) = s ∧ ¬HasReplaced s ∨
      (unescapeHtml (escapeHtml s)).length < s.length ∧ HasReplaced s := by
  induction s using entity_induction with
  | nil => exact .inl ⟨rfl, by simp [HasReplaced]⟩
  | char c s alone ih =>
    rw [unescapeHtml_escapeHtml_cons alone, hasReplaced_cons alone, List.length_cons,
      List.length_cons, Nat.add_lt_add_iff_right, List.cons_inj_right]
    exact ih
  | entity e known s ih =>
    have read : ∀ e ∈ knownEntities, e ∈ keptEntities ∨
        ∃ entity ∈ replacements, entity.1 = e ∧ 0 < e.length := by decide
    rw [escapeHtml_entity known]
    rcases read e known with kept | ⟨⟨e, c⟩, member, rfl, some⟩
    · rw [unescapeHtml_kept kept, hasReplaced_kept kept, List.length_cons, List.length_cons,
        List.length_append, List.length_append, Nat.add_lt_add_iff_right,
        Nat.add_lt_add_iff_left, List.cons_inj_right, List.append_cancel_left_eq]
      exact ih
    · refine .inr ⟨?_, (e, c), member, (List.prefix_append ('&' :: e) s).isInfix⟩
      have shorter : (unescapeHtml (escapeHtml s)).length ≤ s.length := by
        rcases ih with ⟨same, -⟩ | ⟨less, -⟩
        · rw [same]
        · exact less.le
      rw [unescapeHtml_entity member, List.length_cons, List.length_cons, List.length_append]
      dsimp only at some ⊢
      omega

/-- A text comes back from its escaped form if and only if none of the entities that are read back
occurs in it. -/
theorem unescapeHtml_escapeHtml_iff (s : Text) :
    unescapeHtml (escapeHtml s) = s ↔
      ∀ w ∈ (["&lt;", "&gt;", "&lbrace;", "&rbrace;", "&amp;"] : List Text), ¬w <:+: s := by
  have listed : (["&lt;", "&gt;", "&lbrace;", "&rbrace;", "&amp;"] : List Text) =
      replacements.map fun entity => '&' :: entity.1 := rfl
  have absent : (∀ w ∈ (["&lt;", "&gt;", "&lbrace;", "&rbrace;", "&amp;"] : List Text),
      ¬w <:+: s) ↔ ¬HasReplaced s := by
    rw [listed, List.forall_mem_map]
    simp only [HasReplaced, not_exists, not_and]
  rw [absent]
  rcases unescapeHtml_escapeHtml_account s with ⟨same, none⟩ | ⟨shorter, some⟩
  · exact iff_of_true same none
  · refine iff_of_false (fun same => ?_) (not_not_intro some)
    exact absurd (congrArg List.length same) shorter.ne

end RoundTrip

end Stencil
