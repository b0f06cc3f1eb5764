import Stencil.Config.Basic
import Stencil.Files.Path
import Stencil.Proofs.Text.Whole

/-!
# Files below the root

Whatever a template is called, its file lies below the root or there is none: no step of the way
from the root to the file leads out of a directory (`templatePath_below`).  And the file of a
template has the id of the template, whichever way the root is written
(`logicalId_templatePath`).

An id begins neither with a slash nor with a period before a slash, and has no backslash.  So what
is put behind the root to make the path of a file is what is left when the root and the slashes
behind it are dropped again.
-/

namespace Stencil

variable {root extension path s t : Text} {c : Char}

/-- Whether an extension is one that a configuration may have. -/
structure IsExtension (extension : Text) : Prop where
  nonempty : extension ≠ []
  bare : isBareExtension extension = true

namespace IsExtension

theorem head_ne (valid : IsExtension extension) : extension.head? ≠ some '.' := by
  have bare := valid.bare
  simp only [isBareExtension, Bool.and_eq_true, bne_iff_ne] at bare
  exact bare.1.1

theorem not_mem (valid : IsExtension extension) : '/' ∉ extension ∧ '\\' ∉ extension := by
  have bare := valid.bare
  simp only [isBareExtension, Bool.and_eq_true, Bool.not_eq_true', List.contains_eq_mem,
    decide_eq_false_iff_not] at bare
  exact ⟨bare.1.2, bare.2⟩

end IsExtension

/-- The extensions of valid configurations are these. -/
theorem isExtension_iff :
    IsExtension extension ↔ ∃ c : Config, c.extension = extension ∧ c.fault? = none := by
  constructor
  · rintro ⟨nonempty, bare⟩
    exact ⟨{ directory := [], extension }, rfl, by simp [Config.fault?, nonempty, bare]⟩
  · rintro ⟨c, rfl, valid⟩
    unfold Config.fault? at valid
    grind [IsExtension]

/-- A step from a directory on the way to a file. -/
inductive Step where
  /-- To the root of all files. -/
  | root
  /-- To the directory itself. -/
  | current
  /-- Out of the directory. -/
  | parent
  /-- To something in the directory. -/
  | name (name : Text)
  deriving DecidableEq, Repr

def Step.ofComponent? (component : Text) : Option Step :=
  if isIdle component then none
  else if component = parentDirectory then some .parent
  else some (.name component)

/-- The step with which a path begins before it comes to its components. -/
def Step.start? (path : Text) : Option Step :=
  match pathStart path with
  | ['/'] => some .root
  | ['.'] => some .current
  | _ => none

def steps (path : Text) : List Step :=
  (Step.start? path).toList ++ (components path).filterMap Step.ofComponent?

/-- Whether a path leads to something below the directory in which it begins: it does not begin at
the root of all files, and each step stays in a directory or goes to something in it. -/
structure LeadsBelow (path : Text) : Prop where
  relative : path.head? ≠ some '/'
  stays : ∀ step ∈ steps path, step = .current ∨ ∃ name, step = .name name

/-- A relative path leads below the directory in which it begins if no component leads out. -/
theorem leadsBelow_iff (relative : path.head? ≠ some '/') :
    LeadsBelow path ↔ parentDirectory ∉ components path := by
  constructor
  · intro below parent
    have step : Step.parent ∈ steps path :=
      List.mem_append_right _ (List.mem_filterMap.mpr ⟨_, parent, by decide⟩)
    simpa using below.stays _ step
  · refine fun stays => ⟨relative, fun step member => ?_⟩
    rcases List.mem_append.mp member with start | member
    · have first : Step.start? path ≠ some .root := by
        unfold Step.start? pathStart
        grind
      unfold Step.start? at start first
      grind
    · obtain ⟨component, there, same⟩ := List.mem_filterMap.mp member
      have other : component ≠ parentDirectory := fun parent => stays (parent ▸ there)
      unfold Step.ofComponent? at same
      grind

theorem unifySeparators_append (s t : Text) :
    unifySeparators (s ++ t) = unifySeparators s ++ unifySeparators t := List.map_append

theorem unifySeparators_of_not_mem (plain : '\\' ∉ s) : unifySeparators s = s := by
  refine (List.map_congr_left fun c member => if_neg ?_).trans (List.map_id' s)
  rintro rfl
  exact plain member

theorem not_mem_unifySeparators (s : Text) : '\\' ∉ unifySeparators s := by
  intro member
  obtain ⟨c, _, same⟩ := List.mem_map.mp member
  split at same
  · simp at same
  · contradiction

theorem dropRoot_suffix (root path : Text) : dropRoot root path <:+ path := by
  unfold dropRoot
  split
  · exact List.suffix_rfl
  · split
    · rename_i rest found
      split
      · exact ⟨root, (Text.after?_eq_some found).symm⟩
      · exact List.suffix_rfl
    · exact List.suffix_rfl

/-- Whether there is nothing at the start of a path that stays in place. -/
def IsDirect (s : Text) : Prop := ¬['/'] <+: s ∧ ¬['.', '/'] <+: s

theorem dropLeading_suffix (s : Text) : dropLeading s <:+ s := by
  fun_induction dropLeading s with
  | case1 s ih => exact ih.trans (List.suffix_cons _ _)
  | case2 s ih => exact ih.trans ((List.suffix_cons _ _).trans (List.suffix_cons _ _))
  | case3 s => exact List.suffix_rfl

theorem isDirect_dropLeading (s : Text) : IsDirect (dropLeading s) := by
  fun_induction dropLeading s with
  | case1 s ih => exact ih
  | case2 s ih => exact ih
  | case3 s slash period =>
    refine ⟨?_, ?_⟩
    · rintro ⟨rest, rfl⟩
      exact slash rest rfl
    · rintro ⟨rest, rfl⟩
      exact period rest rfl

theorem dropLeading_of_isDirect (direct : IsDirect s) : dropLeading s = s := by
  fun_cases dropLeading s with
  | case1 s => exact absurd (List.prefix_append ['/'] s) direct.1
  | case2 s => exact absurd (List.prefix_append ['.', '/'] s) direct.2
  | case3 s => rfl

theorem dropLeading_slashes (slashes : ∀ c ∈ t, c = '/') (s : Text) :
    dropLeading (t ++ s) = dropLeading s := by
  induction t with
  | nil => rfl
  | cons c t ih =>
    obtain ⟨rfl, rest⟩ := List.forall_mem_cons.mp slashes
    exact ih rest

theorem dropExtension_prefix (extension path : Text) : dropExtension extension path <+: path := by
  unfold dropExtension dropSuffix
  split
  · exact List.prefix_rfl
  · cases found : Text.after? ('.' :: extension).reverse path.reverse with
    | none => exact List.prefix_rfl
    | some rest =>
      refine ⟨'.' :: extension, List.reverse_injective ?_⟩
      rw [Text.after?_eq_some found]
      simp

/-- The extension that is put behind an id is dropped again. -/
theorem dropExtension_append (nonempty : extension ≠ []) (id : Text) :
    dropExtension extension (id ++ ['.'] ++ extension) = id := by
  have turned : (id ++ ['.'] ++ extension).reverse =
      ('.' :: extension).reverse ++ id.reverse := by simp
  rw [dropExtension, if_neg (by simpa using nonempty), dropSuffix, turned, Text.after?_append]
  simp

theorem logicalId_prefix (root extension path : Text) :
    ∃ rest, logicalId root extension path <+: dropLeading rest ∧
      rest <:+ unifySeparators path :=
  ⟨_, dropExtension_prefix _ _, dropRoot_suffix _ _⟩

theorem isDirect_logicalId : IsDirect (logicalId root extension path) := by
  obtain ⟨rest, start, _⟩ := logicalId_prefix root extension path
  obtain ⟨slash, period⟩ := isDirect_dropLeading rest
  exact ⟨fun h => slash (h.trans start), fun h => period (h.trans start)⟩

theorem not_mem_logicalId : '\\' ∉ logicalId root extension path := by
  obtain ⟨rest, start, back⟩ := logicalId_prefix root extension path
  intro member
  exact not_mem_unifySeparators path
    (back.subset ((dropLeading_suffix rest).subset (start.subset member)))

def fileOf (extension id : Text) : Text := id ++ ['.'] ++ extension

theorem IsDirect.head_ne (direct : IsDirect s) : s.head? ≠ some '/' := by
  intro first
  obtain ⟨rest, begins⟩ := List.head?_eq_some_iff.mp first
  exact direct.1 ⟨rest, begins.symm⟩

/-- The period behind an id that is not empty brings nothing that stays in place to its start. -/
theorem IsDirect.fileOf (direct : IsDirect s) (named : s ≠ []) :
    IsDirect (fileOf extension s) := by
  rw [Stencil.fileOf, List.append_assoc]
  cases s with
  | nil => exact absurd rfl named
  | cons c s =>
    refine ⟨fun h => direct.1 ?_, fun h => direct.2 ?_⟩
    · obtain ⟨rfl, _⟩ := List.cons_prefix_cons.mp h
      exact List.prefix_append _ _
    · obtain ⟨rfl, rest⟩ := List.cons_prefix_cons.mp h
      cases s with
      | nil => exact absurd (List.cons_prefix_cons.mp rest).1 (by decide)
      | cons d s =>
        obtain ⟨rfl, _⟩ := List.cons_prefix_cons.mp rest
        exact List.prefix_append _ _

/-- A text without a separator belongs to the last component of the path that it is put behind. -/
theorem components_append (plain : '/' ∉ t) (s : Text) :
    ∃ parts last, components s = parts ++ [last] ∧ components (s ++ t) = parts ++ [last ++ t] := by
  unfold components
  induction s with
  | nil =>
    refine ⟨[], [], rfl, ?_⟩
    induction t with
    | nil => rfl
    | cons c t ih =>
      have other : c ≠ '/' := fun same => plain (same ▸ List.mem_cons_self)
      have rest := ih fun member => plain (List.mem_cons_of_mem _ member)
      simp only [List.nil_append] at rest ⊢
      rw [Text.splitOn, if_neg other, rest]
  | cons c s ih =>
    obtain ⟨parts, last, whole, longer⟩ := ih
    rw [List.cons_append, Text.splitOn, Text.splitOn, whole, longer]
    split
    · exact ⟨[] :: parts, last, rfl, rfl⟩
    · cases parts with
      | nil => exact ⟨[], c :: last, rfl, rfl⟩
      | cons part parts => exact ⟨(c :: part) :: parts, last, rfl, rfl⟩

/-- A file is in the directory that its id names, and is not that directory's own way out. -/
theorem leadsBelow_fileOf (valid : IsExtension extension) {id : Text} (direct : IsDirect id)
    (named : id ≠ []) (stays : parentDirectory ∉ components id) :
    LeadsBelow (fileOf extension id) := by
  refine (leadsBelow_iff (direct.fileOf named).head_ne).mpr fun member => ?_
  have plain : '/' ∉ '.' :: extension := by simp [valid.not_mem.1]
  obtain ⟨parts, last, whole, longer⟩ := components_append plain id
  have split : fileOf extension id = id ++ '.' :: extension := by simp [fileOf]
  rw [split, longer] at member
  rw [whole] at stays
  rcases List.mem_append.mp member with early | late
  · exact stays (List.mem_append_left _ early)
  · -- Two periods would be the one before the extension and the first of the extension.
    have same : ['.', '.'] = last ++ '.' :: extension := List.mem_singleton.mp late
    obtain ⟨d, more, rfl⟩ := List.exists_cons_of_ne_nil valid.nonempty
    have length := congrArg List.length same
    simp only [List.length_cons, List.length_nil, List.length_append] at length
    obtain rfl : last = [] := List.eq_nil_of_length_eq_zero (by omega)
    obtain rfl : '.' = d := (List.cons.inj (List.cons.inj same).2).1
    exact valid.head_ne rfl

/-- The file of the template at a path, where the root reads as `shown` and `place` puts the way to
a file behind it: the root of a file system need not be text. -/
def fileBelow {Place : Type} (shown : Text) (place : Text → Place) (extension path : Text) :
    Except StorageError Place :=
  let id := logicalId shown extension path
  if id.isEmpty ∨ parentDirectory ∈ components id then
    .error { kind := .invalidPath, path := some id, backend := some fileBackend }
  else .ok (place (fileOf extension id))

theorem templatePath_eq_fileBelow (root extension path : Text) :
    templatePath root extension path = fileBelow root (joinPath root) extension path :=
  rfl

/-- Whether a place is found only by a way that leads below the root. -/
def FoundBelow {Place : Type} (place : Text → Place) (answer : Except StorageError Place) : Prop :=
  (∃ e, answer = .error e ∧ e.kind = .invalidPath) ∨
    ∃ way, answer = .ok (place way) ∧ LeadsBelow way

/-- A template's file is found below the root, or the path is refused. -/
theorem foundBelow_fileBelow {Place : Type} (valid : IsExtension extension) (shown : Text)
    (place : Text → Place) (path : Text) :
    FoundBelow place (fileBelow shown place extension path) := by
  unfold fileBelow
  dsimp only
  split <;> rename_i refused
  · exact .inl ⟨_, rfl, rfl⟩
  · obtain ⟨named, stays⟩ : logicalId shown extension path ≠ [] ∧
        parentDirectory ∉ components (logicalId shown extension path) := by
      simpa using refused
    exact .inr ⟨_, rfl, leadsBelow_fileOf valid isDirect_logicalId named stays⟩

/-- There is a file exactly for ids that name something and lead below the root themselves. -/
theorem exists_fileBelow_iff {Place : Type} (shown : Text) (place : Text → Place)
    (extension path : Text) :
    (∃ file, fileBelow shown place extension path = .ok file) ↔
      logicalId shown extension path ≠ [] ∧ LeadsBelow (logicalId shown extension path) := by
  rw [leadsBelow_iff isDirect_logicalId.head_ne, fileBelow]
  split <;> rename_i refused
  · simpa [or_iff_not_imp_left] using refused
  · simpa using refused

/-- The file of a template lies below the root, or the path of the template is invalid.  That holds
of every root, also of one that is no text. -/
theorem templatePath_below (valid : IsExtension extension) (root path : Text) :
    FoundBelow (joinPath root) (templatePath root extension path) ∧
      ((∃ file, templatePath root extension path = .ok file) ↔
        logicalId root extension path ≠ [] ∧ LeadsBelow (logicalId root extension path)) ∧
      ∀ (Place : Type) (shown : Text) (place : Text → Place),
        FoundBelow place (fileBelow shown place extension path) := by
  rw [templatePath_eq_fileBelow]
  exact ⟨foundBelow_fileBelow valid root _ path, exists_fileBelow_iff root _ extension path,
    fun Place shown place => foundBelow_fileBelow valid shown place path⟩

/-- A path with a root at its start and a name that becomes two periods without the extension. -/
theorem templatePath_below_dots :
    FoundBelow (joinPath "/srv/views")
      (templatePath "/srv/views" "imdl" "/srv/views/.//a\\...imdl") :=
  (templatePath_below ⟨by decide, by decide⟩ _ _).1

/-- A way is put behind a root with at least one slash in between, if the root names anything
without the slashes at its end. -/
theorem exists_joinPath (root : Text) {way : Text} (relative : way.head? ≠ some '/') :
    ∃ slashes, (∀ c ∈ slashes, c = '/') ∧
      unifySeparators (joinPath root way) =
        Text.dropEndWhile (· == '/') (unifySeparators root) ++ slashes ++ unifySeparators way ∧
      (Text.dropEndWhile (· == '/') (unifySeparators root) ≠ [] → slashes ≠ []) := by
  obtain ⟨dropped, split, all⟩ := Text.exists_dropEndWhile (· == '/') (unifySeparators root)
  have bare := @Text.not_of_getLast_dropEndWhile (· == '/') (unifySeparators root)
  generalize Text.dropEndWhile (· == '/') (unifySeparators root) = stem at split bare ⊢
  have slashes : ∀ c ∈ dropped, c = '/' := by simpa using all
  rw [joinPath, if_neg relative]
  split <;> rename_i ends
  · refine ⟨dropped, slashes, by rw [unifySeparators_append, split], fun some none => ?_⟩
    -- A root that ends with a slash has one behind its stem.
    rw [none, List.append_nil] at split
    rcases ends with empty | ends
    · obtain rfl := List.isEmpty_iff.mp empty
      exact some split.symm
    · have last : stem.getLast? = Option.some '/' := by
        rw [← split, unifySeparators, List.getLast?_map, ends]
        rfl
      simpa using bare last
  · refine ⟨dropped ++ ['/'], ?_, ?_, by simp⟩
    · simpa [or_imp, forall_and] using slashes
    · rw [unifySeparators_append, unifySeparators_append, split]
      simp [unifySeparators]

/-- Below a root, what leads to a file is found again. -/
theorem dropLeading_dropRoot {stem slashes way : Text} (all : ∀ c ∈ slashes, c = '/')
    (parted : stem ≠ [] → slashes ≠ []) (direct : IsDirect way) :
    dropLeading (dropRoot stem (stem ++ slashes ++ way)) = way := by
  have rest : dropLeading (slashes ++ way) = way :=
    (dropLeading_slashes all way).trans (dropLeading_of_isDirect direct)
  by_cases none : stem = []
  · subst none
    exact rest
  obtain ⟨c, more, rfl⟩ := List.exists_cons_of_ne_nil (parted none)
  obtain ⟨rfl, _⟩ := List.forall_mem_cons.mp all
  by_cases idle : stem = ['.']
  · subst idle
    exact rest
  · have kept : ¬(stem.isEmpty ∨ stem = ".") := by simp [none, idle]
    rw [dropRoot, if_neg kept, List.append_assoc, Text.after?_append]
    exact rest

/-- The file of a template has the id of the template, for every root and every extension that a
configuration may have. -/
theorem logicalId_templatePath {c : Config} (valid : c.fault? = none) {root path file : Text}
    (found : templatePath root c.extension path = .ok file) :
    logicalId root c.extension file = logicalId root c.extension path := by
  have valid : IsExtension c.extension := isExtension_iff.mpr ⟨c, rfl, valid⟩
  rw [templatePath] at found
  split at found <;> rename_i refused
  · simp at found
  · obtain rfl := Except.ok.inj found
    have named : logicalId root c.extension path ≠ [] := fun none => refused (.inl (by simp [none]))
    have direct : IsDirect (fileOf c.extension (logicalId root c.extension path)) :=
      isDirect_logicalId.fileOf named
    have plain : '\\' ∉ fileOf c.extension (logicalId root c.extension path) := by
      simp [fileOf, valid.not_mem.2, not_mem_logicalId]
    obtain ⟨slashes, all, split, parted⟩ := exists_joinPath root direct.head_ne
    rw [unifySeparators_of_not_mem plain] at split
    calc logicalId root c.extension (joinPath root (fileOf c.extension _))
        = dropExtension c.extension (dropLeading (dropRoot _ _)) := rfl
      _ = dropExtension c.extension (fileOf c.extension (logicalId root c.extension path)) := by
        rw [split, dropLeading_dropRoot all parted direct]
      _ = logicalId root c.extension path := dropExtension_append valid.nonempty _

/-- A path that holds the root twice, below a root with separators of both kinds at its end. -/
theorem logicalId_templatePath_twice :
    templatePath "a\\/" "imdl" "a/a\\b." = .ok "a\\/a/b..imdl" ∧
      logicalId "a\\/" "imdl" "a\\/a/b..imdl" = logicalId "a\\/" "imdl" "a/a\\b." :=
  ⟨rfl, @logicalId_templatePath { directory := [], extension := "imdl" } (by decide) _ _ _ rfl⟩

end Stencil
