import Stencil.Engine.Config
import Stencil.Proofs.Storage.Spelling
import Stencil.Storage.Files

/-!
# Ids of ids

An engine derives the id of a template from its path, and a storage of files derives an id from that
id once more.  The second time drops something exactly if the id begins with the root again or ends
with the extension again.  If so, what is read is another file than the one that the id names, and
if not, it is that file (`read_templateId`).

The second id then has fewer characters in components that lead somewhere, which neither slashes nor
periods between them make up for.  So its file is not even the same by another path.
-/

namespace Stencil

variable {root extension path id s t : Text}

/-- The root as it is looked for at the start of a path. -/
def rootStem (root : Text) : Text := Text.dropEndWhile (· == '/') (unifySeparators root)

/-- Whether a path begins with the root, and the root ends where a component does.  A root that
leads nowhere is not looked for. -/
def HasRoot (root path : Text) : Prop :=
  rootStem root ≠ [] ∧ rootStem root ≠ ['.'] ∧
    ∃ rest, path = rootStem root ++ rest ∧ atSeparator rest = true

/-- Whether there is neither the root at the start of an id nor the extension at its end. -/
structure IsStable (root extension id : Text) : Prop where
  rootless : ¬HasRoot root id
  bare : ¬('.' :: extension <:+ id)

/-- How many characters of a path are in components that lead somewhere. -/
def weight (path : Text) : Nat := ((components path).filter fun name => !isIdle name).flatten.length

theorem weight_slash (s t : Text) : weight (s ++ '/' :: t) = weight s + weight t := by
  simp [weight, components_slash]

theorem weight_dropLeading (s : Text) : weight (dropLeading s) = weight s := by
  fun_induction dropLeading s with
  | case1 s ih => rw [ih]; exact ((weight_slash [] s).trans (Nat.zero_add _)).symm
  | case2 s ih => rw [ih]; exact ((weight_slash ['.'] s).trans (Nat.zero_add _)).symm
  | case3 s => rfl

/-- An extension makes a path longer in a component that leads somewhere. -/
theorem weight_extension (valid : IsExtension extension) (s : Text) :
    weight s < weight (s ++ '.' :: extension) := by
  have plain : '/' ∉ '.' :: extension := by simp [valid.not_mem.1]
  obtain ⟨parts, last, whole, longer⟩ := components_append plain s
  have before : ([last].filter fun name => !isIdle name).flatten.length ≤ last.length := by
    cases idle : isIdle last <;> simp [idle]
  have after : ([last ++ '.' :: extension].filter fun name => !isIdle name).flatten.length =
      last.length + (extension.length + 1) := by
    simp [valid.moves last]
  rw [weight, weight, whole, longer]
  simp only [List.filter_append, List.flatten_append, List.length_append]
  omega

/-- The weight is that of the plain components. -/
theorem weight_eq_of_plainComponents (same : plainComponents s = plainComponents t) :
    weight s = weight t := by
  have plain (s : Text) : weight s =
      ((plainComponents s).filter fun name => !isIdle name).flatten.length := by
    obtain ⟨parts, last, split⟩ := exists_components s
    simp [weight, split, plainComponents_of_split split]
  rw [plain, same, plain]

/-- An extension is dropped where there is one, and only then. -/
theorem dropExtension_cases (nonempty : extension ≠ []) (s : Text) :
    (¬('.' :: extension <:+ s) ∧ dropExtension extension s = s) ∨
      s = dropExtension extension s ++ '.' :: extension := by
  by_cases ends : '.' :: extension <:+ s
  · obtain ⟨rest, rfl⟩ := ends
    have split : rest ++ '.' :: extension = rest ++ ['.'] ++ extension := by simp
    rw [split, dropExtension_append nonempty, ← split]
    exact .inr rfl
  · refine .inl ⟨ends, ?_⟩
    rw [dropExtension, if_neg (by simpa using nonempty), dropSuffix]
    cases found : Text.after? ('.' :: extension).reverse s.reverse with
    | none => rfl
    | some rest =>
      refine absurd ⟨rest.reverse, List.reverse_injective ?_⟩ ends
      rw [Text.after?_eq_some found]
      simp

theorem dropRoot_of_hasRoot (has : HasRoot root s) :
    ∃ rest, s = rootStem root ++ rest ∧ atSeparator rest = true ∧
      dropRoot (rootStem root) s = rest := by
  obtain ⟨some, moves, rest, rfl, ends⟩ := has
  refine ⟨rest, rfl, ends, ?_⟩
  have looked : ¬((rootStem root).isEmpty ∨ rootStem root = ".") := by simp [some, moves]
  rw [dropRoot, if_neg looked, Text.after?_append]
  simp [ends]

theorem dropRoot_of_not_hasRoot (has : ¬HasRoot root s) : dropRoot (rootStem root) s = s := by
  unfold dropRoot
  split <;> rename_i looked
  · rfl
  · split
    · rename_i rest found
      refine if_neg fun ends => has ?_
      obtain ⟨some, moves⟩ : rootStem root ≠ [] ∧ rootStem root ≠ ['.'] := by simpa using looked
      exact ⟨some, moves, rest, Text.after?_eq_some found, ends⟩
    · rfl

/-- A root at the start of an id leads somewhere. -/
theorem HasRoot.weight_pos (has : HasRoot root id) (direct : IsDirect id) :
    0 < weight (rootStem root) := by
  obtain ⟨some, moves, rest, rfl, ends⟩ := has
  obtain ⟨first, others, split⟩ := List.exists_cons_of_ne_nil (components_ne_nil (rootStem root))
  have leads : isIdle first = false := by
    cases rest with
    | cons c rest =>
      obtain rfl : c = '/' := by simpa [atSeparator] using ends
      refine isDirect_iff.mp direct first (others ++ components rest) ?_ (by simp)
      rw [components_slash, split, List.cons_append]
    | nil =>
      rw [List.append_nil] at direct
      cases others with
      | cons next others => exact isDirect_iff.mp direct first _ split (by simp)
      | nil =>
        have whole := join_components (rootStem root)
        rw [split] at whole
        obtain rfl : first = rootStem root := by simpa [Text.join] using whole
        simp [isIdle, some, moves]
  have filled : first ≠ [] := by
    rintro rfl
    simp [isIdle] at leads
  have length := List.length_pos_iff.mpr filled
  rw [weight, split, List.filter_cons_of_pos (by simp [leads]), List.flatten_cons,
    List.length_append]
  omega

/-- The id of a path without backslashes. -/
theorem logicalId_of_not_mem (unified : '\\' ∉ path) :
    logicalId root extension path =
      dropExtension extension (dropLeading (dropRoot (rootStem root) path)) := by
  rw [logicalId, unifySeparators_of_not_mem unified]
  rfl

/-- An id that is not stable becomes lighter when an id is derived from it. -/
theorem weight_logicalId_lt (valid : IsExtension extension) (direct : IsDirect id)
    (unified : '\\' ∉ id) (unstable : ¬IsStable root extension id) :
    weight (logicalId root extension id) < weight id := by
  have shorter (s : Text) : weight (dropExtension extension s) ≤ weight s := by
    rcases dropExtension_cases valid.nonempty s with ⟨_, same⟩ | split
    · rw [same]
    · exact (weight_extension valid _).le.trans_eq (congrArg weight split).symm
  rw [logicalId_of_not_mem unified]
  by_cases has : HasRoot root id
  · obtain ⟨rest, whole, ends, left⟩ := dropRoot_of_hasRoot has
    have pos := has.weight_pos direct
    refine (shorter _).trans_lt ?_
    rw [left, weight_dropLeading]
    cases rest with
    | nil =>
      rw [whole, List.append_nil]
      exact pos
    | cons c rest =>
      obtain rfl : c = '/' := by simpa [atSeparator] using ends
      have first : weight ('/' :: rest) = weight rest :=
        (weight_slash [] rest).trans (Nat.zero_add _)
      rw [whole, weight_slash, first]
      omega
  · rw [dropRoot_of_not_hasRoot has, dropLeading_of_isDirect direct]
    rcases dropExtension_cases valid.nonempty id with ⟨bare, _⟩ | split
    · exact absurd ⟨has, bare⟩ unstable
    · exact (weight_extension valid _).trans_eq (congrArg weight split).symm

/-- An id that is derived from an id is the same exactly if the id is stable. -/
theorem logicalId_eq_self_iff (valid : IsExtension extension) (direct : IsDirect id)
    (unified : '\\' ∉ id) : logicalId root extension id = id ↔ IsStable root extension id := by
  constructor
  · intro same
    by_contra unstable
    have lighter := weight_logicalId_lt valid direct unified unstable
    rw [same] at lighter
    exact lighter.false
  · intro stable
    have ends := (dropExtension_cases valid.nonempty id).resolve_right fun split =>
      stable.bare ⟨_, split.symm⟩
    rw [logicalId_of_not_mem unified, dropRoot_of_not_hasRoot stable.rootless,
      dropLeading_of_isDirect direct, ends.2]

/-- No id has a root that begins with a separator. -/
theorem not_hasRoot_of_absolute (absolute : (unifySeparators root).head? = some '/')
    (direct : IsDirect id) : ¬HasRoot root id := by
  rintro ⟨some, _, rest, rfl, _⟩
  obtain ⟨dropped, split⟩ := Text.dropEndWhile_prefix (· == '/') (unifySeparators root)
  obtain ⟨c, more, stem⟩ := List.exists_cons_of_ne_nil some
  rw [← split, ← rootStem, stem, List.cons_append, List.head?_cons] at absolute
  obtain rfl := Option.some.inj absolute
  rw [stem] at direct
  exact direct.1 (List.prefix_append _ _)

/-- An engine and a storage with the same root and extension.  The file of a template is the one
that its id names.  A stable id leads to that file as the path does, and any other id to another
file or to none.  Below a root that begins with a separator it depends on the extension alone. -/
theorem read_templateId {σ : Type} {config : EngineConfig σ} (valid : IsExtension config.extension)
    (path : Text) (files : Files) :
    let id := config.templateId path
    let storage : FileStorage := ⟨files, config.root, config.extension⟩
    (logicalId config.root config.extension id = id ↔
      IsStable config.root config.extension id) ∧
    (IsStable config.root config.extension id →
      storage.path id = storage.path path ∧ storage.read id = storage.read path) ∧
    (∀ file, storage.path path = .ok file →
      file = joinPath config.root (fileOf config.extension id) ∧
      storage.read path = (files.readText file).mapError (FileStorage.failure file) ∧
      ∀ opened, storage.path id = .ok opened →
        (SamePath opened file ↔ IsStable config.root config.extension id)) ∧
    ((unifySeparators config.root).head? = some '/' →
      (IsStable config.root config.extension id ↔ ¬('.' :: config.extension <:+ id))) := by
  intro id storage
  have direct : IsDirect id := isDirect_logicalId
  have unified : '\\' ∉ id := not_mem_logicalId
  have again : logicalId config.root config.extension id = id ↔
      IsStable config.root config.extension id :=
    logicalId_eq_self_iff valid direct unified
  have once (stable : IsStable config.root config.extension id) :
      storage.path id = storage.path path := by
    have same : logicalId storage.root storage.extension id =
        logicalId storage.root storage.extension path := again.mpr stable
    rw [FileStorage.path, FileStorage.path, templatePath, templatePath, same]
  refine ⟨again, fun stable => ⟨once stable, ?_⟩, fun file found => ⟨?_, ?_, ?_⟩,
    fun absolute => ?_⟩
  · rw [FileStorage.read, FileStorage.read, once stable]
  · exact (fileBelow_eq_ok_iff.mp found).2.symm
  · rw [FileStorage.read, found]
  · intro opened read
    constructor
    · intro same
      by_contra unstable
      obtain ⟨h, rfl⟩ := fileBelow_eq_ok_iff.mp found
      obtain ⟨h', rfl⟩ := fileBelow_eq_ok_iff.mp read
      have plain := (h'.samePath_iff valid h).mp same
      have lighter := weight_logicalId_lt valid direct unified unstable
      exact lighter.ne (weight_eq_of_plainComponents plain)
    · intro stable
      rw [once stable, found] at read
      rw [Except.ok.inj read, SamePath]
  · exact ⟨IsStable.bare, fun bare => ⟨not_hasRoot_of_absolute absolute direct, bare⟩⟩

/-- A file below a root that is written with backslashes. -/
theorem read_templateId_backslash :
    IsExtension "imdl" ∧
      logicalId "\\srv" "imdl" (logicalId "\\srv" "imdl" "\\srv\\srv\\page.imdl") =
        logicalId "\\srv" "imdl" "\\srv\\srv\\page.imdl" := by
  have valid : IsExtension "imdl" := ⟨by decide, by decide⟩
  have law := @read_templateId Unit { root := "\\srv" } valid "\\srv\\srv\\page.imdl"
    ⟨fun _ => .error .notFound⟩
  exact ⟨valid, law.1.mpr ((law.2.2.2 (by decide)).mpr (by decide))⟩

/-- A template whose name ends with the extension twice, and one below a directory in the root that
is called like the root. -/
theorem logicalId_logicalId_ne :
    logicalId "views" "imdl" "a.imdl.imdl" = "a.imdl" ∧
      logicalId "views" "imdl" "a.imdl" = "a" ∧
      templatePath "views" "imdl" "a.imdl" = .ok "views/a.imdl" ∧
      joinPath "views" (fileOf "imdl" "a.imdl") = "views/a.imdl.imdl" ∧
      logicalId "views" "imdl" "views/views/a" = "views/a" ∧
      logicalId "views" "imdl" "views/a" = "a" :=
  ⟨rfl, rfl, rfl, rfl, rfl, rfl⟩

end Stencil
