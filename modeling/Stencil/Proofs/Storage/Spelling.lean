import Stencil.Files.Path
import Stencil.Proofs.Storage.Path
import Stencil.Proofs.Text.Lines

/-!
# The ids of one file

A path names the same file with and without the components that stay in place.  An id has none of
them at its start, but may have them between its other components, and so one file has many ids:
two ids have the same file exactly if they are the same once such components are dropped
(`templatePath_ids`).  Among the ids of a file is the one without any, and it is the only one
exactly if the file lies in the root itself and not in a directory below it.
-/

namespace Stencil

variable {root extension path file id id' s t part : Text}

def SamePath (file file' : Text) : Prop := steps file = steps file'

instance (file file' : Text) : Decidable (SamePath file file') :=
  inferInstanceAs (Decidable (steps file = steps file'))

/-- The components of an id without those of its directory that stay in place. -/
def plainComponents (id : Text) : List Text :=
  (components id).dropLast.filter (fun name => !isIdle name) ++ (components id).getLast?.toList

/-- An id without the components of its directory that stay in place. -/
def plainId (id : Text) : Text := Text.join ['/'] (plainComponents id)

/-- What an id is like that has a file. -/
structure HasFile (id : Text) : Prop where
  direct : IsDirect id
  named : id ≠ []
  unified : '\\' ∉ id
  stays : parentDirectory ∉ components id

@[simp] theorem components_ne_nil (s : Text) : components s ≠ [] := Text.splitOn_ne_nil '/' s

theorem components_slash (s t : Text) :
    components (s ++ '/' :: t) = components s ++ components t := by
  simp only [components, Text.splitOn_eq]
  exact List.splitOn_append_cons_self s t

theorem components_slash_slash (s t : Text) :
    components (s ++ '/' :: '/' :: t) = components s ++ [] :: components t := by
  rw [components_slash]
  exact congrArg (components s ++ ·) (components_slash [] t)

theorem components_of_not_mem (plain : '/' ∉ s) : components s = [s] := by
  rw [components, Text.splitOn_eq]
  exact List.splitOn_eq_singleton plain

theorem join_components (s : Text) : Text.join ['/'] (components s) = s :=
  Text.join_splitOn '/' s

/-- A list of names is the components of what it is joined to. -/
theorem components_join {names : List Text} (plain : ∀ name ∈ names, '/' ∉ name)
    (some : names ≠ []) : components (Text.join ['/'] names) = names := by
  rw [components, Text.splitOn_eq]
  exact List.splitOn_intercalate '/' plain some

theorem not_mem_of_mem_components (member : part ∈ components s) : '/' ∉ part :=
  Text.not_mem_of_mem_splitOn member

/-- A path begins with nothing that stays in place if its first component does not, or is all there
is. -/
theorem isDirect_iff :
    IsDirect s ↔
      ∀ first rest, components s = first :: rest → rest ≠ [] → isIdle first = false := by
  constructor
  · intro direct first rest split more
    obtain ⟨next, rest, rfl⟩ := List.exists_cons_of_ne_nil more
    have whole := join_components s
    rw [split, Text.join_cons_cons, List.append_assoc] at whole
    by_contra idle
    rw [← whole] at direct
    rcases (by simpa [isIdle, or_iff_not_imp_left] using idle : first = [] ∨ first = ['.'])
      with rfl | rfl
    · exact direct.1 (List.prefix_append _ _)
    · exact direct.2 (List.prefix_append _ _)
  · refine fun moves => ⟨?_, ?_⟩ <;> rintro ⟨rest, rfl⟩
    · exact absurd (moves [] _ (components_slash [] rest) (components_ne_nil rest)) (by decide)
    · exact absurd (moves ['.'] _ (components_slash ['.'] rest) (components_ne_nil rest))
        (by decide)

/-- Where a path begins does not depend on what is behind its first slash. -/
theorem start?_slash (s t : Text) : Step.start? (s ++ '/' :: t) = Step.start? (s ++ ['/']) := by
  have same : pathStart (s ++ '/' :: t) = pathStart (s ++ ['/']) := by
    unfold pathStart
    cases s with
    | nil => rfl
    | cons c s => cases s <;> grind [atSeparator]
  rw [Step.start?, Step.start?, same]

/-- A way that begins with nothing that stays in place begins with its first component. -/
theorem IsDirect.start?_eq (direct : IsDirect s) (longer : s ≠ ['.']) : Step.start? s = none := by
  have first : pathStart s = [] := by
    unfold pathStart
    split
    · exact absurd (List.prefix_append _ _) direct.1
    · rename_i rest
      cases rest with
      | nil => exact absurd rfl longer
      | cons c rest =>
        refine if_neg fun ends => direct.2 ?_
        obtain rfl : c = '/' := by simpa [atSeparator] using ends
        exact List.prefix_append _ _
    · rfl
  rw [Step.start?, first]

/-- The steps to a file are those to the root and then those of the way from there. -/
theorem exists_steps_joinPath (root : Text) : ∃ front, ∀ way, IsDirect way → way ≠ ['.'] →
    steps (joinPath root way) = front ++ steps way := by
  have behind (s : Text) : ∃ front, ∀ way, IsDirect way → way ≠ ['.'] →
      steps (s ++ '/' :: way) = front ++ steps way := by
    refine ⟨(Step.start? (s ++ ['/'])).toList ++ (components s).filterMap Step.ofComponent?, ?_⟩
    intro way direct longer
    simp [steps, start?_slash, components_slash, direct.start?_eq longer]
  by_cases empty : root = []
  · subst empty
    exact ⟨[], fun way direct _ => by simp [joinPath, direct.head_ne]⟩
  by_cases ends : root.getLast? = some '/'
  · obtain ⟨above, rfl⟩ := List.getLast?_eq_some_iff.mp ends
    obtain ⟨front, steps_eq⟩ := behind above
    refine ⟨front, fun way direct longer => ?_⟩
    rw [← steps_eq way direct longer, joinPath, if_neg direct.head_ne, if_pos (.inr ends),
      List.append_assoc]
    rfl
  · obtain ⟨front, steps_eq⟩ := behind root
    refine ⟨front, fun way direct longer => ?_⟩
    rw [← steps_eq way direct longer, joinPath, if_neg direct.head_ne,
      if_neg (by simp [empty, ends]), List.append_assoc]
    rfl

/-- A name with an extension does not stay in place. -/
theorem IsExtension.moves (valid : IsExtension extension) (name : Text) :
    isIdle (name ++ '.' :: extension) = false := by
  obtain ⟨c, more, rfl⟩ := List.exists_cons_of_ne_nil valid.nonempty
  cases name <;> simp [isIdle]

/-- Components none of which leads out are steps unless they stay in place. -/
theorem filterMap_ofComponent? {names : List Text} (stays : parentDirectory ∉ names) :
    names.filterMap Step.ofComponent? =
      (names.filter fun name => !isIdle name).map Step.name := by
  induction names with
  | nil => rfl
  | cons name names ih =>
    obtain ⟨other, stays⟩ := not_or.mp (fun h => stays (List.mem_cons.mpr h))
    rw [List.filterMap_cons, List.filter_cons, ih stays, Step.ofComponent?]
    cases isIdle name <;> simp [Ne.symm other]

theorem plainComponents_of_split {parts : List Text} {last : Text}
    (split : components id = parts ++ [last]) :
    plainComponents id = parts.filter (fun name => !isIdle name) ++ [last] := by
  simp [plainComponents, split]

theorem exists_components (id : Text) : ∃ parts last, components id = parts ++ [last] :=
  ⟨_, _, (List.dropLast_append_getLast (components_ne_nil id)).symm⟩

theorem mem_of_mem_plainComponents {name : Text} (member : name ∈ plainComponents id) :
    name ∈ components id := by
  obtain ⟨parts, last, split⟩ := exists_components id
  rw [plainComponents_of_split split] at member
  rw [split]
  rcases List.mem_append.mp member with kept | ends
  · exact List.mem_append_left _ (List.mem_of_mem_filter kept)
  · exact List.mem_append_right _ ends

/-- Only an id of one component has one plain component. -/
theorem IsDirect.eq_of_plainComponents (direct : IsDirect id) {name : Text}
    (single : plainComponents id = [name]) : id = name := by
  obtain ⟨parts, last, split⟩ := exists_components id
  rw [plainComponents_of_split split] at single
  obtain ⟨gone, same⟩ := (List.append_eq_singleton_iff.mp single).resolve_right (by simp)
  obtain rfl := List.singleton_inj.mp same
  cases parts with
  | nil =>
    rw [← join_components id, split]
    simp [Text.join]
  | cons first parts =>
    have moves := isDirect_iff.mp direct first _ split (by simp)
    simp [moves] at gone

namespace HasFile

/-- The way to a file is longer than a period. -/
theorem fileOf_ne (h : HasFile id) : fileOf extension id ≠ ['.'] := by
  intro same
  have length := congrArg List.length same
  have filled := List.length_pos_iff.mpr h.named
  simp only [fileOf, List.length_append, List.length_singleton] at length
  omega

/-- The way to a file takes the plain components of the id, the last one with the extension. -/
theorem exists_steps (valid : IsExtension extension) (h : HasFile id) :
    ∃ names last, plainComponents id = names ++ [last] ∧
      steps (fileOf extension id) =
        names.map Step.name ++ [Step.name (last ++ '.' :: extension)] := by
  have direct : IsDirect (fileOf extension id) := h.direct.fileOf h.named
  have plain : '/' ∉ '.' :: extension := by simp [valid.not_mem.1]
  have way : fileOf extension id = id ++ '.' :: extension := by simp [fileOf]
  obtain ⟨parts, last, whole, longer⟩ := components_append plain id
  refine ⟨_, last, plainComponents_of_split whole, ?_⟩
  have stays := (leadsBelow_iff direct.head_ne).mp
    (leadsBelow_fileOf valid h.direct h.named h.stays)
  rw [steps, direct.start?_eq h.fileOf_ne, filterMap_ofComponent? stays, way, longer]
  simp [valid.moves last]

/-- The ways to two files are the same exactly if the ids have the same plain components. -/
theorem steps_eq_iff (valid : IsExtension extension) (h : HasFile id) (h' : HasFile id') :
    steps (fileOf extension id) = steps (fileOf extension id') ↔
      plainComponents id = plainComponents id' := by
  obtain ⟨names, last, plain, way⟩ := h.exists_steps valid
  obtain ⟨names', last', plain', way'⟩ := h'.exists_steps valid
  have injective : Function.Injective Step.name := fun _ _ => Step.name.inj
  rw [way, way', plain, plain']
  simp only [List.append_singleton_inj, injective.list_map.eq_iff, Step.name.injEq,
    List.append_cancel_right_eq]

theorem samePath_iff (valid : IsExtension extension) (h : HasFile id) (h' : HasFile id') :
    SamePath (joinPath root (fileOf extension id)) (joinPath root (fileOf extension id')) ↔
      plainComponents id = plainComponents id' := by
  obtain ⟨front, steps_eq⟩ := exists_steps_joinPath root
  rw [SamePath, steps_eq _ (h.direct.fileOf h.named) h.fileOf_ne,
    steps_eq _ (h'.direct.fileOf h'.named) h'.fileOf_ne, List.append_cancel_left_eq,
    h.steps_eq_iff valid h']

end HasFile

/-- The components of a plain id are its own. -/
theorem components_plainId (id : Text) : components (plainId id) = plainComponents id := by
  refine components_join (fun name member => ?_) ?_
  · exact not_mem_of_mem_components (mem_of_mem_plainComponents member)
  · obtain ⟨parts, last, split⟩ := exists_components id
    simp [plainComponents_of_split split]

theorem plainComponents_plainId (id : Text) :
    plainComponents (plainId id) = plainComponents id := by
  obtain ⟨parts, last, split⟩ := exists_components id
  have own := plainComponents_of_split split
  rw [plainComponents_of_split ((components_plainId id).trans own), own, List.filter_filter]
  simp

/-- A slash behind a slash makes no difference to the plain components. -/
theorem plainComponents_slash_slash (s t : Text) :
    plainComponents (s ++ '/' :: '/' :: t) = plainComponents (s ++ '/' :: t) := by
  obtain ⟨parts, last, split⟩ := exists_components t
  have whole : components (s ++ '/' :: t) = components s ++ parts ++ [last] := by
    rw [components_slash, split, List.append_assoc]
  have longer : components (s ++ '/' :: '/' :: t) = components s ++ [] :: parts ++ [last] := by
    rw [components_slash_slash, split, List.append_assoc, List.cons_append]
  rw [plainComponents_of_split whole, plainComponents_of_split longer]
  simp [isIdle]

theorem plainId_eq_iff : plainId id = plainId id' ↔ plainComponents id = plainComponents id' := by
  constructor
  · intro same
    rw [← components_plainId, same, components_plainId]
  · intro same
    rw [plainId, same, plainId]

/-- There is a file exactly for the ids that have one. -/
theorem fileBelow_eq_ok_iff {Place : Type} {shown : Text} {place : Text → Place} {file : Place} :
    fileBelow shown place extension path = .ok file ↔
      HasFile (logicalId shown extension path) ∧
        place (fileOf extension (logicalId shown extension path)) = file := by
  rw [fileBelow]
  split <;> rename_i refused
  · simp only [reduceCtorEq, false_iff, not_and]
    intro h
    rcases refused with empty | leaves
    · exact absurd (List.isEmpty_iff.mp empty) h.named
    · exact absurd leaves h.stays
  · rw [not_or] at refused
    have h : HasFile (logicalId shown extension path) :=
      ⟨isDirect_logicalId, by simpa using refused.1, not_mem_logicalId, refused.2⟩
    simp [h]

namespace HasFile

/-- The file of an id has that id. -/
theorem logicalId_file (valid : IsExtension extension) (h : HasFile id) (root : Text) :
    logicalId root extension (joinPath root (fileOf extension id)) = id := by
  have direct : IsDirect (fileOf extension id) := h.direct.fileOf h.named
  have plain : '\\' ∉ fileOf extension id := by simp [fileOf, valid.not_mem.2, h.unified]
  obtain ⟨slashes, all, split, parted⟩ := exists_joinPath root direct.head_ne
  rw [unifySeparators_of_not_mem plain] at split
  rw [logicalId, split, dropLeading_dropRoot all parted direct]
  exact dropExtension_append valid.nonempty id

theorem templatePath_file (valid : IsExtension extension) (h : HasFile id) (root : Text) :
    templatePath root extension (joinPath root (fileOf extension id)) =
      .ok (joinPath root (fileOf extension id)) := by
  rw [templatePath_eq_fileBelow, fileBelow_eq_ok_iff, h.logicalId_file valid]
  exact ⟨h, rfl⟩

end HasFile

/-- Without what stays in place, an id still has a file. -/
theorem hasFile_plainId (h : HasFile id) : HasFile (plainId id) where
  direct := by
    refine isDirect_iff.mpr fun first rest split more => ?_
    obtain ⟨parts, last, whole⟩ := exists_components id
    rw [components_plainId, plainComponents_of_split whole] at split
    cases kept : parts.filter fun name => !isIdle name with
    | nil =>
      rw [kept] at split
      exact absurd (List.cons.inj split).2.symm more
    | cons next others =>
      rw [kept] at split
      obtain rfl : next = first := (List.cons.inj split).1
      have member : next ∈ parts.filter fun name => !isIdle name := kept ▸ List.mem_cons_self
      simpa using (List.mem_filter.mp member).2
  named := fun empty => by
    have single : plainComponents id = [[]] := by
      rw [← components_plainId, empty]
      rfl
    exact h.named (h.direct.eq_of_plainComponents single)
  unified := fun member => by
    obtain ⟨left, right, split⟩ := List.append_of_mem member
    have inside : ['\\'] <:+: plainId id := ⟨left, right, by simp [split]⟩
    obtain ⟨name, kept, inside⟩ := Text.exists_infix_of_join inside (by simp) (by simp)
    have within : name <:+: Text.join ['/'] (components id) :=
      Text.infix_join (mem_of_mem_plainComponents kept)
    rw [join_components] at within
    exact h.unified ((inside.trans within).subset List.mem_cons_self)
  stays := by
    rw [components_plainId]
    exact fun member => h.stays (mem_of_mem_plainComponents member)

/-- With one more slash behind a slash, an id still has a file. -/
theorem hasFile_slash_slash (h : HasFile (s ++ '/' :: t)) : HasFile (s ++ '/' :: '/' :: t) where
  direct := by
    refine isDirect_iff.mpr fun first rest split _ => ?_
    obtain ⟨own, others, begins⟩ := List.exists_cons_of_ne_nil (components_ne_nil s)
    rw [components_slash_slash, begins] at split
    obtain rfl : own = first := (List.cons.inj split).1
    refine isDirect_iff.mp h.direct own (others ++ components t) ?_ (by simp)
    rw [components_slash, begins, List.cons_append]
  named := by simp
  unified := by simpa using h.unified
  stays := by
    have stays := h.stays
    rw [components_slash] at stays
    rw [components_slash_slash]
    simpa [parentDirectory] using stays

/-- The paths of one file have ids that differ in components that stay in place only, and there is
one that has the id without any.  All of them have the same id exactly if the file lies in the root
itself.  What makes two files the same does not depend on the root, which need not be text. -/
theorem templatePath_ids {c : Config} (valid : c.fault? = none) {root path file : Text}
    (found : templatePath root c.extension path = .ok file) :
    (∀ path' file', templatePath root c.extension path' = .ok file' →
      (SamePath file file' ↔
        plainId (logicalId root c.extension path) = plainId (logicalId root c.extension path'))) ∧
    (∃ path' file', templatePath root c.extension path' = .ok file' ∧ SamePath file file' ∧
      logicalId root c.extension path' = plainId (logicalId root c.extension path)) ∧
    ((∀ path' file', templatePath root c.extension path' = .ok file' → SamePath file file' →
      logicalId root c.extension path = logicalId root c.extension path') ↔
        '/' ∉ logicalId root c.extension path) ∧
    ∀ (shown : Text) (front : List Step) (path path' : Text) (way way' : List Step),
      fileBelow shown (fun way => front ++ steps way) c.extension path = .ok way →
      fileBelow shown (fun way => front ++ steps way) c.extension path' = .ok way' →
      (way = way' ↔ plainId (logicalId shown c.extension path) =
        plainId (logicalId shown c.extension path')) := by
  have valid : IsExtension c.extension := isExtension_iff.mpr ⟨c, rfl, valid⟩
  rw [templatePath_eq_fileBelow] at found
  obtain ⟨h, rfl⟩ := fileBelow_eq_ok_iff.mp found
  have same (path' file' : Text) (found' : templatePath root c.extension path' = .ok file') :
      SamePath (joinPath root (fileOf c.extension (logicalId root c.extension path))) file' ↔
        plainComponents (logicalId root c.extension path) =
          plainComponents (logicalId root c.extension path') := by
    rw [templatePath_eq_fileBelow] at found'
    obtain ⟨h', rfl⟩ := fileBelow_eq_ok_iff.mp found'
    exact h.samePath_iff valid h'
  generalize logicalId root c.extension path = id at h same
  -- Any id with a file is the id of a path, namely of the file.
  have other {id' : Text} (h' : HasFile id') (plain : plainComponents id = plainComponents id') :
      ∃ path' file', templatePath root c.extension path' = .ok file' ∧
        SamePath (joinPath root (fileOf c.extension id)) file' ∧
          logicalId root c.extension path' = id' :=
    ⟨_, _, h'.templatePath_file valid root, (h.samePath_iff valid h').mpr plain,
      h'.logicalId_file valid root⟩
  refine ⟨?_, ?_, ⟨?_, ?_⟩, ?_⟩
  · intro path' file' found'
    rw [plainId_eq_iff, same path' file' found']
  · exact other (hasFile_plainId h) (plainComponents_plainId id).symm
  · intro alike member
    obtain ⟨front, rest, rfl⟩ := List.append_of_mem member
    obtain ⟨path', file', found', one, has⟩ :=
      other (hasFile_slash_slash h) (plainComponents_slash_slash front rest).symm
    have equal := (alike path' file' found' one).trans has
    simp at equal
  · intro single path' file' found' one
    have plain := (same path' file' found').mp one
    rw [@plainComponents_of_split id [] id (components_of_not_mem single)] at plain
    exact (isDirect_logicalId.eq_of_plainComponents plain.symm).symm
  · intro shown front path path' way way' found found'
    obtain ⟨h, rfl⟩ := fileBelow_eq_ok_iff.mp found
    obtain ⟨h', rfl⟩ := fileBelow_eq_ok_iff.mp found'
    rw [List.append_cancel_left_eq, h.steps_eq_iff valid h', plainId_eq_iff]

/-- A post that is addressed with a slash before and a period inside, and with a slash too many. -/
theorem templatePath_ids_post :
    templatePath "views" "imdl" "/blog/./post" = .ok "views/blog/./post.imdl" ∧
      templatePath "views" "imdl" "blog//post.imdl" = .ok "views/blog//post.imdl" ∧
      SamePath "views/blog/./post.imdl" "views/blog//post.imdl" :=
  ⟨rfl, rfl, ((@templatePath_ids { directory := [], extension := "imdl" } (by decide) "views"
    "/blog/./post" _ rfl).1 "blog//post.imdl" _ rfl).mpr (by decide)⟩

/-- One file under two ids. -/
theorem logicalId_ne_of_samePath :
    templatePath "views" "imdl" "blog/post" = .ok "views/blog/post.imdl" ∧
      templatePath "views" "imdl" "blog//post" = .ok "views/blog//post.imdl" ∧
      SamePath "views/blog/post.imdl" "views/blog//post.imdl" ∧
      logicalId "views" "imdl" "blog/post" ≠ logicalId "views" "imdl" "blog//post" :=
  ⟨rfl, rfl, by decide, by decide⟩

end Stencil
