import Stencil.Proofs.Block.Tokens
import Stencil.Proofs.Inline.Code
import Stencil.Proofs.Tag.Numbering
import Stencil.Template.Compile

/-!
# No element is lost

Every element that is taken out of a source has its placeholder in the compiled page, wherever in
the shorthand it stood (`compile_complete`).  Each stage keeps tokens, so the transform does
(`infix_transform`), and extraction and the scripts that are added leave a placeholder for every
element of the table.

Back quotes, forms and the characters of stand-ins are left out: code is shown with its brackets
escaped, a form takes the texts of its controls apart, and stand-ins of an author are dropped.
-/

namespace Stencil

variable {s : Text} {k : TagKind} {n : Nat}

/-- A text with nothing in which a placeholder may be lost. -/
structure KeepsPlaceholders (s : Text) : Prop where
  /-- There is no code between back quotes. -/
  plain : '\x60' ∉ s
  /-- There is no form. -/
  formless : ¬"<form".toList <:+: Text.lower s
  /-- There is no character of a stand-in. -/
  clear : ∀ c ∈ s, c < '\ue000' ∨ '\ue005' < c

namespace KeepsPlaceholders

theorem not_isReserved (keeps : KeepsPlaceholders s) : ∀ c ∈ s, Code.isReserved c = false :=
  IsClear.not_isReserved keeps.clear

/-- No element of a form comes up when code is taken out. -/
theorem formless_elementsTaken (keeps : KeepsPlaceholders s) :
    ¬('<' :: "form".toList <:+: (Code.elementsTaken s).text.map foldLetter) := by
  intro h
  obtain ⟨u, inside, folded⟩ := List.infix_map_iff.mp h
  have letters : ∀ c ∈ u, foldLetter c ∈ "<form".toList := fun c member => by
    have image := List.mem_map_of_mem (f := foldLetter) member
    rwa [← folded] at image
  have same : Text.lower u = "<form" :=
    lower_eq_of_map_foldLetter (by decide) (by decide) folded.symm
  have first : ∀ c ∈ u.head?, ∀ kind ∈ allStandIns, ∀ i, c ∉ kind.token i := by
    obtain ⟨c, rest, rfl, bracket, _⟩ := List.map_eq_cons_iff.mp folded.symm
    obtain rfl := eq_of_foldLetter_eq bracket (by decide)
    intro c same kind known i
    obtain rfl := Option.some.inj same
    exact StandIn.not_mem_token known (by decide) (by decide) (by decide) i
  have absent : ∀ kind ∈ allStandIns, kind.opening ∉ u := by
    have outside : ∀ kind ∈ allStandIns, foldLetter kind.opening ∉ "<form".toList := by decide
    exact fun kind known member => outside kind known (letters _ member)
  have inPres := StandIn.infix_of_place (absent Code.inline (by decide))
    (fun c member => first c member Code.inline (by decide)) inside
  rw [Text.sources_scan] at inPres
  have inSource := StandIn.infix_of_place (absent Code.block (by decide))
    (fun c member => first c member Code.block (by decide)) inPres
  rw [Text.sources_scan] at inSource
  exact keeps.formless (same ▸ inSource.map Char.toLower)

end KeepsPlaceholders

theorem forms_of_formless (formless : ¬('<' :: "form".toList <:+: s.map foldLetter)) :
    forms s = s := by
  rw [forms, Text.substitute, Element.scan_eq_plain formless, Text.ofPieces_map_plain]

/-- The shorthand keeps the placeholders of elements. -/
theorem infix_transform (keeps : KeepsPlaceholders s) (fits : s.length ≤ Text.maxIndex)
    (h : k.placeholder n <:+: s) : k.placeholder n <:+: (transform s).html := by
  have clear := keeps.not_isReserved
  refine Code.infix_restore (f := fun s => fromEmbeds (beforeEmbeds s)) clear keeps.plain fits
    (fun w token calm inside => ?_) h
  rw [Code.protect_eq clear keeps.plain] at inside ⊢
  have few := Code.length_elementsTaken s
  have emphasized := Emphasis.infix_emphasize token calm (by omega) inside
  rw [beforeEmbeds, forms_of_formless keeps.formless_elementsTaken]
  have lines :=
    Line.infix_rules token (Line.infix_quotations token (Line.infix_headings token emphasized))
  have inlined := infix_bareUrls token (infix_links token (infix_embeds token lines))
  exact infix_paragraphs token (infix_tables token (infix_itemLists token inlined))

/-- Whether every element of the table has its placeholder in the skeleton. -/
def Artifact.Complete (a : Artifact) : Prop :=
  ∀ k n, 1 ≤ n → n ≤ a.tags.count k → k.placeholder n <:+: a.skeleton

/-- Extraction leaves a placeholder for every element. -/
theorem complete_extract (hooks : TagHooks) (source : Text) :
    Artifact.Complete ⟨(extract hooks source).1, (extract hooks source).2⟩ := by
  intro k n positive counted
  rw [extract, Captured.collect_eq_weave] at counted ⊢
  have numbered : (k, n) ∈ Captured.numbers hooks .empty
      (Text.foundValues (Text.scan Captured.read source)) := by
    refine Captured.mem_numbers_of_le ?_ counted
    rwa [TagTable.count, TagTable.entries_empty]
  refine Text.infix_weave (List.mem_map_of_mem numbered) ?_
  simp [Text.length_around]

/-- What inserting a placeholder makes of a page: it goes between two parts of it, of which the
second is nothing or begins with the tag that ends the page. -/
theorem insertPlaceholder_eq (html placeholder : Text) :
    ∃ before after, html = before ++ after ∧ (∀ c ∈ after.head?, c = '<') ∧
      ∃ gap gap', insertPlaceholder html placeholder =
        before ++ gap ++ placeholder ++ gap' ++ after := by
  unfold insertPlaceholder
  split
  · rename_i before after _ split
    have first : ∀ c ∈ (pageEnd ++ after).head?, c = '<' := fun c same =>
      (Option.some.inj same).symm
    refine ⟨before, pageEnd ++ after, ?_, first, [], ['\n'], by simp⟩
    rw [Text.splitAtLast?_eq_some split, List.append_assoc]
  · split
    · exact ⟨html, [], by simp, by simp, [], [], by simp⟩
    · exact ⟨html, [], by simp, by simp, ['\n'], [], by simp⟩

theorem infix_insertPlaceholder_self (html placeholder : Text) :
    placeholder <:+: insertPlaceholder html placeholder := by
  obtain ⟨before, after, _, _, gap, gap', inserted⟩ := insertPlaceholder_eq html placeholder
  rw [inserted]
  exact ⟨before ++ gap, gap' ++ after, by simp⟩

/-- A placeholder is not lost when another one is put into the page. -/
theorem infix_insertPlaceholder {html : Text} (placeholder : Text)
    (h : k.placeholder n <:+: html) : k.placeholder n <:+: insertPlaceholder html placeholder := by
  obtain ⟨before, after, rfl, bracket, gap, gap', inserted⟩ := insertPlaceholder_eq html placeholder
  rw [inserted]
  have token : IsToken (k.placeholder n) := .placeholder k n
  have inBefore (h : k.placeholder n <:+: before) :
      k.placeholder n <:+: before ++ gap ++ placeholder ++ gap' ++ after := by
    rw [List.append_assoc, List.append_assoc, List.append_assoc]
    exact Text.infix_append_of_left h _
  rcases List.infix_append_iff.mp h with h | h | ⟨front, back, split, ends, begins⟩
  · exact inBefore h
  · exact Text.infix_append_of_right _ h
  · cases back with
    | nil => exact inBefore (by rw [split, List.append_nil]; exact ends.isInfix)
    | cons c back =>
      cases front with
      | nil => exact Text.infix_append_of_right _ (split ▸ begins.isInfix)
      | cons d front =>
        -- The second part would begin inside the placeholder, where there is no bracket.
        have some : after ≠ [] := List.IsPrefix.ne_nil begins (List.cons_ne_nil c back)
        obtain ⟨e, rest, rfl⟩ := List.exists_cons_of_ne_nil some
        obtain ⟨rfl, _⟩ := List.cons_prefix_cons.mp begins
        obtain rfl := bracket c rfl
        have inside : '<' ∈ (k.placeholder n).tail := by rw [split]; simp
        exact absurd inside (token.not_mem_tail (by decide) (by decide))

/-- Adding a script keeps an artifact complete, since its placeholder is put in along with it. -/
theorem Artifact.Complete.addScript {a : Artifact} (complete : a.Complete) (url : Option Text)
    (script : ClientScript) : (a.addScript url script).Complete := by
  intro k n positive counted
  have pushed := TagTable.count_push a.tags .script k (script.element url)
  change n ≤ (a.tags.push .script (script.element url)).count k at counted
  by_cases before : n ≤ a.tags.count k
  · exact infix_insertPlaceholder _ (complete k n positive before)
  · by_cases same : k = .script
    · subst same
      rw [if_pos rfl] at pushed
      have number : n = (a.tags.push .script (script.element url)).count .script := by omega
      rw [number]
      exact infix_insertPlaceholder_self _ _
    · rw [if_neg same] at pushed
      omega

/-- Every element of a compiled page has its placeholder in the skeleton.  That the text in which
the placeholders stand fits in memory is all that `fits` asks. -/
theorem compile_complete (options : CompileOptions) (source : Text)
    (keeps : KeepsPlaceholders (extract options.hooks (Source.normalize source)).1)
    (fits : (extract options.hooks (Source.normalize source)).1.length ≤ Text.maxIndex) :
    (compile options source).Complete := by
  have extracted := complete_extract options.hooks (Source.normalize source)
  rw [compile]
  generalize extract options.hooks (Source.normalize source) = captured at keeps fits extracted ⊢
  obtain ⟨skeleton, tags⟩ := captured
  have transformed : Artifact.Complete ⟨(transform skeleton).html, tags⟩ :=
    fun k n positive counted => infix_transform keeps fits (extracted k n positive counted)
  have added (scripts : List ClientScript) {a : Artifact} (complete : a.Complete) :
      (scripts.foldl (Artifact.addScript options.assetsUrl) a).Complete := by
    induction scripts generalizing a with
    | nil => exact complete
    | cons script scripts ih => exact ih (complete.addScript _ script)
  exact added _ transformed

/-- A script in an emphasized cell of a table and one in the text of a link are both kept. -/
theorem compile_complete_tableAndLink :
    TagKind.script.placeholder 2 <:+:
      (compile {} "| *<script>a</script>* | b |\n| c | d |\n[<script>e</script>](f)").skeleton :=
  compile_complete {} _
    ⟨by decide +kernel, by decide +kernel, by decide +kernel⟩ (by decide +kernel)
    .script 2 (by decide) (by decide +kernel)

end Stencil
