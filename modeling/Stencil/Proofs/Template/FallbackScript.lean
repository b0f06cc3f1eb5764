import Stencil.Proofs.Inline.SourceList
import Stencil.Template.Compile

/-!
# The script for frames with several sources

A page needs a script in the browser if a frame in it lists sources that it does not show.  The
embeds are replaced in the middle of the stages, and what they need is settled at the end: the
script becomes the last element of its kind, and its placeholder is put into the finished page at
one place (`PlacedIn`).  A page without such a frame is left as it is (`compile_longFrames`).
-/

namespace Stencil

variable {html placeholder : Text}

section Placing

theorem Text.splitAtLast?_isSome {mark s : Text} (inside : mark <:+: s) :
    (Text.splitAtLast? mark s).isSome = true := by
  rw [Text.splitAtLast?, Option.isSome_map]
  exact Text.splitAtFirst?_isSome_iff.mpr (List.reverse_infix.mpr inside)

/-- No occurrence of a mark is behind the last one. -/
theorem Text.length_le_of_splitAtLast? {mark s before after before' after' : Text}
    (split : Text.splitAtLast? mark s = some (before, after))
    (occurs : s = before' ++ mark ++ after') :
    before'.length ≤ before.length := by
  have whole := congrArg List.length (Text.splitAtLast?_eq_some split)
  obtain ⟨⟨behind, ahead⟩, turned, same⟩ := Option.map_eq_some_iff.mp split
  obtain ⟨rfl, rfl⟩ := Prod.mk.inj same
  have first := (Text.splitAtFirst?_eq_some_iff.mp turned).2 after'.reverse before'.reverse
    (by rw [occurs]; simp)
  rw [occurs] at whole
  simp only [List.length_append, List.length_reverse] at whole first ⊢
  omega

/-- Whether a placeholder is put into a page at one place: before the last tag that ends the page,
if nothing but white space follows the tag, and on a line of its own at the end otherwise. -/
inductive PlacedIn (html placeholder : Text) : Text → Prop
  | beforeEnd {before after : Text} (ends : ("</html>" : Text) <:+ Text.trimEnd html)
      (split : html = before ++ ("</html>" : Text) ++ after)
      (last : ∀ before' after', html = before' ++ ("</html>" : Text) ++ after' →
        before'.length ≤ before.length) :
      PlacedIn html placeholder (before ++ placeholder ++ ['\n'] ++ ("</html>" : Text) ++ after)
  | onLastLine (unended : ¬("</html>" : Text) <:+ Text.trimEnd html)
      (fresh : html = [] ∨ html.getLast? = some '\n') :
      PlacedIn html placeholder (html ++ placeholder)
  | onNewLine (unended : ¬("</html>" : Text) <:+ Text.trimEnd html)
      (filled : html ≠ [] ∧ html.getLast? ≠ some '\n') :
      PlacedIn html placeholder (html ++ '\n' :: placeholder)

/-- The placeholder of a script comes to the one place that there is for it. -/
theorem placedIn_insertPlaceholder (html placeholder : Text) :
    PlacedIn html placeholder (insertPlaceholder html placeholder) := by
  by_cases ends : pageEnd <:+ Text.trimEnd html
  · have inside : pageEnd <:+: html :=
      ends.isInfix.trans (Text.dropEndWhile_prefix isSpace html).isInfix
    obtain ⟨⟨before, after⟩, split⟩ := Option.isSome_iff_exists.mp (Text.splitAtLast?_isSome inside)
    have ended : Text.endsWith (Text.trimEnd html) pageEnd = true :=
      List.isSuffixOf_iff_suffix.mpr ends
    rw [insertPlaceholder, ended, split]
    exact .beforeEnd ends (Text.splitAtLast?_eq_some split)
      fun _ _ => Text.length_le_of_splitAtLast? split
  · have unended : Text.endsWith (Text.trimEnd html) pageEnd = false := by
      rw [Bool.eq_false_iff]
      exact fun ended => ends (List.isSuffixOf_iff_suffix.mp ended)
    rw [insertPlaceholder, unended]
    dsimp only
    split
    · next fresh => exact .onLastLine ends (by simpa using fresh)
    · next filled =>
      rw [List.append_assoc]
      exact .onNewLine ends (by simpa using filled)

/-- A script that is added is the last element of its kind, and its placeholder is put into the
page. -/
theorem Artifact.addScript_spec (url : Option Text) (a : Artifact) (script : ClientScript) :
    (a.addScript url script).tags = a.tags.push .script (script.element url) ∧
      (a.addScript url script).tags.count .script = a.tags.count .script + 1 ∧
      (a.addScript url script).tags.get? .script (a.tags.count .script + 1) =
        some (script.element url) ∧
      PlacedIn a.skeleton (TagKind.script.placeholder (a.tags.count .script + 1))
        (a.addScript url script).skeleton := by
  rw [Artifact.addScript]
  generalize script.element url = element
  have counted : (a.tags.push .script element).count .script = a.tags.count .script + 1 := by
    rw [TagTable.count_push, if_pos rfl]
  have last := TagTable.get?_push_self a.tags .script element
  rw [counted] at last
  dsimp only
  rw [counted]
  exact ⟨rfl, rfl, last, placedIn_insertPlaceholder _ _⟩

end Placing

/-- Compiling is extracting, transforming, and adding the scripts that the embeds need. -/
theorem compile_eq (options : CompileOptions) (source : Text) :
    compile options source =
      (embedScripts (beforeEmbeds (Code.protect
        (extract options.hooks (Source.normalize source)).1).text)).foldl
        (Artifact.addScript options.assetsUrl)
        ⟨(transform (extract options.hooks (Source.normalize source)).1).html,
          (extract options.hooks (Source.normalize source)).2⟩ := by
  rw [compile]
  generalize extract options.hooks (Source.normalize source) = taken
  obtain ⟨skeleton, tags⟩ := taken
  have scripts : (transform skeleton).scripts =
      embedScripts (beforeEmbeds (Code.protect skeleton).text) := by
    rw [transform]
  dsimp only
  rw [scripts]

/-- A page gets the script for frames as its last one, and a placeholder for it, if and only if one
of its frames is given several sources.  Each of these frames is written with a list of the sources
that it does not show. -/
theorem compile_longFrames (options : CompileOptions) (source : Text) :
    let taken := extract options.hooks (Source.normalize source)
    let lines := beforeEmbeds (Code.protect taken.1).text
    let html := (transform taken.1).html
    let next := taken.2.count .script + 1
    let script := ClientScript.frameFallback.element options.assetsUrl
    ((∃ e ∈ Text.finds Embed.read lines, e.IsLongFrame) →
      (compile options source).tags = taken.2.push .script script ∧
        (compile options source).tags.count .script = next ∧
        (compile options source).tags.get? .script next = some script ∧
        PlacedIn html (TagKind.script.placeholder next) (compile options source).skeleton) ∧
    ((¬∃ e ∈ Text.finds Embed.read lines, e.IsLongFrame) →
      compile options source = ⟨html, taken.2⟩) ∧
    ∀ e ∈ Text.finds Embed.read lines, e.IsLongFrame →
      ∃ first others shown list, e.writtenSources = first :: others ∧
        e.html? = some (Embed.longFrame shown list e.attributeText) ∧
        Embed.longFrame shown list e.attributeText <:+: embeds lines ∧
        shown = Text.replace ['"'] "&quot;" first ∧ '"' ∉ shown ∧ '\'' ∉ list ∧
        ((∀ source ∈ others, ¬("&#39;" : Text) <:+: source) →
          Json.parse? (Text.replace "&#39;" ['\''] list) = some
            (.array (others.map fun source => .string (Text.replace ['"'] "&quot;" source)))) := by
  rw [compile_eq]
  generalize extract options.hooks (Source.normalize source) = taken
  intro taken lines html next script
  refine ⟨fun long => ?_, fun none => ?_, fun e => exists_html_of_mem_finds⟩
  · rw [embedScripts_of_longFrame long]
    exact Artifact.addScript_spec options.assetsUrl ⟨html, taken.2⟩ .frameFallback
  · rw [embedScripts_of_noLongFrame none]
    rfl

/-- Behind a script of the page itself, the one for a frame with two sources is the second. -/
theorem compile_longFrames_twoSources :
    ∃ e ∈ Text.finds Embed.read (beforeEmbeds (Code.protect (extract .none
        (Source.normalize "<script>x</script>![embed](/a\n/b)")).1).text),
      e.IsLongFrame ∧
        (compile {} "<script>x</script>![embed](/a\n/b)").tags.count .script = 2 := by
  have long : ∃ e ∈ Text.finds Embed.read (beforeEmbeds (Code.protect (extract .none
      (Source.normalize "<script>x</script>![embed](/a\n/b)")).1).text), e.IsLongFrame := by
    decide +kernel
  have before : (extract .none (Source.normalize "<script>x</script>![embed](/a\n/b)")).2.count
      .script = 1 := by decide +kernel
  have counted := ((compile_longFrames {} "<script>x</script>![embed](/a\n/b)").1 long).2.1
  dsimp only at counted
  rw [before] at counted
  obtain ⟨e, member, frame⟩ := long
  exact ⟨e, member, frame, counted⟩

end Stencil
