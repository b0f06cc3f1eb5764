import Stencil.Proofs.Block.Intact
import Stencil.Proofs.Form.Intact
import Stencil.Proofs.Inline.Intact
import Stencil.Proofs.Inline.Nested
import Stencil.Template.Transform

/-!
# Stand-ins in the transform

Between taking code out and putting it back, no stage breaks a stand-in (`sealed_afterStages`), so
none is left in the HTML, whatever characters the text has (`sealed_transform`).  Emphasis keeps
stand-ins of its own, which are characters like others to the stages before it, and leaves neither
these nor any that it finds.
-/

namespace Stencil

variable {N : Numbering} {has : StandIn → Nat → Prop} {s : Text}

/-- The stages that follow emphasis, in their order. -/
def stagesAfterEmphasis : List (Text → Text) :=
  [Line.headings, Line.quotations, Line.rules, embeds, links, bareUrls, itemLists, tables,
    paragraphs]

/-- The stages between taking code out and putting it back. -/
def stages : List (Text → Text) := forms :: Emphasis.emphasize :: stagesAfterEmphasis

/-- A text after the first `n` stages. -/
def afterStages (n : Nat) (s : Text) : Text :=
  (stages.take n).foldl (fun s stage => stage s) s

theorem intact_stagesAfterEmphasis :
    ∀ stage ∈ stagesAfterEmphasis, ∀ s, Intact N s → Intact N (stage s) := by
  simp only [stagesAfterEmphasis, List.forall_mem_cons]
  exact ⟨fun _ => Line.intact_headings, fun _ => Line.intact_quotations,
    fun _ => Line.intact_rules, fun _ => intact_embeds, fun _ => intact_links,
    fun _ => intact_bareUrls, fun _ => intact_itemLists, fun _ => intact_tables,
    fun _ => intact_paragraphs, by simp⟩

theorem afterStages_emphasize (n : Nat) (s : Text) : afterStages (n + 2) s =
    (stagesAfterEmphasis.take n).foldl (fun s stage => stage s) (Emphasis.emphasize (forms s)) := by
  simp only [afterStages, stages, List.take_succ_cons, List.foldl_cons]

/-- From emphasis on there are no characters of any stand-ins but those left for code. -/
theorem intact_afterStages (n : Nat) (h : Intact (.code has) s) :
    Intact (.all has) (afterStages (n + 2) s) := by
  have emphasized : Intact (.all has) (Emphasis.emphasize (forms s)) :=
    Emphasis.intact_emphasize (intact_forms h)
  rw [afterStages_emphasize]
  exact emphasized.foldl fun stage member =>
    intact_stagesAfterEmphasis stage (List.mem_of_mem_take member)

/-- No stage breaks a stand-in. -/
theorem sealed_afterStages {parts : List Text} (h : Code.Sealed parts s) :
    ∀ n, Code.Sealed parts (afterStages n s)
  | 0 => h
  | 1 => Code.sealed_iff.mpr (intact_forms (Code.sealed_iff.mp h))
  | n + 2 => Code.sealed_iff.mpr
      ((intact_afterStages n (Code.sealed_iff.mp h)).code_of_all fun _ _ names => names.1)

theorem transform_html (s : Text) : (transform s).html =
    Code.restore (Code.protect s).parts (afterStages stages.length (Code.protect s).text) := rfl

/-- The characters of all stand-ins are those of code and those of emphasis. -/
theorem not_mem_all_chars_iff {c : Char} :
    c ∉ (Numbering.all has).chars ↔ Code.isReserved c = false ∧ Emphasis.isReserved c = false := by
  constructor
  · intro other
    have code : c ∉ (Numbering.code has).chars :=
      fun member => other (Numbering.mem_standInChars member)
    refine ⟨Code.not_mem_chars_iff.mp code, ?_⟩
    have apart : c ≠ Emphasis.standIn.opening ∧ c ≠ Emphasis.standIn.closing :=
      ⟨fun same => other (same ▸ List.mem_append_left _ List.mem_cons_self),
        fun same => other (same ▸ List.mem_append_right _ List.mem_cons_self)⟩
    simpa [Emphasis.isReserved] using apart
  · rintro ⟨code, emphasis⟩ member
    have reserved : ∀ c ∈ standInChars, (Code.isReserved c || Emphasis.isReserved c) = true := by
      decide
    simpa [code, emphasis] using reserved c member

/-- Parts hold only stand-ins of parts before them, so that putting back the parts within parts
comes to an end; after each stage there are only stand-ins of parts, and none of their characters is
in the HTML, nor one of those of emphasis unless the text had some. -/
theorem sealed_transform (s : Text) :
    let p := Code.protect s
    (∀ j part, p.parts[j]? = some part → Code.Sealed (p.parts.take j) part) ∧
      (∀ text depth, p.parts.length < depth →
        Code.restoreWithin p.parts depth text = some (Code.restore p.parts text)) ∧
      (∀ n, Code.Sealed p.parts (afterStages n p.text)) ∧
      (transform s).html = Code.restore p.parts (afterStages stages.length p.text) ∧
      (∀ c ∈ (transform s).html, Code.isReserved c = false) ∧
      ((∀ c ∈ s, Emphasis.isReserved c = false) →
        ∀ c ∈ (transform s).html, Emphasis.isReserved c = false) := by
  intro p
  have nested : p.Nested (.code fun _ _ => False) :=
    Code.nested_protect (fun _ => id) fun c _ other => Code.not_mem_chars_iff.mpr other
  have whole : Code.Sealed p.parts p.text := Code.sealed_iff.mpr nested.text
  have parts (j : Nat) (part : Text) (there : p.parts[j]? = some part) :
      Code.Sealed (p.parts.take j) part :=
    Code.sealed_iff.mpr (nested.parts.intact_part there)
  have kept := sealed_afterStages whole
  refine ⟨parts, fun text depth enough => ?_, kept, rfl, fun c member => ?_,
    fun clear c member => ?_⟩
  · obtain ⟨depth, rfl⟩ := Nat.exists_eq_add_one_of_ne_zero (Nat.ne_zero_of_lt enough)
    exact Code.restoreWithin_eq_some parts fun _ i _ inside =>
      inside.trans_le (Nat.le_of_lt_succ enough)
  · rw [transform_html] at member
    exact Code.not_mem_chars_iff.mp
      (nested.parts.not_mem_restore (fun _ => id) (Code.sealed_iff.mp (kept stages.length)) c
        member)
  · have nested : p.Nested (.all fun _ _ => False) :=
      Code.nested_protect (by decide) fun c member other =>
        not_mem_all_chars_iff.mpr ⟨other, clear c member⟩
    have compiled := intact_afterStages 9 (Code.sealed_iff.mp whole)
    rw [transform_html] at member
    exact (not_mem_all_chars_iff.mp
      (nested.parts.not_mem_restore (by decide) compiled c member)).2

/-- A `pre` element is a part within that of the `code` element around it. -/
theorem sealed_transform_nested :
    Code.protect "<code><pre>a</pre></code>" =
        ⟨"\ue0021\ue003", ["<pre>a</pre>", "<code>\ue0000\ue001</code>"]⟩ ∧
      Code.Sealed ["<pre>a</pre>"] "<code>\ue0000\ue001</code>" ∧
      Code.restoreWithin ["<pre>a</pre>", "<code>\ue0000\ue001</code>"] 3 "\ue0021\ue003" =
        some "<code><pre>a</pre></code>" ∧
      (∀ c ∈ ("<code><pre>a</pre></code>" : Text), Emphasis.isReserved c = false) ∧
      ∀ c ∈ (transform "<code><pre>a</pre></code>").html, Emphasis.isReserved c = false := by
  have taken : Code.protect "<code><pre>a</pre></code>" =
      ⟨"\ue0021\ue003", ["<pre>a</pre>", "<code>\ue0000\ue001</code>"]⟩ := by decide +kernel
  have whole : Code.restore ["<pre>a</pre>", "<code>\ue0000\ue001</code>"] "\ue0021\ue003" =
      "<code><pre>a</pre></code>" := by decide +kernel
  have clear : ∀ c ∈ ("<code><pre>a</pre></code>" : Text), Emphasis.isReserved c = false := by
    decide
  obtain ⟨nested, restored, _, _, _, cleared⟩ := sealed_transform "<code><pre>a</pre></code>"
  rw [taken] at nested restored
  exact ⟨taken, nested 1 _ rfl, (restored _ 3 (by decide)).trans (congrArg some whole), clear,
    cleared clear⟩

end Stencil
