import Stencil.Proofs.Block.Rise
import Stencil.Proofs.Inline.Restore
import Stencil.Proofs.Inline.Rise
import Stencil.Template.Transform

/-!
# When a second run changes nothing

Running the transform over its own output changes nothing exactly if the output is settled
(`transform_transform_iff`): no reader of shorthand finds anything in it that it would write as
HTML.  Every stage lets a text rise that it changes, so none can undo another's change, and the
whole transform leaves a text alone only if each stage does.

An output need not be settled.  A mark that the first run leaves over stands beside other
characters afterwards, and may then begin a phrase (`transform_transform_ne`).
-/

namespace Stencil

variable {s t : Text}

/-- Whether a text that has no code in it has no shorthand in it either. -/
@[mk_iff]
structure IsCompiled (s : Text) : Prop where
  /-- In forms there are only links. -/
  forms : ∀ form ∈ Text.finds (Element.read "form") s, Form.IsQuietBody form.content
  /-- No phrase is between marks, apart from placeholders, tags and the targets of links. -/
  phrases : Emphasis.IsUnmarked (Emphasis.sheltered s)
  headings : ∀ line ∈ Text.lines s, Line.heading? line = none
  quotations : ∀ line ∈ Text.lines s, Line.quotation? line = none
  rules : ∀ line ∈ Text.lines s, Line.isRule line = false
  /-- What is written like an embed names no service. -/
  embeds : ∀ e ∈ Text.finds Embed.read s, e.html? = none
  /-- What is written like a link follows an exclamation mark. -/
  links : ∀ link ∈ Text.finds Link.read s, link.afterBang = true
  /-- What is written like a URL is part of a longer word or of a tag. -/
  urls : ∀ isLink ∈ Text.finds BareUrl.read s, isLink = false
  items : ∀ line ∈ Text.lines s, ItemList.item? line = none
  /-- No two rows follow each other. -/
  rows : Table.IsQuiet (Text.lines s)
  /-- No line outside of paragraphs begins with text. -/
  paragraphs : Paragraph.IsQuiet 0 (Text.lines s)

/-- Whether there is no shorthand in a text, neither code nor any other. -/
@[mk_iff]
structure Settled (s : Text) : Prop where
  code : Code.IsUncoded s
  rest : IsCompiled (Code.protect s).text

instance (s : Text) : Decidable (IsCompiled s) := decidable_of_iff _ (isCompiled_iff s).symm

instance (s : Text) : Decidable (Settled s) := decidable_of_iff _ (settled_iff s).symm

theorem liftsAt_emphasizeForms (clear : ∀ c ∈ s, Emphasis.isReserved c = false)
    (few : s.countP (· ∈ Emphasis.firsts) < Text.maxIndex) (shows : ShowsControls s) :
    LiftsAt (fun s => Emphasis.emphasize (forms s))
      (fun s => (∀ form ∈ Text.finds (Element.read "form") s, Form.IsQuietBody form.content) ∧
        Emphasis.IsUnmarked (Emphasis.sheltered s)) s := by
  have controls := liftsAt_forms shows
  have phrases := Emphasis.liftsAt_emphasize clear few.le
  constructor
  · rintro ⟨calm, unmarked⟩
    rw [controls.eq_self calm, phrases.eq_self unmarked]
  · intro loud
    by_cases calm : ∀ form ∈ Text.finds (Element.read "form") s, Form.IsQuietBody form.content
    · rw [controls.eq_self calm]
      exact phrases.rises fun unmarked => loud ⟨calm, unmarked⟩
    · exact Emphasis.Rises.emphasize (controls.rises calm) clear few

/-- All stages together, apart from code, leave a text as it is or let it rise. -/
theorem liftsAt_compile (clear : ∀ c ∈ s, Emphasis.isReserved c = false)
    (few : s.countP (· ∈ Emphasis.firsts) < Text.maxIndex) (shows : ShowsControls s) :
    LiftsAt (fun s => fromEmbeds (beforeEmbeds s)) IsCompiled s := by
  have stages := (((((((((liftsAt_emphasizeForms clear few shows).comp Line.liftsAt_headings).comp
    Line.liftsAt_quotations).comp Line.liftsAt_rules).comp liftsAt_embeds).comp liftsAt_links).comp
    liftsAt_bareUrls).comp liftsAt_itemLists).comp liftsAt_tables).comp liftsAt_paragraphs
  exact stages.of_iff (by simp only [isCompiled_iff, and_assoc])

theorem html_transform (s : Text) : (transform s).html =
    Code.restore (Code.protect s).parts (fromEmbeds (beforeEmbeds (Code.protect s).text)) := rfl

/-- The transform leaves a text as it is if the text is settled, and lets it rise otherwise. -/
theorem liftsAt_transform (clear : IsClear s) (fits : s.length < Text.maxIndex)
    (shows : ShowsControls (Code.protect s).text) :
    LiftsAt (fun s => (transform s).html) Settled s := by
  have codes := Code.liftsAt_restored clear.not_isReserved fits.le
  have few := (Code.countP_protect clear.not_isReserved).trans_lt fits
  have stages := liftsAt_compile clear.protect few shows
  constructor
  · intro settled
    rw [html_transform, stages.eq_self settled.rest]
    exact codes.eq_self settled.code
  · intro loud
    rw [html_transform]
    by_cases rest : IsCompiled (Code.protect s).text
    · rw [stages.eq_self rest]
      exact codes.rises fun code => loud ⟨code, rest⟩
    · have rises := Code.rises_restore clear.not_isReserved fits.le (stages.rises rest)
      by_cases code : Code.IsUncoded s
      · rwa [codes.eq_self code] at rises
      · exact (codes.rises code).trans rises

/-- A second run changes nothing exactly if the first left nothing to do. -/
theorem transform_transform_iff (s : Text) (clear : IsClear (transform s).html)
    (fits : (transform s).html.length < Text.maxIndex)
    (shows : ShowsControls (Code.protect (transform s).html).text) :
    (transform (transform s).html).html = (transform s).html ↔ Settled (transform s).html :=
  (liftsAt_transform clear fits shows).eq_self_iff

/-- A page with shorthand of several kinds is settled after one run. -/
theorem settled_transform_page :
    Settled (transform "# A **b**\n\n- c `d`\n- [e](f)\n\n<form>\n[select g]\n</form>").html :=
  (transform_transform_iff _ (by decide +kernel) (by decide +kernel) (by decide +kernel)).mp
    (by decide +kernel)

/-- A single asterisk that is left over before an emphasised phrase begins another one. -/
theorem transform_transform_ne :
    (transform (transform "**a*b**").html).html ≠ (transform "**a*b**").html := by
  decide +kernel

end Stencil
