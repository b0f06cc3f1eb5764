import Stencil.Proofs.Form.Control
import Stencil.Proofs.Html.Element
import Stencil.Proofs.Text.Fill

/-!
# When nothing is left to do within lines

Controls, emphasis, embeds, links and bare URLs leave a text as it is exactly if there is none to be
read in it that they would write as HTML; otherwise the text rises.
-/

namespace Stencil

variable {s t : Text}

namespace Form

/-- Whether the controls in the body of a form are all links. -/
def IsQuietBody (body : Text) : Prop :=
  ∀ control ∈ Text.finds Control.read body, control.isLink = true
  deriving Decidable

/-- Whether the controls in a body all have something to show. -/
def ShowsControls (body : Text) : Prop :=
  ∀ control ∈ Text.finds Control.read body, control.isLink = false → control.html ≠ []
  deriving Decidable

/-- A control that has something to show begins with a bracket; radio buttons alone may be none
at all. -/
theorem ControlKind.bracket_of_html {kind : ControlKind} {name attributes : Text}
    {entries : List Entry} (shown : kind.html name entries attributes ≠ []) :
    ∃ y, kind.html name entries attributes = '<' :: y := by
  cases kind with
  | radio =>
    cases entries with
    | nil => exact absurd rfl shown
    | cons entry entries => cases entry <;> exact ⟨_, rfl⟩
  | checkbox required =>
    unfold html checkboxHtml
    dsimp only
    split <;> exact ⟨_, rfl⟩
  | _ => exact ⟨_, rfl⟩

theorem liftsAt_expandControls {body : Text} (shows : ShowsControls body) :
    LiftsAt expandControls IsQuietBody body := by
  refine Text.liftsAt_of_begins Control.delimited_read.begins (by decide)
    (fun source control link => if_pos link) fun source control member noLink => ?_
  have found : control ∈ Text.finds Control.read body := Text.mem_finds.mpr ⟨source, member⟩
  rw [if_neg noLink]
  exact ControlKind.bracket_of_html (shows control found (by simpa using noLink))

end Form

/-- Whether the controls in the forms of a text all have something to show. -/
def ShowsControls (s : Text) : Prop :=
  ∀ form ∈ Text.finds (Element.read "form") s, Form.ShowsControls form.content
  deriving Decidable

/-- An element that is found is written with its parts, and a tag opens it. -/
theorem source_of_found_element {name source : Text} {e : Element}
    (member : .found source e ∈ Text.scan (Element.read name) s) :
    source = e.opening ++ e.content ++ e.closing ∧
      ∃ start, e.opening = '<' :: (start ++ ['>']) := by
  obtain ⟨before, rest, found⟩ := Text.read_of_found_mem (Element.delimited_read name).cuts member
  obtain ⟨written, attrs, content, closing, folded, _, split, rfl⟩ := Element.read_eq_some found
  obtain ⟨first, more, rfl, bracket, _⟩ := List.map_eq_cons_iff.mp folded
  obtain rfl := eq_of_foldLetter_eq bracket (by decide)
  exact ⟨List.append_cancel_right split, more ++ attrs, by simp⟩

/-- Forms leave a text as it is exactly if their bodies have nothing to turn into controls. -/
theorem liftsAt_forms (shows : ShowsControls s) :
    LiftsAt forms (fun s => ∀ form ∈ Text.finds (Element.read "form") s,
      Form.IsQuietBody form.content) s := by
  have body {source : Text} {form : Element}
      (member : .found source form ∈ Text.scan (Element.read "form") s) :
      LiftsAt Form.expandControls Form.IsQuietBody form.content :=
    Form.liftsAt_expandControls (shows form (Text.mem_finds.mpr ⟨source, member⟩))
  refine Text.liftsAt_substitute (fun source form member c first => ?_)
    (fun source form member calm => ?_) fun source form member loud => ?_
  · obtain ⟨rfl, start, opening⟩ := source_of_found_element member
    obtain rfl : '<' = c := by simpa [opening] using first
    decide
  · rw [(body member).eq_self calm, ← (source_of_found_element member).1]
  · obtain ⟨rfl, start, opening⟩ := source_of_found_element member
    refine (((body member).rises loud).append_left _ (.inr fun e last => ?_)).append _ _
    rw [opening, ← List.cons_append, List.getLast?_concat] at last
    obtain rfl := Option.some.inj last
    decide

namespace Emphasis

/-- A text with what emphasis must not touch taken out. -/
def sheltered (s : Text) : Text :=
  (standIn.place (fun source _ => source) 0 (Text.scan readSheltered s)).1

/-- Where nothing is sheltered, nothing is taken out. -/
theorem sheltered_eq_self (plain : ∀ c ∈ s, c ∉ firsts) : sheltered s = s := by
  have placed := @StandIn.place_plain_append _ standIn (fun source (_ : Unit) => source) s 0 []
  rw [List.append_nil] at placed
  have scanned : Text.scan readSheltered s = s.map .plain :=
    delimited_readSheltered.scan_eq_plain plain
  rw [sheltered, scanned, placed]
  simp [StandIn.place]

/-- A style leaves a text as it is exactly if it finds no phrase in it. -/
theorem liftsAt_apply {style : Style} (known : style ∈ styles) (s : Text) :
    LiftsAt style.apply (fun s => Text.finds style.read s = []) s := by
  have fine : ∀ style ∈ styles, 0 < style.times ∧ isDigit style.sign = false ∧
      style.sign ∉ standInChars ∧ style.sign ≠ '<' := by decide
  obtain ⟨often, free⟩ := fine style known
  have opens : ∀ style ∈ styles, ∃ y, style.opening = '<' :: y := by
    simp [styles]
  have lifts : LiftsAt style.apply (fun s => ∀ phrase ∈ Text.finds style.read s, False) s :=
    Text.liftsAt_of_begins (style.delimited_read often).begins free (fun _ _ => False.elim)
      fun source phrase _ _ => by
        obtain ⟨y, opening⟩ := opens style known
        exact ⟨y ++ phrase ++ style.closing, by simp [opening]⟩
  simpa only [imp_false, ← List.eq_nil_iff_forall_not_mem] using lifts

def IsUnmarked (s : Text) : Prop := ∀ style ∈ styles, Text.finds style.read s = []
  deriving Decidable

/-- The styles leave a text as it is exactly if none finds a phrase in it. -/
theorem liftsAt_applyAll (s : Text) : LiftsAt applyAll IsUnmarked s := by
  have each : ∀ style ∈ styles, ∀ s,
      LiftsAt style.apply (fun s => Text.finds style.read s = []) s := fun _ => liftsAt_apply
  unfold applyAll IsUnmarked
  generalize styles = all at each ⊢
  induction all generalizing s with
  | nil => exact ⟨fun _ => rfl, fun loud => absurd (List.forall_mem_nil _) loud⟩
  | cons style all ih =>
    obtain ⟨first, rest⟩ := List.forall_mem_cons.mp each
    simp only [List.forall_mem_cons, List.foldl_cons]
    exact (first s).comp fun t => ih t rest

/-- Emphasising a text that has no characters of its own stand-ins. -/
theorem emphasize_eq (clear : ∀ c ∈ s, isReserved c = false) :
    emphasize s = StandIn.fill [standIn]
      (standIn.place (fun source _ => source) 0 (Text.scan readSheltered s)).2.toArray
      (applyAll (sheltered s)) := by
  have filtered : s.filter (fun c => !isReserved c) = s :=
    List.filter_eq_self.mpr fun c member => by simp [clear c member]
  rw [emphasize, filtered]
  rfl

/-- Filling a sheltered text again gives the text, as far as stand-ins can be numbered. -/
theorem exists_fill_sheltered (clear : ∀ c ∈ s, isReserved c = false) :
    ∃ w r r', StandIn.fill [standIn]
        (standIn.place (fun source _ => source) 0 (Text.scan readSheltered s)).2.toArray
        (sheltered s) = w ++ r ∧ s = w ++ r' ∧
      (r = [] ∧ r' = [] ∨ Text.maxIndex < w.countP (· ∈ firsts)) := by
  have plain (c : Char) (member : .plain c ∈ Text.scan readSheltered s) : c ≠ standIn.opening := by
    rintro rfl
    have inside : standIn.opening ∈ s :=
      Text.mem_of_mem_scanFrom member (List.mem_singleton_self _)
    exact absurd (clear _ inside) (by decide)
  have marked (source : Text) (value : Unit)
      (member : .found source value ∈ Text.scan readSheltered s) : ∃ c ∈ source, c ∈ firsts := by
    obtain ⟨first, middle, last, rfl, opens, _⟩ := delimited_readSheltered.source member
    exact ⟨first, List.mem_cons_self, opens⟩
  obtain ⟨w, r, r', filled, whole, far⟩ := @StandIn.exists_fill_place
    (standIn.place (fun source _ => source) 0 (Text.scan readSheltered s)).2.toArray _ standIn
    firsts (Text.scan readSheltered s) 0 (by decide) plain marked (fun j => by simp)
  rw [Text.sources_scan] at whole
  exact ⟨w, r, r', filled, whole, by simpa using far⟩

/-- Filling what emphasis makes of a sheltered text lets it rise. -/
theorem fill_applyAll {parts : Array Text} (loud : ¬IsUnmarked t) :
    Rises (StandIn.fill [standIn] parts t) (StandIn.fill [standIn] parts (applyAll t)) :=
  ((liftsAt_applyAll t).rises loud).fill (by decide)
    fun _ _ _ inline => absurd inline (by decide)

/-- Emphasis leaves a text as it is exactly if there is no phrase outside what is sheltered. -/
theorem liftsAt_emphasize (clear : ∀ c ∈ s, isReserved c = false)
    (few : s.countP (· ∈ firsts) ≤ Text.maxIndex) :
    LiftsAt emphasize (fun s => IsUnmarked (sheltered s)) s := by
  obtain ⟨w, r, r', filled, whole, far⟩ := exists_fill_sheltered clear
  have back : StandIn.fill [standIn]
      (standIn.place (fun source _ => source) 0 (Text.scan readSheltered s)).2.toArray
      (sheltered s) = s := by
    rcases far with ⟨rfl, rfl⟩ | far
    · rw [filled, ← whole]
    · rw [whole, List.countP_append] at few
      omega
  constructor
  · intro calm
    rw [emphasize_eq clear, (liftsAt_applyAll _).eq_self calm, back]
  · intro loud
    rw [emphasize_eq clear]
    nth_rewrite 1 [← back]
    exact fill_applyAll loud

/-- What a text rises to, it still rises to after emphasis. -/
theorem Rises.emphasize (h : Rises s t) (clear : ∀ c ∈ s, isReserved c = false)
    (few : s.countP (· ∈ firsts) < Text.maxIndex) : Rises s (emphasize t) := by
  have high (c : Char) (above : 0 < height c) : (!isReserved c) = true := by
    rcases eq_of_height_pos above with rfl | rfl <;> decide
  have clearer : ∀ c ∈ t.filter fun c => !isReserved c, isReserved c = false :=
    fun c member => by simpa using (List.mem_filter.mp member).2
  have twice : Emphasis.emphasize t = Emphasis.emphasize (t.filter fun c => !isReserved c) := by
    simp [Emphasis.emphasize, List.filter_filter]
  have rises : Rises s (t.filter fun c => !isReserved c) := h.filter (by simpa using clear) high
  rw [twice, emphasize_eq clearer]
  obtain ⟨w, r, r', filled, whole, far⟩ := exists_fill_sheltered clearer
  have filledRises : Rises s (w ++ r) := by
    rcases far with ⟨rfl, rfl⟩ | far
    · exact whole ▸ rises
    · exact (whole ▸ rises : Rises s (w ++ r')).change_tail (Nat.lt_of_le_of_lt few far)
  by_cases calm : IsUnmarked (sheltered (t.filter fun c => !isReserved c))
  · rwa [(liftsAt_applyAll _).eq_self calm, filled]
  · exact (filled ▸ filledRises : Rises s _).trans (fill_applyAll calm)

end Emphasis

/-- What an embed is written as begins with a bracket. -/
theorem Embed.bracket_of_html {e : Embed} {html : Text} (there : e.html? = some html) :
    ∃ y, html = '<' :: y := by
  obtain ⟨m, -, ⟨source, -, rfl⟩ | ⟨first, second, rest, -, rfl⟩⟩ := html?_eq_some there
  · unfold singleHtml
    split <;> exact ⟨_, rfl⟩
  · unfold severalHtml
    split <;> exact ⟨_, rfl⟩

theorem liftsAt_embeds (s : Text) :
    LiftsAt embeds (fun s => ∀ e ∈ Text.finds Embed.read s, e.html? = none) s := by
  refine Text.liftsAt_of_begins Embed.delimited_read.begins (by decide)
    (fun source e unknown => by simp [unknown]) fun source e _ known => ?_
  obtain ⟨html, some⟩ := Option.ne_none_iff_exists'.mp known
  rw [some]
  exact Embed.bracket_of_html some

theorem liftsAt_links (s : Text) :
    LiftsAt links (fun s => ∀ link ∈ Text.finds Link.read s, link.afterBang = true) s := by
  refine Text.liftsAt_of_begins Link.delimited_read.begins (by decide)
    (fun source link bang => if_pos bang) fun source link _ free => ?_
  rw [if_neg free]
  exact ⟨_, rfl⟩

theorem liftsAt_bareUrls (s : Text) :
    LiftsAt bareUrls (fun s => ∀ isLink ∈ Text.finds BareUrl.read s, isLink = false) s := by
  have begins : Reader.Begins BareUrl.read 'h' := fun before s isLink rest found => by
    obtain ⟨url, split, _⟩ := BareUrl.read_eq_some found
    exact ⟨url, split⟩
  refine Text.liftsAt_of_begins begins (by decide) (fun source isLink part => by simp [part])
    fun source isLink _ link => ?_
  rw [if_pos (by simpa using link)]
  exact ⟨_, rfl⟩

end Stencil
