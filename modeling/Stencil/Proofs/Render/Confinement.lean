import Stencil.Proofs.Html.Escape
import Stencil.Proofs.Render.Noninterference
import Stencil.Proofs.Text.Split
import Stencil.Proofs.Text.Whole

/-!
# What is filled in stays in its place

The text for a placeholder between two braces can open or close neither a tag nor a placeholder,
and the value that a placeholder assigns to an attribute cannot end the quotes it stands in,
whatever the sources answer (`confines_fill`).  For a whole skeleton this holds of everything that
is filled in (`fillValues_confined`).
-/

namespace Stencil

variable {τ : Type}

/-- What names the value in an assignment: a name in quotes of either kind, or a bare one, for which
the quotes are double. -/
inductive Names : (written name : Text) → (quote : Char) → Prop where
  | quoted {quote : Char} {inner : Text} (known : quote ∈ quotes) (some : Text.trim inner ≠ []) :
      Names (quote :: (inner ++ [quote])) (Text.trim inner) quote
  | bare {c : Char} {rest : Text} (unquoted : c ∉ quotes) (some : Text.trim (c :: rest) ≠ []) :
      Names (c :: rest) (Text.trim (c :: rest)) '"'

/-- Whether a placeholder assigns the value with a name to an attribute.  White space around the
parts of the assignment is of no account. -/
def Assigns (body attr name : Text) (quote : Char) : Prop :=
  ∃ before after, Text.trim body = before ++ '=' :: after ∧ '=' ∉ before ∧
    (Text.trim body).head? ≠ some '-' ∧
    Text.trim before = attr ∧ attr ≠ [] ∧ (∀ c ∈ attr, isAttributeChar c = true) ∧
    Names (Text.trim after) name quote

/-- Reading the value of an assignment accepts exactly the ways to name one. -/
theorem assigned?_eq_some_iff {s name : Text} {quote : Char} :
    assigned? s = some (name, quote) ↔ Names s name quote := by
  constructor
  · intro h
    unfold assigned? at h
    split at h
    · simp at h
    · rename_i c rest
      by_cases quoted : c = '"' ∨ c = '\''
      · by_cases closed : rest.getLast? = some c
        · simp only [if_pos quoted, if_pos closed, Option.map_some, Option.bind_some] at h
          split at h
          · simp at h
          · rename_i some
            obtain ⟨rfl, rfl⟩ := Prod.mk.inj (Option.some.inj h)
            have whole : rest = rest.dropLast ++ [c] :=
              (List.dropLast_append_getLast? c closed).symm
            have form : Names (c :: (rest.dropLast ++ [c])) (Text.trim rest.dropLast) c :=
              .quoted (by simpa [quotes] using quoted) (by simpa using some)
            rwa [← whole] at form
        · simp [quoted, closed] at h
      · simp only [if_neg quoted, Option.map_some, Option.bind_some] at h
        split at h
        · simp at h
        · rename_i some
          obtain ⟨rfl, rfl⟩ := Prod.mk.inj (Option.some.inj h)
          exact .bare (by simpa [quotes] using quoted) (by simpa using some)
  · rintro (⟨known, some⟩ | ⟨unquoted, some⟩)
    · have quoted : quote = '"' ∨ quote = '\'' := by simpa [quotes] using known
      simp [assigned?, quoted, some]
    · rename_i c rest
      have bare : ¬(c = '"' ∨ c = '\'') := by simpa [quotes] using unquoted
      simp [assigned?, bare, some]

/-- An assignment is an attribute's name, the first equals sign, and a way to name a value. -/
theorem Request.assignment?_eq_some_iff {s : Text} {request : Request} :
    Request.assignment? s = some request ↔
      ∃ before after name quote, s = before ++ '=' :: after ∧ '=' ∉ before ∧
        Text.trim before ≠ [] ∧ (∀ c ∈ Text.trim before, isAttributeChar c = true) ∧
        Names (Text.trim after) name quote ∧
        request = .attribute (Text.trim before) name quote := by
  simp only [assignment?, Option.bind_eq_bind, Option.bind_eq_some_iff, Option.pure_def]
  constructor
  · rintro ⟨⟨before, after⟩, split, rest⟩
    obtain ⟨rfl, absent⟩ := Text.splitFirst?_eq_some_iff.mp split
    dsimp only at rest
    by_cases proper : (Text.trim before).isEmpty || !(Text.trim before).all isAttributeChar
    · rw [if_pos proper] at rest
      simp at rest
    · rw [if_neg proper] at rest
      obtain ⟨⟨name, quote⟩, named, same⟩ := Option.bind_eq_some_iff.mp rest
      simp only [Bool.or_eq_true, List.isEmpty_iff, Bool.not_eq_true', List.all_eq_false,
        not_or, not_exists, not_and, Bool.not_eq_true, Bool.not_eq_false] at proper
      exact ⟨before, after, name, quote, rfl, absent, proper.1, proper.2,
        assigned?_eq_some_iff.mp named, (Option.some.inj same).symm⟩
  · rintro ⟨before, after, name, quote, rfl, absent, nonempty, letters, named, rfl⟩
    refine ⟨(before, after), Text.splitFirst?_eq_some_iff.mpr ⟨rfl, absent⟩, ?_⟩
    have proper : ¬((Text.trim before).isEmpty || !(Text.trim before).all isAttributeChar) := by
      simpa [nonempty] using letters
    dsimp only
    rw [if_neg proper, assigned?_eq_some_iff.mpr named]
    rfl

/-- The requests that assign a value to an attribute are those of the three written forms. -/
theorem Request.parse?_eq_attribute_iff {body attr name : Text} {quote : Char} :
    Request.parse? body = some (.attribute attr name quote) ↔ Assigns body attr name quote := by
  unfold parse? Assigns
  dsimp only
  split <;> rename_i eq
  · simp [eq]
  · simp [eq]
  · -- A hash sign is no part of the name of an attribute.
    rename_i path
    refine ⟨by simp, ?_⟩
    rintro ⟨before, after, split, _, _, rfl, _, letters, _⟩
    have hash : '#' ∈ before := by
      rw [eq] at split
      cases before with
      | nil => simp at split
      | cons c before =>
        obtain ⟨rfl, _⟩ := List.cons.inj split
        exact List.mem_cons_self
    exact absurd (letters '#' (Text.mem_trim hash (by decide))) (by decide)
  · rename_i noDash
    constructor
    · intro h
      cases found : assignment? (Text.trim body) with
      | none => simp [found] at h
      | some request =>
        rw [found, Option.getD_some, Option.some.injEq] at h
        subst h
        obtain ⟨before, after, name, quote, split, absent, nonempty, letters, named, same⟩ :=
          assignment?_eq_some_iff.mp found
        obtain ⟨rfl, rfl, rfl⟩ := Request.attribute.inj same
        refine ⟨before, after, split, absent, fun dash => ?_, rfl, nonempty, letters, named⟩
        obtain ⟨rest, eq⟩ := List.head?_eq_some_iff.mp dash
        exact noDash rest eq
    · rintro ⟨before, after, split, absent, _, rfl, nonempty, letters, named⟩
      rw [assignment?_eq_some_iff.mpr
        ⟨before, after, name, quote, split, absent, nonempty, letters, named, rfl⟩]
      rfl

example : Request.parse? "class=\"c\"" = some (.attribute "class" "c" '"') ∧
    Request.parse? " class = ' c '" = some (.attribute "class" "c" '\'') ∧
    Request.parse? "class=c" = some (.attribute "class" "c" '"') := by
  decide

namespace Placeholder

def written (p : Placeholder) : Text :=
  if p.escaped then "\x7b\x7b" ++ p.body ++ "\x7d\x7d"
  else "\x7b\x7b\x7b" ++ p.body ++ "\x7d\x7d\x7d"

/-- A body is read from between its braces. -/
theorem readBody?_eq_some {opening closing s body rest : Text}
    (h : readBody? opening closing s = some (body, rest)) :
    s = opening ++ body ++ closing ++ rest := by
  simp only [readBody?, splitLine?, Option.bind_eq_bind, Option.bind_eq_some_iff] at h
  obtain ⟨inner, opened, ⟨start, after⟩, closed, rest'⟩ := h
  dsimp only at rest'
  split at rest'
  · simp at rest'
  · obtain ⟨rfl, rfl⟩ := Prod.mk.inj (Option.some.inj rest')
    rw [Text.after?_eq_some opened, Text.splitAtFirst?_eq_some closed]
    simp

theorem read_eq_some {before : Option Char} {s rest : Text} {p : Placeholder}
    (h : read before s = some (p, rest)) : s = p.written ++ rest := by
  unfold read at h
  split at h <;> rename_i found
  · obtain ⟨rfl, rfl⟩ := Prod.mk.inj (Option.some.inj h)
    exact readBody?_eq_some found
  · obtain ⟨⟨body, rest⟩, found, same⟩ := Option.map_eq_some_iff.mp h
    obtain ⟨rfl, rfl⟩ := Prod.mk.inj same
    exact readBody?_eq_some found

theorem written_ne_nil (p : Placeholder) : p.written ≠ [] := by
  unfold written
  split <;> simp

/-- What is asked of the text that is filled in for a placeholder. -/
structure Confines (p : Placeholder) (text : Text) : Prop where
  /-- With two braces, the text can open or close neither a tag nor a placeholder. -/
  inert : p.escaped = true → Inert text
  /-- The value that is assigned to an attribute stays between its quotes. -/
  quoted : ∀ attr name quote, Assigns p.body attr name quote →
    quote ∈ quotes ∧ ∃ value, text = attr ++ ['=', quote] ++ value ++ [quote] ∧
      (∀ c ∈ value, c ∉ quotes) ∧ (p.escaped = true → Inert value)

theorem inert_escape {p : Placeholder} (escaped : p.escaped = true) (s : Text) :
    Inert (p.escape s) := by
  rw [escape, if_pos escaped]
  exact inert_escapeHtml s

/-- An attribute and a value between quotes are as inert as the value. -/
theorem inert_assignment {attr value : Text} {quote : Char}
    (named : ∀ c ∈ attr, isAttributeChar c = true) (known : quote ∈ quotes)
    (inert : Inert value) : Inert (attr ++ ['=', quote] ++ value ++ [quote]) := by
  have letters : ∀ c ∈ attr, c ∉ escapedChars := by
    have marks : ∀ c ∈ escapedChars, isAttributeChar c = false := by decide
    intro c member mark
    exact absurd (named c member) (by simp [marks c mark])
  have plainQuote : quote ∉ escapedChars :=
    (show ∀ c ∈ quotes, c ∉ escapedChars by decide) quote known
  have noAmpersand : '&' ∉ attr ++ ['=', quote] := by
    simp only [List.mem_append, List.mem_cons, List.not_mem_nil, or_false, not_or]
    exact ⟨fun h => letters _ h List.mem_cons_self, by decide,
      fun h => plainQuote (h ▸ List.mem_cons_self)⟩
  have plain {c : Char} (h : c ∉ escapedChars) : c ∉ delimiters :=
    fun member => h (List.mem_cons_of_mem _ member)
  constructor
  · simp only [List.forall_mem_append, List.forall_mem_cons]
    exact ⟨⟨⟨fun c member => plain (letters c member), by decide, plain plainQuote, by simp⟩,
      inert.undelimited⟩, plain plainQuote, by simp⟩
  · rw [List.append_assoc]
    refine (ampersandsBegin_append_of_not_mem noAmpersand).mpr ?_
    exact ampersandsBegin_concat inert.ampersands fun h => plainQuote (h ▸ List.mem_cons_self)

theorem mem_quotes_of_names {s name : Text} {quote : Char} (h : Names s name quote) :
    quote ∈ quotes := by
  cases h with
  | quoted known _ => exact known
  | bare _ _ => decide

/-- Whatever the sources answer, the text for a placeholder stays in its place. -/
theorem confines_fill {p : Placeholder} {sources : Sources τ} {t : τ} {text : Text}
    (h : (p.fill sources t).1 = some text) : p.Confines text := by
  unfold fill at h
  cases request : p.request? with
  | none => simp [request] at h
  | some asked =>
    have other (notAssigned : ∀ attr name quote, asked ≠ .attribute attr name quote)
        {answer : Option Text} (filled : answer.map p.escape = some text) : p.Confines text := by
      obtain ⟨s, _, rfl⟩ := Option.map_eq_some_iff.mp filled
      refine ⟨fun escaped => inert_escape escaped s, fun attr name quote assigns => ?_⟩
      have same := Request.parse?_eq_attribute_iff.mpr assigns
      exact absurd (Option.some.inj (request.symm.trans same)) (notAssigned attr name quote)
    rw [request] at h
    rcases asked with path | ⟨attr, name, quote⟩ | name
    · exact other (by simp) h
    · -- Both escapes apply, one after the other.
      obtain ⟨s, _, rfl⟩ := Option.map_eq_some_iff.mp h
      have assigns : Assigns p.body attr name quote := Request.parse?_eq_attribute_iff.mp request
      obtain ⟨before, after, _, _, _, rfl, _, letters, named⟩ := assigns
      have known := mem_quotes_of_names named
      have inert (escaped : p.escaped = true) : Inert (escapeAttr (p.escape s)) :=
        inert_escapeAttr (inert_escape escaped s)
      refine ⟨fun escaped => inert_assignment letters known (inert escaped), ?_⟩
      intro attr' name' quote' assigns'
      have same := Request.parse?_eq_attribute_iff.mpr assigns'
      obtain ⟨rfl, rfl, rfl⟩ := Request.attribute.inj (Option.some.inj (request.symm.trans same))
      exact ⟨known, _, rfl, not_mem_quotes_of_mem_escapeAttr _, inert⟩
    · exact other (by simp) h

end Placeholder

theorem confines_of_mem_answers {sources : Sources τ} {pieces : List (Piece Placeholder)} {t : τ}
    {p : Placeholder} {text : Text}
    (member : (p, some text) ∈ (Text.foundValues pieces).zip (answers sources pieces t)) :
    p.Confines text := by
  obtain ⟨t', filled⟩ := exists_fill_of_mem_answers member
  exact Placeholder.confines_fill filled

/-- The placeholders of a skeleton, each as it is written, are answered one by one, and the values
of the page are the answers that there are.  Each of these stays in its place. -/
theorem fillValues_confined (sources : Sources τ) (skeleton : Text) (t : τ) :
    (∀ source p, .found source p ∈ Text.scan Placeholder.read skeleton → source = p.written) ∧
    (resolved sources skeleton t).length =
      (Text.foundValues (Text.scan Placeholder.read skeleton)).length ∧
    Part.values (fillValues sources skeleton t).1 = (resolved sources skeleton t).filterMap id ∧
    ∀ p text, (p, some text) ∈ (Text.foundValues (Text.scan Placeholder.read skeleton)).zip
      (resolved sources skeleton t) → p.Confines text := by
  refine ⟨fun source p member => ?_, length_answers _ _ _, values_fillValues _ _ _,
    fun p text member => confines_of_mem_answers member⟩
  obtain ⟨before, rest, found⟩ := Text.read_of_found_mem (fun _ _ p _ found =>
    ⟨p.written, Placeholder.read_eq_some found, p.written_ne_nil⟩) member
  exact List.append_cancel_right (Placeholder.read_eq_some found)

end Stencil
