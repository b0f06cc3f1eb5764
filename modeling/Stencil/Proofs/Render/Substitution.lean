import Stencil.Proofs.Context.Settling
import Stencil.Proofs.Render.Including

/-!
# Filling in values is exact

How a skeleton falls into placeholders and the texts around them is told here without a scan:
`Placeholder.Begins` says which placeholder begins a text, with three braces before two and the
least between them that is on one line, and `Placeholder.Splits` looks for the next one from left to
right.  What a placeholder gives is told by its written form (`Placeholder.Gives`).

`fillValues_exact` says that filling in does just that.  Every skeleton falls apart in one way; the
page is the skeleton with each placeholder replaced by what it gives, or left as it is if that is
nothing, and for a placeholder that gives nothing there is one of a few reasons
(`Placeholder.Unfilled`).
-/

namespace Stencil

variable {τ : Type}

/-- Whether a text begins with the least between two marks that is on one line. -/
structure Bracketed (opening closing s body rest : Text) : Prop where
  whole : s = opening ++ body ++ closing ++ rest
  line : '\n' ∉ body
  shortest : ∀ body' rest', s = opening ++ body' ++ closing ++ rest' → '\n' ∉ body' →
    body.length ≤ body'.length

namespace Placeholder

/-- A body is read exactly where a text begins with the least between two marks on one line. -/
theorem readBody?_eq_some_iff {opening closing s body rest : Text} :
    readBody? opening closing s = some (body, rest) ↔
      Bracketed opening closing s body rest := by
  simp only [readBody?, splitLine?, Option.bind_eq_bind, Option.bind_eq_some_iff, Prod.exists]
  constructor
  · rintro ⟨inner, opened, before, after, closed, line⟩
    obtain rfl := Text.after?_eq_some opened
    obtain ⟨rfl, first⟩ := Text.splitAtFirst?_eq_some_iff.mp closed
    split at line
    · simp at line
    · next clear =>
      obtain ⟨rfl, rfl⟩ := Prod.mk.inj (Option.some.inj line)
      refine ⟨by simp, clear, fun body' rest' split _ => first body' rest' ?_⟩
      simpa using split
  · rintro ⟨rfl, line, shortest⟩
    have opened : Text.after? opening (opening ++ body ++ closing ++ rest) =
        some (body ++ closing ++ rest) := by
      rw [List.append_assoc, List.append_assoc, List.append_assoc]
      exact Text.after?_append _ _
    refine ⟨_, opened, body, rest, ?_, if_neg line⟩
    refine Text.splitAtFirst?_eq_some_iff.mpr ⟨rfl, fun body' rest' split => ?_⟩
    by_contra less
    -- Something shorter would be a part of the body, and so on the same line.
    have inside : body' <+: body := by
      have shorter : body' <+: body ++ closing ++ rest :=
        ⟨closing ++ rest', by simpa using split.symm⟩
      have longer : body <+: body ++ closing ++ rest := ⟨closing ++ rest, by simp⟩
      exact List.prefix_of_prefix_length_le shorter longer (by omega)
    refine less (shortest body' rest' ?_ fun newline => line (inside.subset newline))
    simpa using congrArg (opening ++ ·) split

/-- A placeholder begins a text: three braces are tried before two. -/
inductive Begins (s : Text) : Placeholder → Text → Prop where
  | three {body rest : Text}
      (found : Bracketed ['\x7b', '\x7b', '\x7b'] ['\x7d', '\x7d', '\x7d'] s body rest) :
      Begins s ⟨body, false⟩ rest
  | two {body rest : Text}
      (noThree : ∀ body rest,
        ¬Bracketed ['\x7b', '\x7b', '\x7b'] ['\x7d', '\x7d', '\x7d'] s body rest)
      (found : Bracketed ['\x7b', '\x7b'] ['\x7d', '\x7d'] s body rest) :
      Begins s ⟨body, true⟩ rest

/-- A placeholder is read exactly where one begins. -/
theorem read_eq_some_iff {before : Option Char} {s rest : Text} {p : Placeholder} :
    read before s = some (p, rest) ↔ Begins s p rest := by
  rw [read]
  split <;> rename_i found
  · have three := readBody?_eq_some_iff.mp found
    constructor
    · intro h
      obtain ⟨rfl, rfl⟩ := Prod.mk.inj (Option.some.inj h)
      exact .three three
    · rintro (found' | ⟨noThree, _⟩)
      · rw [readBody?_eq_some_iff.mpr found'] at found
        obtain ⟨rfl, rfl⟩ := Prod.mk.inj (Option.some.inj found)
        rfl
      · exact absurd three (noThree _ _)
  · have noThree : ∀ body rest,
        ¬Bracketed ['\x7b', '\x7b', '\x7b'] ['\x7d', '\x7d', '\x7d'] s body rest := by
      intro body rest three
      rw [readBody?_eq_some_iff.mpr three] at found
      simp at found
    constructor
    · intro h
      obtain ⟨⟨body, rest⟩, two, same⟩ := Option.map_eq_some_iff.mp h
      obtain ⟨rfl, rfl⟩ := Prod.mk.inj same
      exact .two noThree (readBody?_eq_some_iff.mp two)
    · rintro (three | ⟨_, two⟩)
      · exact absurd three (noThree _ _)
      · rw [readBody?_eq_some_iff.mpr two]
        rfl

/-- A text falls into placeholders and the texts around them. -/
inductive Splits : Text → List Text → List Placeholder → Prop where
  | nil : Splits [] [[]] []
  | plain {c : Char} {s u : Text} {us : List Text} {ps : List Placeholder}
      (nothing : ∀ p rest, ¬Begins (c :: s) p rest) (behind : Splits s (u :: us) ps) :
      Splits (c :: s) ((c :: u) :: us) ps
  | found {s rest : Text} {us : List Text} {p : Placeholder} {ps : List Placeholder}
      (here : Begins s p rest) (behind : Splits rest us ps) : Splits s ([] :: us) (p :: ps)

theorem read_eq_none {before : Option Char} {s : Text} (nothing : ∀ p rest, ¬Begins s p rest) :
    read before s = none := by
  cases found : read before s with
  | none => rfl
  | some answer => exact absurd (read_eq_some_iff.mp found) (nothing _ _)

/-- However a text falls apart, the scan cuts it so. -/
theorem Splits.scan_eq {s : Text} {us : List Text} {ps : List Placeholder}
    (splits : Splits s us ps) (before : Option Char) :
    Text.around (Text.scanFrom read before 0 s) = us ∧
      Text.foundValues (Text.scanFrom read before 0 s) = ps ∧
        Text.foundSources (Text.scanFrom read before 0 s) = ps.map written := by
  induction splits generalizing before with
  | nil => exact ⟨rfl, rfl, rfl⟩
  | @plain c s u us ps nothing behind ih =>
    obtain ⟨around, values, sources⟩ := ih (some c)
    rw [Text.scanFrom, read_eq_none nothing]
    obtain ⟨rfl, rfl⟩ := List.cons.inj around
    exact ⟨rfl, values, sources⟩
  | @found s rest us p ps here behind ih =>
    have recognised : read before s = some (p, rest) := read_eq_some_iff.mpr here
    obtain rfl := read_eq_some recognised
    obtain ⟨before', scanned⟩ := Text.scanFrom_found read p.written_ne_nil recognised
    obtain ⟨around, values, sources⟩ := ih before'
    rw [scanned, Text.around_found, Text.foundValues_found, Text.foundSources_found, around, values,
      sources]
    exact ⟨rfl, rfl, rfl⟩

/-- Every text falls into placeholders and the texts around them. -/
theorem exists_splits (s : Text) : ∃ us ps, Splits s us ps := by
  induction length : s.length using Nat.strong_induction_on generalizing s with
  | _ n ih =>
    cases s with
    | nil => exact ⟨_, _, .nil⟩
    | cons c s =>
      by_cases here : ∃ p rest, Begins (c :: s) p rest
      · obtain ⟨p, rest, here⟩ := here
        have recognised : read none (c :: s) = some (p, rest) := read_eq_some_iff.mpr here
        have split := congrArg List.length (read_eq_some recognised)
        have some := List.length_pos_iff.mpr p.written_ne_nil
        rw [List.length_append] at split
        obtain ⟨us, ps, behind⟩ := ih rest.length (by omega) rest rfl
        exact ⟨_, _, .found here behind⟩
      · have nothing : ∀ p rest, ¬Begins (c :: s) p rest :=
          fun p rest begins => here ⟨p, rest, begins⟩
        obtain ⟨us, ps, behind⟩ := ih s.length (by simp [← length]) s rfl
        cases us with
        | nil => cases behind
        | cons u us => exact ⟨_, _, .plain nothing behind⟩

/-- Whether a placeholder stands for the value whose name is all that is between its braces. -/
structure IsName (body : Text) : Prop where
  filled : Text.trim body ≠ []
  noDash : (Text.trim body).head? ≠ some '-'
  noHash : (Text.trim body).head? ≠ some '#'
  unassigned : ∀ attr name quote, ¬Assigns body attr name quote

end Placeholder

open Placeholder (IsName)

namespace Request

/-- A placeholder asks for nothing exactly if it is blank or begins with a dash. -/
theorem parse?_eq_none_iff {body : Text} :
    parse? body = none ↔ Text.trim body = [] ∨ (Text.trim body).head? = some '-' := by
  unfold parse?
  dsimp only
  split <;> rename_i eq
  · simp [eq]
  · simp [eq]
  · simp [eq]
  · rename_i filled noDash
    refine ⟨nofun, ?_⟩
    rintro (empty | dash)
    · exact absurd empty filled
    · obtain ⟨rest, eq⟩ := List.head?_eq_some_iff.mp dash
      exact absurd eq (noDash rest)

/-- Where nothing else applies, all of the text is a name. -/
theorem parse?_of_getD {s : Text} {request : Request}
    (h : some ((assignment? s).getD (.value s)) = some request) :
    request = .value s ∨ ∃ attr name quote, request = .attribute attr name quote := by
  cases found : assignment? s with
  | none => exact .inl (by simpa [found, eq_comm] using h)
  | some assigned =>
    obtain ⟨_, _, _, _, _, _, _, _, _, rfl⟩ := assignment?_eq_some_iff.mp found
    exact .inr ⟨_, _, _, by simpa [found, eq_comm] using h⟩

/-- A placeholder includes a template exactly if it begins with a hash sign. -/
theorem parse?_eq_template_iff {body path : Text} :
    parse? body = some (.template path) ↔
      ∃ written, Text.trim body = '#' :: written ∧ path = Text.trim written := by
  unfold parse?
  dsimp only
  split <;> rename_i eq
  · simp [eq]
  · simp [eq]
  · simp [eq, eq_comm]
  · constructor
    · intro h
      rcases parse?_of_getD h with value | ⟨_, _, _, assigned⟩
      · simp at value
      · simp at assigned
    · rintro ⟨written, hash, _⟩
      exact absurd hash (eq written)

theorem eq_trim_of_parse? {body name : Text} (h : parse? body = some (.value name)) :
    name = Text.trim body := by
  unfold parse? at h
  dsimp only at h
  split at h
  · simp at h
  · simp at h
  · simp at h
  · rcases parse?_of_getD h with value | ⟨_, _, _, assigned⟩
    · exact Request.value.inj value
    · simp at assigned

/-- A placeholder asks for a plain value exactly if there is nothing but its name between the
braces. -/
theorem parse?_eq_value_iff {body name : Text} :
    parse? body = some (.value name) ↔ name = Text.trim body ∧ IsName body := by
  constructor
  · intro h
    have asks : ¬(Text.trim body = [] ∨ (Text.trim body).head? = some '-') := by
      intro nothing
      simp [parse?_eq_none_iff.mpr nothing] at h
    obtain ⟨filled, noDash⟩ := not_or.mp asks
    refine ⟨eq_trim_of_parse? h, filled, noDash, ?_, ?_⟩
    · intro hash
      obtain ⟨written, eq⟩ := List.head?_eq_some_iff.mp hash
      simp [parse?_eq_template_iff.mpr ⟨written, eq, rfl⟩] at h
    · intro attr name quote assigns
      simp [parse?_eq_attribute_iff.mpr assigns] at h
  · rintro ⟨rfl, isName⟩
    cases asked : parse? body with
    | none =>
      rcases parse?_eq_none_iff.mp asked with empty | dash
      · exact absurd empty isName.filled
      · exact absurd dash isName.noDash
    | some request =>
      rcases request with path | ⟨attr, name, quote⟩ | name
      · obtain ⟨written, hash, _⟩ := parse?_eq_template_iff.mp asked
        exact absurd (by rw [hash]; rfl) isName.noHash
      · exact absurd (parse?_eq_attribute_iff.mp asked) (isName.unassigned attr name quote)
      · rw [eq_trim_of_parse? asked]

end Request

namespace Placeholder

/-- What a placeholder gives, from a state to a state: nothing, or a text that is made of what the
sources have. -/
inductive Gives (sources : Sources τ) (p : Placeholder) (t : τ) : Option Text → τ → Prop where
  | empty (blank : Text.trim p.body = []) : Gives sources p t none t
  | dash (dash : (Text.trim p.body).head? = some '-') : Gives sources p t none t
  | template {path : Text} {answer : Option Text} {t' : τ} (hash : Text.trim p.body = '#' :: path)
      (given : sources.template (Text.trim path) t = (answer, t')) :
      Gives sources p t (answer.map p.escape) t'
  | assigned {attr name : Text} {quote : Char} {answer : Option Text} {t' : τ}
      (assigns : Assigns p.body attr name quote) (given : sources.value name t = (answer, t')) :
      Gives sources p t
        (answer.map fun s => attr ++ ['=', quote] ++ escapeAttr (p.escape s) ++ [quote]) t'
  | value {answer : Option Text} {t' : τ} (isName : IsName p.body)
      (given : sources.value (Text.trim p.body) t = (answer, t')) :
      Gives sources p t (answer.map p.escape) t'

/-- The rules for what a placeholder gives describe exactly what filling it does. -/
theorem gives_iff {sources : Sources τ} {p : Placeholder} {t t' : τ} {answer : Option Text} :
    p.Gives sources t answer t' ↔ p.fill sources t = (answer, t') := by
  constructor
  · rintro (blank | dash | ⟨hash, given⟩ | ⟨assigns, given⟩ | ⟨isName, given⟩)
    · have request : p.request? = none := Request.parse?_eq_none_iff.mpr (.inl blank)
      simp only [fill, request]
    · have request : p.request? = none := Request.parse?_eq_none_iff.mpr (.inr dash)
      simp only [fill, request]
    · have request : p.request? = _ := Request.parse?_eq_template_iff.mpr ⟨_, hash, rfl⟩
      simp only [fill, request, given]
    · have request : p.request? = _ := Request.parse?_eq_attribute_iff.mpr assigns
      simp only [fill, request, given]
    · have request : p.request? = _ := Request.parse?_eq_value_iff.mpr ⟨rfl, isName⟩
      simp only [fill, request, given]
  · intro h
    unfold fill at h
    cases asked : p.request? with
    | none =>
      simp only [asked, Prod.mk.injEq] at h
      obtain ⟨rfl, rfl⟩ := h
      rcases Request.parse?_eq_none_iff.mp asked with blank | dash
      · exact .empty blank
      · exact .dash dash
    | some request =>
      simp only [asked] at h
      rcases request with path | ⟨attr, name, quote⟩ | name
      · obtain ⟨written, hash, rfl⟩ := Request.parse?_eq_template_iff.mp asked
        obtain ⟨rfl, rfl⟩ := Prod.mk.inj h
        exact .template hash rfl
      · obtain ⟨rfl, rfl⟩ := Prod.mk.inj h
        exact .assigned (Request.parse?_eq_attribute_iff.mp asked) rfl
      · obtain ⟨rfl, isName⟩ := Request.parse?_eq_value_iff.mp asked
        obtain ⟨rfl, rfl⟩ := Prod.mk.inj h
        exact .value isName rfl

/-- What placeholders give, one after the other. -/
inductive GiveAll (sources : Sources τ) :
    List Placeholder → τ → List (Option Text) → τ → Prop where
  | nil (t : τ) : GiveAll sources [] t [] t
  | cons {p : Placeholder} {ps : List Placeholder} {t t' t'' : τ} {answer : Option Text}
      {answers : List (Option Text)} (gives : p.Gives sources t answer t')
      (others : GiveAll sources ps t' answers t'') :
      GiveAll sources (p :: ps) t (answer :: answers) t''

/-- Whether a placeholder asks for the value with a name: it assigns the value to an attribute, or
has nothing but the name between its braces. -/
inductive Asks (body : Text) : Text → Prop where
  | assigned {attr name : Text} {quote : Char} (assigns : Assigns body attr name quote) :
      Asks body name
  | value (isName : IsName body) : Asks body (Text.trim body)

/-- Why nothing is filled in for a placeholder: it is empty or begins with a dash, the template that
it includes gives nothing, or there is no text under the name that it asks for. -/
inductive Unfilled (ctx : Context τ) (template : Text → τ → Option Text × τ) (p : Placeholder)
    (t : τ) : Prop where
  | empty (blank : Text.trim p.body = [])
  | dash (dash : (Text.trim p.body).head? = some '-')
  | template {path : Text} (hash : Text.trim p.body = '#' :: path)
      (fails : (template (Text.trim path) t).1 = none)
  | value {name : Text} (asks : Asks p.body name) (lacks : ctx.Lacks name t)

/-- Nothing is filled in exactly for one of the reasons of `Unfilled`. -/
theorem fill_eq_none_iff {ctx : Context τ} {template : Text → τ → Option Text × τ}
    {p : Placeholder} {t : τ} :
    (p.fill ⟨ctx.resolve, template⟩ t).1 = none ↔ p.Unfilled ctx template t := by
  constructor
  · intro nothing
    obtain ⟨answer, t', filled⟩ :
        ∃ answer t', p.fill ⟨ctx.resolve, template⟩ t = (answer, t') := ⟨_, _, rfl⟩
    rw [filled] at nothing
    cases gives_iff.mpr filled with
    | empty blank => exact .empty blank
    | dash dash => exact .dash dash
    | template hash given =>
      exact .template hash ((congrArg Prod.fst given).trans (Option.map_eq_none_iff.mp nothing))
    | assigned assigns given =>
      refine .value (.assigned assigns) (Context.resolve_eq_none_iff.mp ?_)
      exact (congrArg Prod.fst given).trans (Option.map_eq_none_iff.mp nothing)
    | value isName given =>
      refine .value (.value isName) (Context.resolve_eq_none_iff.mp ?_)
      exact (congrArg Prod.fst given).trans (Option.map_eq_none_iff.mp nothing)
  · rintro (blank | dash | ⟨hash, fails⟩ | ⟨assigns | isName, lacks⟩)
    · rw [gives_iff.mp (.empty blank)]
    · rw [gives_iff.mp (.dash dash)]
    · rw [gives_iff.mp (.template hash rfl)]
      exact Option.map_eq_none_iff.mpr fails
    · rw [gives_iff.mp (.assigned assigns rfl)]
      exact Option.map_eq_none_iff.mpr (Context.resolve_eq_none_iff.mpr lacks)
    · rw [gives_iff.mp (.value isName rfl)]
      exact Option.map_eq_none_iff.mpr (Context.resolve_eq_none_iff.mpr lacks)

/-- The rules for placeholders one after the other describe exactly what filling a page does. -/
theorem giveAll_iff {sources : Sources τ} {pieces : List (Piece Placeholder)} {t t' : τ}
    {texts : List (Option Text)} :
    GiveAll sources (Text.foundValues pieces) t texts t' ↔
      texts = answers sources pieces t ∧ t' = (fillPieces sources pieces t).2 := by
  induction pieces generalizing t texts with
  | nil =>
    constructor
    · rintro ⟨⟩
      exact ⟨rfl, rfl⟩
    · rintro ⟨rfl, rfl⟩
      exact .nil _
  | cons piece pieces ih =>
    cases piece with
    | plain c => exact ih
    | found source p =>
      have state : (fillPieces sources (.found source p :: pieces) t).2 =
          (fillPieces sources pieces (p.fill sources t).2).2 := by
        simp only [fillPieces]
        split <;> rfl
      rw [Text.foundValues_found, answers, state]
      constructor
      · rintro ⟨⟩
        next gives others =>
          rw [gives_iff.mp gives]
          obtain ⟨rfl, rfl⟩ := ih.mp others
          exact ⟨rfl, rfl⟩
      · rintro ⟨rfl, rfl⟩
        exact .cons (gives_iff.mpr rfl) (ih.mpr ⟨rfl, rfl⟩)

end Placeholder

/-- A filled page is its texts with the answers between them; a placeholder without an answer stays
as it is written. -/
theorem join_fillPieces (sources : Sources τ) (pieces : List (Piece Placeholder)) (t : τ) :
    Part.join (fillPieces sources pieces t).1 =
      Text.weave (Text.around pieces)
        ((Text.foundSources pieces).zipWith (fun source answer => answer.getD source)
          (answers sources pieces t)) := by
  induction pieces generalizing t with
  | nil => rfl
  | cons piece pieces ih =>
    cases piece with
    | plain c => simp [fillPieces, answers, ih]
    | found source p =>
      simp only [fillPieces, answers, Text.around_found, Text.foundSources_found,
        List.zipWith_cons_cons, Text.weave_nil_cons, ← ih]
      cases (p.fill sources t).1 <;> simp

/-- Every skeleton falls into placeholders and the texts around them in one way.  The page is made
of the same texts, with what each placeholder gives, from left to right, or else the placeholder as
it is written; if none gives anything, the skeleton stays as it is.  A placeholder gives nothing
for a few reasons only. -/
theorem fillValues_exact (ctx : Context τ) (template : Text → τ → Option Text × τ)
    (skeleton : Text) (t : τ) :
    ∃ us ps texts,
      Placeholder.Splits skeleton us ps ∧
      (∀ us' ps', Placeholder.Splits skeleton us' ps' → us' = us ∧ ps' = ps) ∧
      skeleton = Text.weave us (ps.map Placeholder.written) ∧
      (∀ texts' t', Placeholder.GiveAll ⟨ctx.resolve, template⟩ ps t texts' t' ↔
        texts' = texts ∧ t' = (fillValues ⟨ctx.resolve, template⟩ skeleton t).2) ∧
      Part.join (fillValues ⟨ctx.resolve, template⟩ skeleton t).1 =
        Text.weave us (ps.zipWith (fun p answer => answer.getD p.written) texts) ∧
      ((∀ answer ∈ texts, answer = none) →
        Part.join (fillValues ⟨ctx.resolve, template⟩ skeleton t).1 = skeleton) ∧
      ∀ (p : Placeholder) u,
        (∃ u', p.Gives ⟨ctx.resolve, template⟩ u none u') ↔ p.Unfilled ctx template u := by
  obtain ⟨us, ps, splits⟩ := Placeholder.exists_splits skeleton
  obtain ⟨around, values, sources⟩ := splits.scan_eq none
  have whole := Text.weave_scan Placeholder.read skeleton
  rw [Text.scan, around, sources] at whole
  have page := join_fillPieces ⟨ctx.resolve, template⟩ (Text.scan Placeholder.read skeleton) t
  have count := length_answers ⟨ctx.resolve, template⟩ (Text.scan Placeholder.read skeleton) t
  rw [Text.scan, around, sources, List.zipWith_map_left] at page
  rw [Text.scan, values] at count
  refine ⟨us, ps, _, splits, fun us' ps' splits' => ?_, whole.symm, fun texts' t' => ?_, page, ?_,
    fun p u => ?_⟩
  · obtain ⟨around', values', _⟩ := splits'.scan_eq none
    exact ⟨around'.symm.trans around, values'.symm.trans values⟩
  · rw [← values]
    exact Placeholder.giveAll_iff
  · intro nothing
    refine page.trans (Eq.trans (congrArg (Text.weave us) ?_) whole)
    refine List.ext_getElem (by simp [count]) fun i _ _ => ?_
    simp [nothing _ (List.getElem_mem _)]
  · rw [← Placeholder.fill_eq_none_iff]
    constructor
    · rintro ⟨u', gives⟩
      rw [Placeholder.gives_iff.mp gives]
    · intro fails
      exact ⟨_, Placeholder.gives_iff.mpr (Prod.ext fails rfl)⟩

end Stencil
