import Mathlib.Tactic.SplitIfs
import Stencil.Config.Load

/-!
# Loaded configurations

A configuration is checked once its file has been read, and again once settings have been replaced.
A load that replaces settings is therefore a load that does not, and a change of just those fields
that a setting is given for (`Config.load_overridden`).  Settings mend nothing that is wrong with a
file, because it is checked before them, and all that they can spoil is the name of the layout.

What a file is refused for is told on what it resolves to (`Config.load_named_eq_ok_iff`).  A
lifetime that is zero, negative or no number falls back to its default, so that a sweeper that would
run all the time can only be asked for by a text that is rounded to zero
(`Config.sweepInterval_eq_zero_iff`).
-/

namespace Stencil

namespace Config

variable {c c' base : Config} {o : Overrides} {around : Surroundings}

/-- What the check of a configuration asks for. -/
structure Valid (c : Config) : Prop where
  extension : c.extension ≠ []
  /-- No period leads the extension, and no separator is in it. -/
  bare : c.extension.head? ≠ some '.' ∧ '/' ∉ c.extension ∧ '\\' ∉ c.extension
  /-- The name of a layout is not all white space. -/
  layout : ∀ layout ∈ c.layout, ∃ ch ∈ layout, isSpace ch = false
  sweepInterval : c.sweepInterval ≠ .finite 0

/-- A setting replaces a field: from then on the field has the value that is given, if one is, and
otherwise the one it had. -/
def Replaces {α : Type} (setting : Option α) (before after : α) : Prop :=
  (∀ value, setting = some value → after = value) ∧ (setting = none → after = before)

/-- Each setting replaces its own field, and no other field changes. -/
structure Overridden (o : Overrides) (base c : Config) : Prop where
  directory : Replaces o.directory base.directory c.directory
  /-- There may be no layout before, and there is one after. -/
  layout : Replaces (o.layout.map some) base.layout c.layout
  cacheEnabled : Replaces o.cacheEnabled base.cacheEnabled c.cacheEnabled
  ttl : Replaces o.ttl base.ttl c.ttl
  noLayout : Replaces o.noLayout base.noLayout c.noLayout
  extension : c.extension = base.extension
  assetsUrl : c.assetsUrl = base.assetsUrl
  sweepInterval : c.sweepInterval = base.sweepInterval
  nonce : c.nonce = base.nonce
  file : c.file = base.file

theorem any_isSpaceOnly_eq_false_iff {layout : Option Text} :
    layout.any Text.isSpaceOnly = false ↔ ∀ name ∈ layout, ∃ ch ∈ name, isSpace ch = false := by
  cases layout <;> simp [Text.isSpaceOnly]

/-- The check finds no fault exactly in a valid configuration. -/
theorem fault?_eq_none_iff : c.fault? = none ↔ c.Valid := by
  have bare : isBareExtension c.extension = true ↔
      c.extension.head? ≠ some '.' ∧ '/' ∉ c.extension ∧ '\\' ∉ c.extension := by
    simp [isBareExtension, and_assoc]
  unfold fault?
  constructor
  · intro none
    split_ifs at none with empty notBare blank zero
    exact ⟨by simpa using empty, bare.mp (by simpa using notBare),
      any_isSpaceOnly_eq_false_iff.mp (by simpa using blank), zero⟩
  · intro valid
    have blank := any_isSpaceOnly_eq_false_iff.mpr valid.layout
    simp [valid.extension, bare.mpr valid.bare, blank, valid.sweepInterval]

theorem checked_eq_ok_iff : checked c = .ok c' ↔ c' = c ∧ c.Valid := by
  rw [← fault?_eq_none_iff, checked]
  cases c.fault? <;> simp [eq_comm]

theorem replaces_iff {α : Type} {setting : Option α} {before after : α} :
    Replaces setting before after ↔ after = setting.getD before := by
  cases setting <;> simp [Replaces, eq_comm]

/-- Replacing each setting in its own field is what `override` does. -/
theorem overridden_iff : Overridden o base c ↔ c = base.override o := by
  have layout : (o.layout.map some).getD base.layout = o.layout.or base.layout := by
    cases o.layout <;> rfl
  constructor
  · rintro ⟨directory, shown, cacheEnabled, ttl, noLayout, extension, assetsUrl, sweepInterval,
      nonce, file⟩
    rw [replaces_iff] at directory shown cacheEnabled ttl noLayout
    cases c
    simp_all [override]
  · rintro rfl
    exact ⟨replaces_iff.mpr rfl, replaces_iff.mpr layout.symm, replaces_iff.mpr rfl,
      replaces_iff.mpr rfl, replaces_iff.mpr rfl, rfl, rfl, rfl, rfl, rfl⟩

/-- All that settings can spoil in a valid configuration is the name of its layout. -/
theorem fault?_override (valid : base.Valid) :
    (base.override o).fault? =
      if o.layout.any Text.isSpaceOnly then some .blankLayout else none := by
  have kept : (o.layout.or base.layout).any Text.isSpaceOnly = o.layout.any Text.isSpaceOnly := by
    cases o.layout with
    | none => exact any_isSpaceOnly_eq_false_iff.mpr valid.layout
    | some layout => rfl
  have clean := fault?_eq_none_iff.mpr valid
  unfold fault? at clean
  split_ifs at clean with empty notBare blank zero
  rw [fault?, override, if_neg empty, if_neg notBare, if_neg zero, kept]

theorem checked_override_eq_error_iff (valid : base.Valid) {e : ConfigError} :
    checked (base.override o) = .error e ↔
      e = .invalid .blankLayout ∧
        ∃ layout, o.layout = some layout ∧ ∀ ch ∈ layout, isSpace ch = true := by
  have blank : o.layout.any Text.isSpaceOnly = true ↔
      ∃ layout, o.layout = some layout ∧ ∀ ch ∈ layout, isSpace ch = true := by
    simp [Option.any_eq_true, Text.isSpaceOnly]
  rw [checked, fault?_override valid, ← blank]
  split_ifs with named <;> simp [named, eq_comm]

theorem ofDefaults_valid (directory : Text) : (ofDefaults directory).Valid :=
  fault?_eq_none_iff.mp rfl

/-- The text of a file is read, resolved and then checked. -/
theorem ofText_eq_ok_iff {env : Environment} {path content : Text} :
    ofText env path content = .ok c ↔
      ∃ file resolved, ConfigFile.parse? content = some file ∧
        ofFile env (directoryOf path) file = .ok resolved ∧
        c = { resolved with file := some path } ∧ c.Valid := by
  unfold ofText
  cases ConfigFile.parse? content with
  | none => simp
  | some file =>
    cases resolves : ofFile env (directoryOf path) file with
    | error name => simp [resolves]
    | ok resolved =>
      simp only [resolves, checked_eq_ok_iff]
      constructor
      · rintro ⟨rfl, valid⟩
        exact ⟨file, resolved, rfl, resolves, rfl, valid⟩
      · rintro ⟨_, resolved', ⟨⟩, same, rfl, valid⟩
        obtain rfl := Except.ok.inj (resolves.symm.trans same)
        exact ⟨rfl, valid⟩

theorem loadFile_eq_ok_iff {path : Text} :
    loadFile around path = .ok c ↔
      ∃ content, around.files.readText path = .ok content ∧
        ofText around.environment path content = .ok c := by
  unfold loadFile
  cases around.files.readText path <;> simp

theorem contains_of_readText {files : Files} {path content : Text}
    (read : files.readText path = .ok content) : files.contains path = true := by
  unfold Files.readText at read
  unfold Files.contains
  cases bytes : files.read path with
  | error e => simp [bytes] at read
  | ok bytes => rfl

theorem load_none (around : Surroundings) (path : Option Text) :
    load around path none = loadBase around path := by
  unfold load
  cases loadBase around path <;> rfl

/-- Which files load: those that can be read, whose text is that of a file, whose directory can be
expanded, and that are valid once they are resolved. -/
theorem load_named_eq_ok_iff {path : Text} :
    load around (some path) none = .ok c ↔
      ∃ content file resolved, around.files.readText path = .ok content ∧
        ConfigFile.parse? content = some file ∧
        ofFile around.environment (directoryOf path) file = .ok resolved ∧
        c = { resolved with file := some path } ∧ c.Valid := by
  have named : loadBase around (some path) =
      if around.files.contains path then loadFile around path else .error (.notFound path) := rfl
  rw [load_none, named]
  constructor
  · intro loaded
    split_ifs at loaded
    obtain ⟨content, read, given⟩ := loadFile_eq_ok_iff.mp loaded
    obtain ⟨file, resolved, parsed, resolves, is, valid⟩ := ofText_eq_ok_iff.mp given
    exact ⟨content, file, resolved, read, parsed, resolves, is, valid⟩
  · rintro ⟨content, file, resolved, read, parsed, resolves, is, valid⟩
    rw [if_pos (contains_of_readText read)]
    exact loadFile_eq_ok_iff.mpr ⟨content, read,
      ofText_eq_ok_iff.mpr ⟨file, resolved, parsed, resolves, is, valid⟩⟩

/-- What is loaded is valid, wherever it comes from. -/
theorem valid_of_load {path : Option Text} (loaded : load around path none = .ok base) :
    base.Valid := by
  rw [load_none, loadBase] at loaded
  split at loaded
  · split_ifs at loaded
    obtain ⟨content, -, given⟩ := loadFile_eq_ok_iff.mp loaded
    obtain ⟨-, -, -, -, -, valid⟩ := ofText_eq_ok_iff.mp given
    exact valid
  · obtain rfl := Except.ok.inj loaded
    exact ofDefaults_valid _

/-- Settings are put into what loads without them, and the whole is checked again. -/
theorem load_some (around : Surroundings) (path : Option Text) (o : Overrides) :
    load around path (some o) =
      (load around path none).bind fun base => checked (base.override o) := by
  rw [load_none]
  unfold load
  cases loadBase around path <;> rfl

/-- A load that replaces settings succeeds just if the load without them does and what comes of it
is valid: then each setting has replaced its own field, and all else is the same.  It fails as the
load without them does, or because the layout is given a name of nothing but white space. -/
theorem load_overridden (around : Surroundings) (path : Option Text) (o : Overrides) :
    (∀ c, load around path (some o) = .ok c ↔
      c.fault? = none ∧ c.Valid ∧
        ∃ base, load around path none = .ok base ∧ base.Valid ∧ Overridden o base c) ∧
    ∀ e, load around path (some o) = .error e ↔
      load around path none = .error e ∨
        e = .invalid .blankLayout ∧ (∃ base, load around path none = .ok base) ∧
          ∃ layout, o.layout = some layout ∧ ∀ ch ∈ layout, isSpace ch = true := by
  rw [load_some]
  cases loaded : load around path none with
  | error e => simp [Except.bind]
  | ok base =>
    have valid := valid_of_load loaded
    constructor
    · intro c
      simp only [Except.bind, checked_eq_ok_iff, fault?_eq_none_iff, overridden_iff]
      constructor
      · rintro ⟨rfl, kept⟩
        exact ⟨kept, kept, base, rfl, valid, rfl⟩
      · rintro ⟨-, kept, _, ⟨⟩, -, rfl⟩
        exact ⟨rfl, kept⟩
    · intro e
      simp [Except.bind, checked_override_eq_error_iff valid]

def site : Surroundings where
  files := ⟨fun path =>
    if path = ("site/imdl.toml" : Text) then
      .ok "[templates]\nlayout = 'base'\n[cache]\nttl = 0\n".toUTF8
    else .error .notFound⟩
  environment := {}
  workingDirectory := []

example :
    let bare : Overrides := { noLayout := some true }
    let unnamed : Overrides := { layout := some " " }
    (load site (some "site/imdl.toml") (some bare)).toOption =
        some
          { directory := "site/views", layout := some ("base" : Text), noLayout := true
            file := some ("site/imdl.toml" : Text) } ∧
      (load site (some "site/imdl.toml") (some unnamed)).toOption = none := by
  decide +kernel

/-- Of all lifetimes in a file, only a text that is rounded to nothing comes to nothing. -/
theorem resolve_eq_zero_iff {fallback : Lifetime} (lasts : fallback ≠ .finite 0)
    {setting : LifetimeSetting} :
    setting.resolve fallback = .finite 0 ↔
      ∃ s, setting = .text s ∧ Lifetime.parse? s = some (.finite 0) := by
  cases setting with
  | millis ms =>
    have positive : Lifetime.ofMillis? ms ≠ some (.finite 0) := by
      unfold Lifetime.ofMillis?
      split_ifs with endless unset
      · simp
      · simp
      · rw [Ne, Option.some.injEq, Lifetime.finite.injEq]
        omega
    rw [LifetimeSetting.resolve]
    cases given : Lifetime.ofMillis? ms <;> simp_all
  | text s =>
    rw [LifetimeSetting.resolve]
    cases given : Lifetime.parse? s <;> simp_all

/-- A file asks for a sweeper that runs all the time only by a text. -/
theorem sweepInterval_eq_zero_iff {env : Environment} {directory : Text} {file : ConfigFile}
    (resolves : ofFile env directory file = .ok c) :
    c.sweepInterval = .finite 0 ↔
      ∃ s, file.sweepInterval = some (.text s) ∧ Lifetime.parse? s = some (.finite 0) := by
  unfold ofFile at resolves
  cases expands : env.expand (file.directory.getD defaultDirectory) with
  | error name =>
    rw [expands] at resolves
    cases resolves
  | ok expanded =>
    rw [expands] at resolves
    obtain rfl := Except.ok.inj resolves
    cases file.sweepInterval with
    | none => simp
    | some setting => simp [resolve_eq_zero_iff]

/-- Less than half a millisecond is no lifetime at all, and half of one is a whole one. -/
example : Lifetime.parse? "0.4" = some (.finite 0) ∧ Lifetime.parse? "0.5" = some (.finite 1) := by
  decide +kernel

end Config

end Stencil
