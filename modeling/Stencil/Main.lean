import Stencil.CommandLine.Run

/-!
# The program

The program looks up the files and variables that a request depends on, as they become known, and
prints what comes of it.
-/

namespace Stencil.CommandLine

/-- The error that the system reports for a file. -/
def fileError : IO.Error → FileError
  | .noFileOrDirectory _ _ _ => .notFound
  | .inappropriateType _ code _ => if code = 21 then .isDirectory else .notDirectory
  | .noSuchThing _ _ _ => .notFound
  | _ => .notFound

def readFile (path : Text) : IO (Except FileError ByteArray) := do
  try
    return .ok (← IO.FS.readBinFile (String.ofList path))
  catch e =>
    return .error (fileError e)

/-- The files and variables that have been looked up. -/
structure Known where
  files : List (Text × Except FileError ByteArray) := []
  values : List (Text × Option Text) := []

/-- What the program sees as far as it has been looked up. -/
def Known.surroundings (known : Known) (workingDirectory : List Text) : Surroundings :=
  { files := ⟨fun path => (known.files.lookup path).getD (.error .notFound)⟩
    environment :=
      { values := known.values.filterMap fun (name, value) => value.map (name, ·) }
    workingDirectory }

/-- Looks up the files among some paths that are not known yet. -/
def lookUpFiles (paths : List Text) (known : Known) : IO Known :=
  paths.foldlM (fun known path => do
    if (known.files.lookup path).isSome then return known
    return { known with files := (path, ← readFile path) :: known.files }) known

/-- Looks up the variables among some names that are not known yet. -/
def lookUpVariables (names : List Text) (known : Known) : IO Known :=
  names.foldlM (fun known name => do
    if (known.values.lookup name).isSome then return known
    let value ← IO.getEnv (String.ofList name)
    return { known with values := (name, value.map String.toList) :: known.values }) known

/-- Carries a request out, once everything that it depends on is known. -/
def settle (workingDirectory : List Text) (r : Request) : IO Outcome := do
  let mut known ← lookUpFiles (r.paths workingDirectory) {}
  repeat
    let around := known.surroundings workingDirectory
    let outcome := run around r
    let more ← lookUpVariables (Config.variableNames around r.config) known
    let more ← lookUpFiles outcome.paths more
    if more.files.length = known.files.length ∧ more.values.length = known.values.length then
      return outcome
    known := more
  return run (known.surroundings workingDirectory) r

def report (outcome : Outcome) (microseconds : Nat) : IO UInt32 := do
  let measures : Measures :=
    ⟨Text.ofNat microseconds, Text.ofNat (Text.byteSize outcome.output)⟩
  IO.print (String.ofList outcome.output)
  outcome.messages.forM fun m => IO.eprint (String.ofList (m.print measures))
  return if outcome.succeeded then 0 else 1

/-- The names that lead from the root to a directory. -/
def namesOf (directory : String) : List Text :=
  (components directory.toList).filter fun name => !isIdle name

end Stencil.CommandLine

open Stencil Stencil.CommandLine in
/-- Reads the arguments, carries the request out and prints what comes of it. -/
def main (args : List String) : IO UInt32 := do
  match Request.parse (args.map String.toList) with
  | .error .version =>
    IO.println (String.ofList (programName ++ " " ++ version))
    return 0
  | .error (.help topic) =>
    IO.print (String.ofList topic.print)
    return 0
  | .error .wrongUsage =>
    IO.eprint (String.ofList (HelpTopic.print .program))
    return 2
  | .ok r =>
    let directory ← IO.currentDir
    let start ← IO.monoNanosNow
    let outcome ← settle (namesOf directory.toString) r
    let finish ← IO.monoNanosNow
    report outcome ((finish - start) / 1000)
