import Stencil.CommandLine.Arguments

/-!
# Help

What the program says about itself: its commands and, for each command, its options, in columns.
-/

namespace Stencil.CommandLine

def programName : Text := "imdl"

def version : Text := "0.1.0"

/-- A line of help: what stands in the left column and what it means. -/
abbrev HelpRow := Text × Text

def padTo (width : Nat) (s : Text) : Text := s ++ List.replicate (width - s.length) ' '

/-- Rows under a heading; the left column is as wide as its widest text. -/
def helpTable (heading : Text) (rows : List HelpRow) : List Text :=
  let width := rows.foldl (fun w row => max w row.1.length) 0
  (heading ++ ":") :: rows.map fun row => "  " ++ padTo width row.1 ++ "  " ++ row.2

/-- The name of what is asked for in help that every page mentions. -/
def helpRow : HelpRow := ("-h, --help", "Print help")

namespace CommandOption

def helpLabel (o : CommandOption) : Text :=
  let letter : Text := match o.letter? with
    | some c => ['-', c, ',', ' ']
    | none => "    "
  let value : Text := match o.valueName? with
    | some name => " <" ++ name ++ ">"
    | none => []
  letter ++ "--" ++ o.name ++ value

def helpRow (o : CommandOption) : HelpRow := (o.helpLabel, o.summary)

end CommandOption

namespace HelpTopic

def helpCommandRow : HelpRow :=
  ("help", "Print this message or the help of the given subcommand(s)")

def programLines : List Text :=
  ["IMDL template engine - CLI".toList, [], "Usage: imdl <COMMAND>".toList, []] ++
    helpTable "Commands" (Command.all.map (fun c => (c.name, c.summary)) ++ [helpCommandRow]) ++
    [[]] ++ helpTable "Options" [helpRow, ("-V, --version", "Print version")]

def commandLines (c : Command) : List Text :=
  let template : HelpRow :=
    ("<TEMPLATE>", c.purpose ++ ", as a logical id or a path under the template directory")
  [c.summary, [], "Usage: imdl " ++ c.name ++ " [OPTIONS] <TEMPLATE>", []] ++
    helpTable "Arguments" [template] ++ [[]] ++
    helpTable "Options" (c.options.map CommandOption.helpRow ++ [helpRow])

def helpLines : List Text :=
  [helpCommandRow.2, [], "Usage: imdl help [COMMAND]...".toList, []] ++
    helpTable "Arguments" [("[COMMAND]...", "Print help for the subcommand(s)")]

def print (topic : HelpTopic) : Text :=
  let lines := match topic with
    | .program => programLines
    | .command c => commandLines c
    | .help => helpLines
  lines.flatMap fun line => line ++ ['\n']

end HelpTopic

end Stencil.CommandLine
