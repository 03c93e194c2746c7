/-
  Help on the program and its commands.

  A page says what a thing is for and how it is called, and lists its parts in two columns, the second
  of which starts two places after the longest entry of the first.
-/
import BlockScript.Command.Arguments

namespace BlockScript

namespace Help

open Arguments (CommandSpec commands rootOptions)

/-- Rows of two columns. -/
def columns (rows : List (String × String)) : String :=
  let width := rows.foldl (fun n row => max n row.1.length) 0
  String.join (rows.map fun (left, right) =>
    "  " ++ left ++ String.ofList (List.replicate (width + 2 - left.length) ' ') ++ right ++ "\n")

/-- A list under its title. -/
def section_ (title : String) (rows : List (String × String)) : String :=
  "\n" ++ title ++ ":\n" ++ columns rows

/-- An option by its long name, with its value. -/
def signature (o : OptionSpec) : String :=
  let value := match o.kind with
    | .value _ => " <" ++ o.long ++ ">"
    | _ => ""
  "--" ++ o.long ++ value

/-- The row of an option. -/
def optionRow (o : OptionSpec) : String × String :=
  let short := match o.short with
    | some c => "-" ++ c.toString ++ ", "
    | none => "    "
  (short ++ signature o, o.about)

/-- The row of the help command in the list of commands. -/
def helpRow : String × String :=
  ("help", "Print this message or the help of the given subcommand(s)")

/-- The page of the program. -/
def rootPage : String :=
  "Structural queries on bloc scripts\n\nUsage: bloc [OPTIONS] <COMMAND>\n"
    ++ section_ "Commands" (commands.map (fun c => (c.name, c.about)) ++ [helpRow])
    ++ section_ "Options" (rootOptions.map optionRow)

/-- The options of which one has to be given, as the line of use shows them. -/
def choiceOf (c : CommandSpec) : String :=
  let options := c.options.filter (c.choice.contains ·.long)
  if options.isEmpty then "" else " <" ++ String.intercalate "|" (options.map signature) ++ ">"

/-- The page of a command. -/
def commandPage (c : CommandSpec) : String :=
  c.about ++ "\n\nUsage: bloc " ++ c.name ++ " [OPTIONS]" ++ choiceOf c
    ++ (if c.onFile then " <file>\n" ++ section_ "Arguments" [("<file>", "Path to the bloc script")]
        else "\n")
    ++ section_ "Options" (c.allOptions.map optionRow)

/-- The page of the help command. -/
def helpPage : String :=
  helpRow.2 ++ "\n\nUsage: bloc help [COMMAND]...\n"
    ++ section_ "Arguments" [("[COMMAND]...", "Print help for the subcommand(s)")]

/-- The page on a topic: a command, help itself, or the program. -/
def page : Option String → Text
  | none => rootPage.toList
  | some name =>
    match commands.find? fun c => c.name = name with
    | some c => (commandPage c).toList
    | none => helpPage.toList

end Help

end BlockScript
