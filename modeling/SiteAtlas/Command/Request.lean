import SiteAtlas.Command.Arguments
import SiteAtlas.Number.CountText

/-!
# Requests

What a command line asks for.
-/

namespace SiteAtlas.Command

/-- What a command line asks for. -/
inductive Request where
  | help
  | version
  | scan (project : String) (output : Option String) (workers : Option Nat)
  | pages (project : String)
  | components (project : String) (name : Option String)
  | exportGraph (project format focus : String) (output : Option String)
  | showConfig
  | setConfig (key value : String)
  deriving DecidableEq

namespace Request

/-- The option that asks for help. -/
def helpOption : OptionSpec :=
  { key := "help", names := ["--help"], takesValue := false }

/-- Options before the command. -/
def generalOptions : List OptionSpec :=
  [{ key := "version", names := ["--version", "-v"], takesValue := false },
   { key := "verbose", names := ["--verbose"], takesValue := false }, helpOption]

/-- The option for the output. -/
def outputOption : OptionSpec :=
  { key := "output", names := ["--output", "-o"] }

/-- The arguments of a command; none if help is asked for. -/
def arguments (options : List OptionSpec) (count : Nat) (args : List String) :
    Except UsageError (Option Arguments) := do
  let sorted ← sortArguments (helpOption :: options) true args
  if sorted.flags.contains helpOption.key then return none
  if sorted.plain.length = count then return some sorted else throw {}

/-- The number of workers in a text, at least one. -/
def workersOf (text : String) : Except UsageError Nat :=
  match Number.readCount? text.toList with
  | some n => if n < 1 then .error {} else .ok n
  | none => .error {}

/-- The file for the output, without null characters. -/
def outputOf (a : Arguments) : Except UsageError (Option String) :=
  match a.value? "output" with
  | some text => if text.contains '\x00' then .error {} else .ok (some text)
  | none => .ok none

/-- A request to scan. -/
def readScan (a : Arguments) : Except UsageError Request := do
  let output ← outputOf a
  let workers ← (a.value? "workers").mapM workersOf
  return .scan (a.plain.headD "") output workers

/-- A request to export. -/
def readExport (a : Arguments) : Except UsageError Request := do
  let output ← outputOf a
  return .exportGraph (a.plain.headD "") ((a.value? "format").getD "html")
    ((a.value? "focus").getD "") output

/-- A command: options, number of plain arguments, and their meaning. -/
structure Form where
  options : List OptionSpec := []
  count : Nat
  make : Arguments → Except UsageError Request

/-- The commands. -/
def forms : List (String × Form) :=
  [("scan",
     { options := [outputOption, { key := "workers", names := ["--workers"] }], count := 1
       make := readScan }),
   ("pages", { count := 1, make := fun a => .ok (.pages (a.plain.headD "")) }),
   ("components",
     { options := [{ key := "name", names := ["--name", "-n"] }], count := 1
       make := fun a => .ok (.components (a.plain.headD "") (a.value? "name")) }),
   ("export-graph",
     { options := [{ key := "format", names := ["--format", "-f"] },
         { key := "focus", names := ["--focus"] }, outputOption]
       count := 1
       make := readExport }),
   ("show-config", { count := 0, make := fun _ => .ok .showConfig }),
   ("set-config",
     { count := 2
       make := fun a => .ok (.setConfig (a.plain.headD "") ((a.plain.drop 1).headD "")) })]

/-- Read a request of a form. -/
def readForm (form : Form) (args : List String) : Except UsageError Request := do
  match ← arguments form.options form.count args with
  | none => return .help
  | some a => form.make a

/-- Read a command line. -/
def read (args : List String) : Except UsageError Request := do
  let sorted ← sortArguments generalOptions false args
  match sorted.flags.find? (· != "verbose") with
  | some flag => return if flag = "version" then .version else .help
  | none =>
    match sorted.plain with
    | [] => throw {}
    | name :: rest =>
      match List.lookup name forms with
      | some form => readForm form rest
      | none => throw {}

/-- The project of a request. -/
def project? : Request → Option String
  | .scan project _ _ => some project
  | .pages project => some project
  | .components project _ => some project
  | .exportGraph project _ _ _ => some project
  | _ => none

/-- The output of a request. -/
def output? : Request → Option String
  | .scan _ output _ => output
  | .exportGraph _ _ _ output => output
  | _ => none

end Request

end SiteAtlas.Command
