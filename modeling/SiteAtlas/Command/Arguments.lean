import SiteAtlas.Text.Basic

/-!
# Command line arguments

Options begin with a dash and a letter, or with two dashes and a name. A value is the rest of the
argument, what follows an equals sign, or the next argument. Two dashes alone end the options.
-/

namespace SiteAtlas.Command

/-- The arguments do not fit the command, perhaps with a reason. -/
structure UsageError where
  explanation : Option String := none
  deriving DecidableEq

/-- An option of a command. -/
structure OptionSpec where
  /-- What the option is filed under. -/
  key : String
  names : List String
  takesValue : Bool := true

/-- The arguments of a command, sorted out. -/
structure Arguments where
  /-- Options without values, in order. -/
  flags : List String := []
  /-- Options with values, in order. -/
  values : List (String × String) := []
  plain : List String := []

namespace Arguments

/-- The last value of an option. -/
def value? (a : Arguments) (key : String) : Option String :=
  List.lookup key a.values.reverse

/-- Note the value of an option. -/
def addValue (key value : String) (a : Arguments) : Arguments :=
  { a with values := (key, value) :: a.values }

/-- Note a plain argument. -/
def addPlain (arg : String) (a : Arguments) : Arguments :=
  { a with plain := arg :: a.plain }

end Arguments

/-- The option with a name. -/
def optionNamed? (specs : List OptionSpec) (name : List Char) : Option OptionSpec :=
  specs.find? (·.names.contains (String.ofList name))

/-- Options in one argument: flags, and perhaps one with a value. -/
structure OptionGroup where
  flags : List String := []
  valued : Option (String × Option String) := none

/-- Read options of one letter. -/
def readLetters (specs : List OptionSpec) : List Char → Except UsageError OptionGroup
  | [] => .ok {}
  | c :: rest =>
    match optionNamed? specs ['-', c] with
    | none => .error {}
    | some spec =>
      if spec.takesValue then
        .ok { valued := some (spec.key, if rest.isEmpty then none else some (String.ofList rest)) }
      else (readLetters specs rest).map fun group => { group with flags := spec.key :: group.flags }

/-- The option given by a name after two dashes. -/
def readName (specs : List OptionSpec) (arg : List Char) : Except UsageError OptionGroup :=
  let name := arg.takeWhile (· != '=')
  let attached := arg.drop name.length
  match optionNamed? specs name, attached with
  | none, _ => .error {}
  | some spec, [] =>
    .ok (if spec.takesValue then { valued := some (spec.key, none) } else { flags := [spec.key] })
  | some spec, _ :: value =>
    if spec.takesValue then .ok { valued := some (spec.key, some (String.ofList value)) }
    else .error {}

/-- Whether an argument is an option. -/
def isOption (arg : String) : Bool :=
  "-".toList.isPrefixOf arg.toList && arg.length > 1

/-- Read the options of an argument. -/
def readOption (specs : List OptionSpec) (arg : String) : Except UsageError OptionGroup :=
  match arg.toList with
  | '-' :: '-' :: _ => readName specs arg.toList
  | _ :: letters => readLetters specs letters
  | [] => .error {}

/-- Sort out arguments. Unless options may be interspersed, all from the first plain one on are
plain. -/
def sortArguments (specs : List OptionSpec) (mixed : Bool) :
    List String → Except UsageError Arguments
  | [] => .ok {}
  | arg :: rest =>
    if arg = "--" then .ok { plain := rest }
    else if isOption arg then do
      let group ← readOption specs arg
      let tail ← match group.valued, rest with
        | none, rest => sortArguments specs mixed rest
        | some (key, some value), rest =>
          (sortArguments specs mixed rest).map (·.addValue key value)
        | some (_, none), [] => .error {}
        | some (key, none), value :: rest =>
          (sortArguments specs mixed rest).map (·.addValue key value)
      return { tail with flags := group.flags ++ tail.flags }
    else if mixed then (sortArguments specs mixed rest).map (·.addPlain arg)
    else .ok { plain := arg :: rest }

end SiteAtlas.Command
