import ThemeOverride.Override.Resource

/-!
# Arguments of the command

The command line names a command and its arguments. Options may stand anywhere among the other
arguments, up to an argument of two dashes alone. A long option takes its value from behind an
equals sign or from the next argument; short options can share one dash, and the last of them
takes its value from what is left of the argument or from the next one. Of an option given
twice, the last counts.

## Main definitions

* `ThemeOverride.Invocation`: a command with its arguments.
* `ThemeOverride.ArgumentReading`: the options and other arguments that are read.
* `ThemeOverride.parseArguments`: reads a command line.
-/

namespace ThemeOverride

/-- The arguments of the command that extends a resource. -/
structure ExtendArguments where
  type : ResourceType
  name : String
  target : String := "."
  source : Option String := none
  isTypescript : Bool := false
  config : Option String := none
  isVerbose : Bool := false
  deriving DecidableEq, Repr

/-- A command with its arguments. -/
inductive Invocation where
  | extend (args : ExtendArguments)
  | version
  /-- A call for help. -/
  | help
  deriving DecidableEq, Repr

/-- An option. -/
inductive CommandOption where
  | target
  | source
  | typescript
  | javascript
  | config
  | verbose
  | help
  deriving DecidableEq, Repr

namespace CommandOption

/-- The options of the command that extends, by their names. -/
def ofExtend : List (String × CommandOption) :=
  [("--target", target), ("-t", target), ("--source", source), ("-s", source),
   ("--typescript", typescript), ("--javascript", javascript), ("--config", config),
   ("-c", config), ("--verbose", verbose), ("-v", verbose), ("--help", help)]

/-- The options of commands that only know help. -/
def ofHelp : List (String × CommandOption) := [("--help", help)]

/-- Whether an option takes a value. -/
def takesValue : CommandOption → Bool
  | target | source | config => true
  | _ => false

end CommandOption

/-- The options that are read with their values, and the other arguments. -/
structure ArgumentReading where
  options : List (CommandOption × String) := []
  others : List String := []
  deriving DecidableEq, Repr

namespace ArgumentReading

/-- The value of an option, where it is given. -/
def value? (r : ArgumentReading) (o : CommandOption) : Option String :=
  (r.options.filter (·.1 == o)).getLast?.map (·.2)

/-- A reading with an option in front. -/
def withOption (o : CommandOption) (v : String) (r : ArgumentReading) : ArgumentReading :=
  { r with options := (o, v) :: r.options }

end ArgumentReading

/-- Reads options that share a dash: those without values, and perhaps a last one with a value,
of which what is left of the argument is given. -/
def readShort (known : List (String × CommandOption)) :
    List Char → Option (List CommandOption × Option (CommandOption × List Char))
  | [] => some ([], none)
  | c :: rest =>
    match known.lookup (String.ofList ['-', c]) with
    | none => none
    | some o =>
      if o.takesValue then some ([], some (o, rest))
      else (readShort known rest).map fun (os, last) => (o :: os, last)

/-- What an argument that begins with a dash says: options without values, and perhaps one with a
value, which may be in the next argument. -/
def readOption (known : List (String × CommandOption)) (arg : String) :
    Option (List CommandOption × Option (CommandOption × Option String)) :=
  let cs := arg.toList
  let name := String.ofList (cs.takeWhile (· != '='))
  let value := if cs.contains '=' then some (String.ofList (cs.drop (name.length + 1))) else none
  let isLong := "--".toList.isPrefixOf cs
  match if isLong then known.lookup name else none with
  | some o =>
    if o.takesValue then some ([], some (o, value))
    else if value.isSome then none
    else some ([o], none)
  | none =>
    if isLong then none
    else
      (readShort known cs.tail).map fun (os, last) =>
        (os, last.map fun (o, rest) =>
          (o, if rest.isEmpty then none else some (String.ofList rest)))

/-- A reading with options that take no value in front. -/
def ArgumentReading.withFlags (r : ArgumentReading) (os : List CommandOption) : ArgumentReading :=
  os.foldr (fun o r => r.withOption o "") r

/-- Reads arguments with options among them. If `pending` is given, the next argument is the value
of that option, whatever it looks like. -/
def readArguments (known : List (String × CommandOption)) (pending : Option CommandOption) :
    List String → Option ArgumentReading
  | [] => if pending.isSome then none else some {}
  | arg :: rest =>
    match pending with
    | some o => (readArguments known none rest).map (·.withOption o arg)
    | none =>
      if arg == "--" then some { others := rest }
      else if !(['-'].isPrefixOf arg.toList) || arg == "-" then
        (readArguments known none rest).map fun r => { r with others := arg :: r.others }
      else
        match readOption known arg with
        | none => none
        | some (os, none) => (readArguments known none rest).map (·.withFlags os)
        | some (os, some (o, some v)) =>
          (readArguments known none rest).map fun r => (r.withOption o v).withFlags os
        | some (os, some (o, none)) => (readArguments known (some o) rest).map (·.withFlags os)

/-- The language that options choose; the last one counts. -/
def chosenTypescript (r : ArgumentReading) : Bool :=
  (r.options.filter fun o => o.1 == .typescript || o.1 == .javascript).getLast?.any
    (·.1 == .typescript)

/-- Reads the arguments of the command that extends. -/
def parseExtend (args : List String) : Option Invocation := do
  let r ← readArguments CommandOption.ofExtend none args
  if (r.value? .help).isSome then return .help
  match r.others with
  | [typeName, name] =>
    let type ← ResourceType.ofName? typeName
    return .extend
      { type := type
        name := name
        target := (r.value? .target).getD "."
        source := r.value? .source
        isTypescript := chosenTypescript r
        config := r.value? .config
        isVerbose := (r.value? .verbose).isSome }
  | _ => none

/-- Reads the arguments of the command that shows the version. -/
def parseVersion (args : List String) : Option Invocation := do
  let r ← readArguments CommandOption.ofHelp none args
  if (r.value? .help).isSome then return .help
  if r.others.isEmpty then return .version else none

/-- Reads a command with its arguments. -/
def parseCommand : List String → Option Invocation
  | "extend" :: args => parseExtend args
  | "version" :: args => parseVersion args
  | _ => none

/-- Reads a command line; nothing where it asks for nothing that there is. -/
def parseArguments : List String → Option Invocation
  | "--help" :: _ => some .help
  | "--" :: args => parseCommand args
  | args => parseCommand args

end ThemeOverride
