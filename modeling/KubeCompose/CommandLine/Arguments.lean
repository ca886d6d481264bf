import KubeCompose.PortMapping

/-!
# Arguments of the command line

The arguments are read from left to right by a table of options. The first one that cannot be read
ends the reading, and so does a request for help or for the version.
-/

namespace KubeCompose.CommandLine

open Text (cutAt? splitOn)

/-- An option: its names, whether it takes a value, whether it may be given more than once, and
which values it accepts. -/
structure OptionRule where
  long : String
  short : Option Char
  takesValue : Bool
  repeatable : Bool
  accepts : String → Bool

namespace OptionRule

/-- An option without a value. -/
def flag (long : String) (short : Option Char) : OptionRule :=
  ⟨long, short, false, false, fun _ => true⟩

/-- An option with a text as its value. -/
def text (long : String) (short : Option Char) : OptionRule :=
  ⟨long, short, true, false, fun _ => true⟩

/-- An option with a path as its value. -/
def path (long : String) (short : Option Char) : OptionRule :=
  ⟨long, short, true, false, (· != "")⟩

/-- An option with a list of texts, divided by commas, as its value. -/
def texts (long : String) : OptionRule := ⟨long, none, true, true, fun _ => true⟩

/-- The number of seconds that a text gives. -/
def seconds? (text : String) : Option Nat :=
  (PortMapping.readNumber? text.toList).filter (· < Number.twoTo 64)

/-- An option with a number of seconds as its value. -/
def seconds (long : String) : OptionRule := ⟨long, none, true, false, fun t => (seconds? t).isSome⟩

end OptionRule

/-- Why the arguments are no request. -/
inductive ArgumentsEnd where
  | help
  | version (command : Option String)
  | usage
  deriving DecidableEq, Repr

/-- The options and the other arguments that were found. -/
structure Found where
  options : List (String × String)
  others : List String
  deriving DecidableEq, Repr

namespace Found

/-- Nothing found. -/
def empty : Found := ⟨[], []⟩

/-- The value of an option. -/
def value? (f : Found) (long : String) : Option String := f.options.lookup long

/-- Whether an option was given. -/
def has (f : Found) (long : String) : Bool := (f.value? long).isSome

/-- All values of an option, divided at commas. -/
def values (f : Found) (long : String) : List String :=
  (f.options.filter (·.1 == long)).flatMap fun (_, v) =>
    (splitOn ',' v.toList).map String.ofList

/-- Notes an option with its value. -/
def note (f : Found) (rule : OptionRule) (value : String) : Except ArgumentsEnd Found :=
  if rule.accepts value && (rule.repeatable || !f.has rule.long) then
    .ok { f with options := f.options ++ [(rule.long, value)] }
  else .error .usage

end Found

/-- Whether an argument has the form of an option. -/
def isOption (argument : String) : Bool :=
  match argument.toList with
  | '-' :: _ :: _ => true
  | _ => false

/-- The value that the next argument gives to an option, and the arguments behind it. -/
def nextValue : List String → Except ArgumentsEnd (String × List String)
  | [] => .error .usage
  | value :: rest => if isOption value then .error .usage else .ok (value, rest)

/-- Reads a long option, given without its dashes. -/
def readLong (command : Option String) (rules : List OptionRule) (f : Found) (body : List Char)
    (rest : List String) : Except ArgumentsEnd (Found × List String) :=
  let (name, value) :=
    match cutAt? '=' body with
    | some (name, value) => (String.ofList name, some (String.ofList value))
    | none => (String.ofList body, none)
  match name, value with
  | "help", none => .error .help
  | "version", none => .error (.version command)
  | name, value =>
    match rules.find? fun r => r.long == name, value with
    | none, _ => .error .usage
    | some rule, some value =>
      if rule.takesValue then (f.note rule value).map (·, rest) else .error .usage
    | some rule, none =>
      if rule.takesValue then do
        let (value, rest) ← nextValue rest
        return (← f.note rule value, rest)
      else (f.note rule "").map (·, rest)

/-- Reads short options behind one dash. One that takes a value takes what follows it. -/
def readShort (command : Option String) (rules : List OptionRule) (f : Found) :
    List Char → List String → Except ArgumentsEnd (Found × List String)
  | [], rest => .ok (f, rest)
  | 'h' :: _, _ => .error .help
  | 'V' :: _, _ => .error (.version command)
  | c :: more, rest =>
    match rules.find? fun r => r.short == some c with
    | none => .error .usage
    | some rule =>
      if rule.takesValue then
        match more with
        | [] => do
          let (value, rest) ← nextValue rest
          return (← f.note rule value, rest)
        | '=' :: value => (f.note rule (String.ofList value)).map (·, rest)
        | value => (f.note rule (String.ofList value)).map (·, rest)
      else do
        let f ← f.note rule ""
        readShort command rules f more rest

/-- Reads an argument that has the form of an option. -/
def readOption (command : Option String) (rules : List OptionRule) (f : Found) (argument : String)
    (rest : List String) : Except ArgumentsEnd (Found × List String) :=
  match argument.toList with
  | '-' :: '-' :: body => readLong command rules f body rest
  | _ :: body => readShort command rules f body rest
  | [] => .error .usage

/-- Reads at most `n` arguments of a command that takes one argument besides its options: the path
of something. Behind two dashes no argument is an option. -/
def readAll (command : String) (rules : List OptionRule) :
    Nat → Found → List String → Except ArgumentsEnd Found
  | 0, f, _ => .ok f
  | _ + 1, f, [] => .ok f
  | n + 1, f, argument :: rest =>
    let takeOther (f : Found) (path : String) : Except ArgumentsEnd Found :=
      if path != "" && f.others.isEmpty then .ok { f with others := [path] } else .error .usage
    if argument == "--" then rest.foldlM takeOther f
    else if isOption argument then do
      let (f, rest) ← readOption (some command) rules f argument rest
      readAll command rules n f rest
    else do
      let f ← takeOther f argument
      readAll command rules n f rest

/-- Reads at most `n` arguments up to the name of the command. -/
def readFront (rules : List OptionRule) :
    Nat → Found → List String → Except ArgumentsEnd (Found × String × List String)
  | 0, _, _ | _ + 1, _, [] => .error .usage
  | n + 1, f, argument :: rest =>
    if argument == "--" then .error .usage
    else if isOption argument then do
      let (f, rest) ← readOption none rules f argument rest
      readFront rules n f rest
    else .ok (f, argument, rest)

/-! ### Requests -/

/-- What is asked of `convert`. -/
structure ConvertArguments where
  project : String
  directory : String
  «namespace» : Option String
  registry : Option String
  tag : String
  useKompose : Bool
  pushImages : Bool
  daemonServices : List String
  skipBuild : Bool
  validate : Bool
  seconds : Nat
  json : Bool
  deriving DecidableEq, Repr

/-- What is asked of `push`. -/
structure PushArguments where
  project : String
  registry : Option String
  tag : String
  skipBuild : Bool
  seconds : Nat
  json : Bool
  deriving DecidableEq, Repr

/-- What is asked of `validate`. -/
structure ValidateArguments where
  directory : String
  context : Option String
  seconds : Nat
  deriving DecidableEq, Repr

/-- A command with its arguments. -/
inductive Command where
  | convert (a : ConvertArguments)
  | push (a : PushArguments)
  | validate (a : ValidateArguments)
  deriving DecidableEq, Repr

/-- A command and the settings file that was named. -/
structure Request where
  config : Option String
  command : Command
  deriving DecidableEq, Repr

/-- The names of the levels of the log. -/
def logLevels : List String := ["debug", "info", "warn", "error"]

/-- The options of all commands. -/
def commonRules : List OptionRule :=
  [⟨"log-level", none, true, false, logLevels.contains⟩, .flag "debug" none, .path "config" none]

/-- The options of a command; none when there is no such command. -/
def rulesOf? : String → Option (List OptionRule)
  | "convert" =>
    some
      [.path "output-dir" (some 'o'), .text "namespace" (some 'n'), .text "registry" (some 'r'),
       .text "tag" (some 't'), .flag "use-kompose" (some 'k'), .flag "push-images" (some 'p'),
       .texts "daemon-services", .flag "skip-build" none, .flag "validate" none,
       .seconds "timeout", .flag "json" none]
  | "push" =>
    some
      [.text "registry" (some 'r'), .text "tag" (some 't'), .flag "skip-build" none,
       .seconds "timeout", .flag "json" none]
  | "validate" => some [.text "context" none, .seconds "timeout"]
  | _ => none

namespace Found

/-- The tag that is asked for. -/
def tag (f : Found) : String := (f.value? "tag").getD "latest"

/-- The seconds that a call of a tool may take. -/
def seconds (f : Found) : Nat := ((f.value? "timeout").bind OptionRule.seconds?).getD 600

/-- The arguments of `convert`. -/
def convertArguments (f : Found) : Except ArgumentsEnd ConvertArguments :=
  match f.others, f.value? "output-dir" with
  | [project], some directory =>
    .ok
      { project := project
        directory := directory
        «namespace» := f.value? "namespace"
        registry := f.value? "registry"
        tag := f.tag
        useKompose := f.has "use-kompose"
        pushImages := f.has "push-images"
        daemonServices := f.values "daemon-services"
        skipBuild := f.has "skip-build"
        validate := f.has "validate"
        seconds := f.seconds
        json := f.has "json" }
  | _, _ => .error .usage

/-- The arguments of `push`. -/
def pushArguments (f : Found) : Except ArgumentsEnd PushArguments :=
  match f.others with
  | [project] =>
    .ok
      { project := project
        registry := f.value? "registry"
        tag := f.tag
        skipBuild := f.has "skip-build"
        seconds := f.seconds
        json := f.has "json" }
  | _ => .error .usage

/-- The arguments of `validate`. -/
def validateArguments (f : Found) : Except ArgumentsEnd ValidateArguments :=
  match f.others with
  | [directory] => .ok ⟨directory, f.value? "context", f.seconds⟩
  | _ => .error .usage

/-- The command of a name. -/
def command (f : Found) : String → Except ArgumentsEnd Command
  | "convert" => f.convertArguments.map .convert
  | "push" => f.pushArguments.map .push
  | "validate" => f.validateArguments.map .validate
  | _ => .error .usage

end Found

/-- What comes of a request for help on something: at most one command can be named. -/
def helpOn : List String → ArgumentsEnd
  | [] => .help
  | [name] => if name == "help" || (rulesOf? name).isSome then .help else .usage
  | _ => .usage

/-- The request that the arguments make. -/
def Request.ofArguments (arguments : List String) : Except ArgumentsEnd Request := do
  let (front, name, rest) ← readFront commonRules arguments.length .empty arguments
  if name == "help" then throw (helpOn rest)
  match rulesOf? name with
  | none => throw .usage
  | some rules =>
    let f ← readAll name (rules ++ commonRules) rest.length .empty rest
    let command ← f.command name
    return ⟨(f.value? "config").or (front.value? "config"), command⟩

end KubeCompose.CommandLine
