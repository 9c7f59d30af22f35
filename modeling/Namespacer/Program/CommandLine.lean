import Namespacer.Text.Terminal

/-! The command line. A command is followed by directories and options in any order. An option is
settled when the argument after it has been looked at, and the first problem found is reported. -/
namespace Namespacer

open Text

namespace CommandLine

inductive Verb where
  | restructure
  | scan
  | map
  deriving DecidableEq

/-- An option without a value, to be given at most once. -/
inductive Switch where
  | pathsOnly
  | noDefaultExcludes
  | yes
  | json
  | verbose
  deriving DecidableEq

/-- An option with a value. Only patterns may be given more than once. -/
inductive Setting where
  | map
  | exclude
  deriving DecidableEq

def Verb.text : Verb → String
  | restructure => "restructure"
  | scan => "scan"
  | map => "map"

def Verb.ofText? (t : Text) : Option Verb :=
  [restructure, scan, map].find? fun v => v.text.toList == t

def Switch.long : Switch → String
  | pathsOnly => "paths-only"
  | noDefaultExcludes => "no-default-excludes"
  | yes => "yes"
  | json => "json"
  | verbose => "verbose"

def Switch.short? : Switch → Option Char
  | yes => some 'y'
  | verbose => some 'v'
  | _ => none

def Setting.long : Setting → String
  | map => "map"
  | exclude => "exclude"

def Setting.short? : Setting → Option Char
  | exclude => some 'e'
  | map => none

def Verb.switches : Verb → List Switch
  | restructure => [.pathsOnly, .noDefaultExcludes, .yes, .json, .verbose]
  | scan => [.noDefaultExcludes]
  | map => [.json]

def Verb.settings : Verb → List Setting
  | restructure => [.map, .exclude]
  | scan => [.exclude]
  | map => [.map]

def Verb.takesDirs : Verb → Bool
  | map => false
  | _ => true

/-- Why there is no command to run. Asking for help or the version is among the reasons. -/
inductive Stop where
  | help
  | version
  | noCommand
  | unknownCommand (name : Text)
  | unknownArgument (arg : Text)
  | repeated (option : String)
  | valueMissing (option : String)
  | valueUnwanted (option : String) (value : Text)
  deriving DecidableEq

def description : String :=
  "Collapse destructured require() imports into namespace bindings across a JavaScript project"

/-- How a part of a message is set off on a terminal. -/
inductive Emphasis where
  | none
  | alarm
  /-- Something the user gave, or should have given. -/
  | given
  | option

def Emphasis.opening : Emphasis → String
  | none => ""
  | alarm => "\x1b[1m\x1b[31m"
  | given => "\x1b[33m"
  | option => "\x1b[1m"

def Emphasis.closing : Emphasis → String
  | none => ""
  | _ => "\x1b[0m"

def problem (parts : List (Emphasis × String)) : List (Emphasis × String) :=
  (.alarm, "error:") :: (.none, " ") :: parts

/-- A message in parts, each with its emphasis. -/
def Stop.parts : Stop → List (Emphasis × String)
  | help => [(.none, description)]
  | version => [(.none, "js-restructure 0.1.0")]
  | noCommand => [(.none, description)]
  | unknownCommand name =>
    problem [(.none, "unrecognized subcommand '"), (.given, name.str), (.none, "'")]
  | unknownArgument arg =>
    problem [(.none, "unexpected argument '"), (.given, arg.str), (.none, "' found")]
  | repeated option =>
    problem [(.none, "the argument '"), (.given, option),
      (.none, "' cannot be used multiple times")]
  | valueMissing option =>
    problem [(.none, "a value is required for '"), (.given, option),
      (.none, "' but none was supplied")]
  | valueUnwanted option value =>
    problem [(.none, "unexpected value '"), (.given, value.str), (.none, "' for '"),
      (.option, option), (.none, "' found; no more were expected")]

/-- The message with its emphasis, or without any code for a terminal. -/
def Stop.message (stop : Stop) (color : Bool) : String :=
  let marked := String.join (stop.parts.map fun p => p.1.opening ++ p.2 ++ p.1.closing)
  if color then marked else Text.str (Terminal.plain marked.toList)

def Switch.shown (s : Switch) : String := "--" ++ s.long

def Setting.shown : Setting → String
  | map => "--map <MAP>"
  | exclude => "--exclude <EXCLUDE>"

def dirsShown : String := "[DIRS]..."

structure Given where
  dirs : List Text := []
  switches : List Switch := []
  map? : Option Text := none
  excludes : List Text := []

inductive Pending where
  | nothing
  | awaiting (s : Setting)
  | value (s : Setting) (v : Text)
  | dirs (ds : List Text)

structure State where
  given : Given := {}
  pending : Pending := .nothing
  optionsEnded : Bool := false

namespace State

/-- Settles a value. A map file must have a name and can be given once. -/
def assign (st : State) (s : Setting) (v : Text) : Except Stop State :=
  match s with
  | .exclude => .ok { st with given := { st.given with excludes := st.given.excludes ++ [v] } }
  | .map =>
    if st.given.map?.isSome then .error (.repeated s.shown)
    else if v.isEmpty then .error (.valueMissing s.shown)
    else .ok { st with given := { st.given with map? := some v } }

def settle (st : State) : Except Stop State :=
  let rested := { st with pending := .nothing }
  match st.pending with
  | .nothing => .ok rested
  | .awaiting s => .error (.valueMissing s.shown)
  | .value s v => rested.assign s v
  | .dirs ds =>
    if ds.any List.isEmpty then .error (.valueMissing dirsShown)
    else .ok { rested with given := { rested.given with dirs := rested.given.dirs ++ ds } }

def turnOn (st : State) (s : Switch) : Except Stop State := do
  let st ← st.settle
  if st.given.switches.contains s then .error (.repeated s.shown)
  else .ok { st with given := { st.given with switches := st.given.switches ++ [s] } }

def expect (st : State) (s : Setting) : Except Stop State := do
  .ok { ← st.settle with pending := .awaiting s }

def attach (st : State) (s : Setting) (v : Text) : Except Stop State := do
  (← st.settle).assign s v

def showHelp (st : State) : Except Stop State := do
  let _ ← st.settle
  .error .help

/-- An option written out: `--name` or `--name=value`. -/
def longOption (st : State) (verb : Verb) (name : Text) (value? : Option Text) :
    Except Stop State :=
  match verb.switches.find? fun s => s.long.toList == name with
  | some s =>
    match value? with
    | some v => .error (.valueUnwanted s.shown v)
    | none => st.turnOn s
  | none =>
    match verb.settings.find? fun s => s.long.toList == name with
    | some s =>
      match value? with
      | some v => st.attach s v
      | none => st.expect s
    | none =>
      if name == "help".toList then
        match value? with
        | some v => .error (.valueUnwanted "--help" v)
        | none => st.showHelp
      else .error (.unknownArgument ('-' :: '-' :: name))

/-- A cluster of one-letter options. A setting takes the rest of the cluster as its value. -/
def shortOptions (st : State) (verb : Verb) : Text → Except Stop State
  | [] => .ok st
  | c :: rest =>
    match verb.switches.find? fun s => s.short? == some c with
    | some s => do (← st.turnOn s).shortOptions verb rest
    | none =>
      match verb.settings.find? fun s => s.short? == some c with
      | some s =>
        match rest with
        | [] => st.expect s
        | '=' :: v => st.attach s v
        | v => st.attach s v
      | none => if c == 'h' then st.showHelp else .error (.unknownArgument ['-', c])

def positional (st : State) (verb : Verb) (arg : Text) : Except Stop State :=
  if verb.takesDirs then
    match st.pending with
    | .dirs ds => .ok { st with pending := .dirs (ds ++ [arg]) }
    | _ => do .ok { ← st.settle with pending := .dirs [arg] }
  else .error (.unknownArgument arg)

end State

inductive Shape where
  | terminator
  | long (name : Text) (value? : Option Text)
  | short (letters : Text)
  | plain

/-- What an argument looks like. A lone hyphen is a plain argument. -/
def shapeOf : Text → Shape
  | ['-', '-'] => .terminator
  | '-' :: '-' :: t =>
    match t.dropWhile (· != '=') with
    | [] => .long t none
    | _ :: v => .long (t.takeWhile (· != '=')) (some v)
  | '-' :: c :: t => .short (c :: t)
  | _ => .plain

def State.step (verb : Verb) (st : State) (arg : Text) : Except Stop State :=
  if st.optionsEnded then st.positional verb arg
  else match shapeOf arg with
    | .terminator => .ok { st with optionsEnded := true }
    | .long name value? => st.longOption verb name value?
    | .short letters => st.shortOptions verb letters
    | .plain =>
      match st.pending with
      | .awaiting s => .ok { st with pending := .value s arg }
      | _ => st.positional verb arg

end CommandLine

def defaultMapPath : Text := "module-map.json".toList

inductive Command where
  | restructure (dirs : List Text) (map : Text) (excludes : List Text)
      (pathsOnly noDefaultExcludes yes json verbose : Bool)
  | scan (dirs excludes : List Text) (noDefaultExcludes : Bool)
  | map (map : Text) (json : Bool)

namespace CommandLine

def Given.command (g : Given) (verb : Verb) : Command :=
  let has := fun s => g.switches.contains s
  let map := g.map?.getD defaultMapPath
  match verb with
  | .restructure => .restructure g.dirs map g.excludes (has .pathsOnly) (has .noDefaultExcludes)
      (has .yes) (has .json) (has .verbose)
  | .scan => .scan g.dirs g.excludes (has .noDefaultExcludes)
  | .map => .map map (has .json)

def parseCommand (verb : Verb) (args : List Text) : Except Stop Command := do
  let st ← (← args.foldlM (State.step verb) {}).settle
  .ok (st.given.command verb)

def helpWord : Text := "help".toList

def parseHelp : List Text → Stop
  | [] => .help
  | name :: rest =>
    if (Verb.ofText? name).isNone && name != helpWord then .unknownCommand name
    else match rest with
      | [] => .help
      | extra :: _ => .unknownCommand extra

def parseLeading : Shape → Stop
  | .long name value? =>
    let known := if name == helpWord then some Stop.help
      else if name == "version".toList then some .version
      else none
    match known, value? with
    | none, _ => .unknownArgument ('-' :: '-' :: name)
    | some _, some v => .valueUnwanted ("--" ++ name.str) v
    | some stop, none => stop
  | .short ('h' :: _) => .help
  | .short ('V' :: _) => .version
  | .short (c :: _) => .unknownArgument ['-', c]
  | _ => .noCommand

def parse : List Text → Except Stop Command
  | [] => .error .noCommand
  | arg :: rest =>
    match Verb.ofText? arg with
    | some verb => parseCommand verb rest
    | none =>
      if arg == helpWord then .error (parseHelp rest)
      else match shapeOf arg with
        | .plain => .error (.unknownCommand arg)
        | .terminator =>
          match rest with
          | [] => .error .noCommand
          | arg :: _ =>
            if (Verb.ofText? arg).isSome || arg == helpWord then .error (.unknownArgument arg)
            else .error (.unknownCommand arg)
        | shape => .error (parseLeading shape)

end CommandLine
end Namespacer
