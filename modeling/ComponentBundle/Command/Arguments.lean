import ComponentBundle.Project.Settings
import ComponentBundle.Text.Control

/-!
The arguments of the command line. A value may follow an option as the next argument,
which is looked at only when something else is read; so a fault in it gives way to one
in an argument that is not known.
-/
namespace ComponentBundle.Command
open ComponentBundle.Text ComponentBundle.Files ComponentBundle.Project

inductive Setting where
  | config
  | projectRoot
  | entry
  | mode
  | outputDirectory
  | baseUrl
  deriving Repr, DecidableEq

namespace Setting

def all : List Setting := [.config, .projectRoot, .entry, .mode, .outputDirectory, .baseUrl]

def long : Setting → String
  | .config => "config"
  | .projectRoot => "project-root"
  | .entry => "entry"
  | .mode => "mode"
  | .outputDirectory => "out-dir"
  | .baseUrl => "base-url"

def placeholder : Setting → String
  | .config => "CONFIG"
  | .projectRoot => "PROJECT_ROOT"
  | .entry => "ENTRY"
  | .mode => "MODE"
  | .outputDirectory => "OUT_DIR"
  | .baseUrl => "BASE_URL"

def letter? : Setting → Option Char
  | .config => some 'c'
  | .entry => some 'e'
  | .mode => some 'm'
  | .outputDirectory => some 'o'
  | _ => none

def isPath : Setting → Bool
  | .config | .projectRoot | .outputDirectory => true
  | _ => false

def usage (setting : Setting) : String := "--" ++ setting.long ++ " <" ++ setting.placeholder ++ ">"

end Setting

inductive Fault where
  | unexpectedArgument (argument : Text)
  | unknownCommand (name : Text)
  | missingValue (setting : Setting)
  | repeated (usage : String)
  | unknownMode (name : Text)
  | unneededValue (value : Text) (usage : String)
  /-- Nothing was asked for. -/
  | noCommand
  deriving Repr, DecidableEq

def programSummary : String :=
  "extension-bundler: Compile .gjs components into a loadable extension bundle"

def buildSummary : String := "Compile once and exit"

def helpSummary : String := "Print this message or the help of the given subcommand(s)"

def versionLine : String := "extension-bundler 0.1.0"

def shown (argument : Text) : String := (visible argument).toString

def helpHint : String := "\n\nFor more information, try '\x1b[1m--help\x1b[0m'."

/-- The reason why a mode is refused is shown in one with the hint, so that a sequence which
the name leaves open takes in what stands between them. -/
def Fault.message : Fault → String
  | .unexpectedArgument argument => "error: unexpected argument '" ++ shown argument ++ "' found"
  | .unknownCommand name => "error: unrecognized subcommand '" ++ shown name ++ "'"
  | .missingValue setting =>
    "error: a value is required for '" ++ setting.usage ++ "' but none was supplied"
  | .repeated usage => "error: the argument '" ++ usage ++ "' cannot be used multiple times"
  | .unknownMode name =>
    "error: invalid value '" ++ shown name ++ "' for '" ++ Setting.mode.usage ++ "': "
      ++ shown (Mode.refusal name ++ helpHint)
  | .unneededValue value usage =>
    "error: unexpected value '" ++ shown value ++ "' for '" ++ usage
      ++ "' found; no more were expected"
  | .noCommand => programSummary

inductive Stop where
  | fault (fault : Fault)
  | text (line : String)
  deriving Repr, DecidableEq

structure Given where
  values : List (Setting × Text)
  compact : Bool
  deriving Repr, DecidableEq

namespace Given

def value? (given : Given) (setting : Setting) : Option Text := given.values.lookup setting

def accept (given : Given) (setting : Setting) (value : Option Text) : Except Stop Given :=
  match value with
  | none => .error (.fault (.missingValue setting))
  | some value =>
    if (given.value? setting).isSome then .error (.fault (.repeated setting.usage))
    else if setting.isPath && value.isEmpty then .error (.fault (.missingValue setting))
    else if setting = .mode && (Mode.ofName? value).isNone then
      .error (.fault (.unknownMode value))
    else .ok { given with values := given.values ++ [(setting, value)] }

def acceptCompact (given : Given) : Except Stop Given :=
  if given.compact then .error (.fault (.repeated "--shrink"))
  else .ok { given with compact := true }

end Given

abbrev Pending := Option (Setting × Option Text)

structure Reading where
  given : Given
  pending : Pending
  deriving Repr, DecidableEq

def Reading.settle (reading : Reading) : Except Stop Given :=
  match reading.pending with
  | none => .ok reading.given
  | some (setting, value) => reading.given.accept setting value

inductive Switch where
  | setting (setting : Setting)
  | compact
  | help
  deriving Repr, DecidableEq

def Switch.usage : Switch → String
  | .setting wanted => wanted.usage
  | .compact => "--shrink"
  | .help => "--help"

def longSwitch? (name : Text) : Option Switch :=
  match Setting.all.find? fun setting => setting.long.toList = name with
  | some setting => some (.setting setting)
  | none =>
    if name = "shrink".toList then some .compact
    else if name = "help".toList then some .help
    else none

def shortSwitch? (letter : Char) : Option Switch :=
  match Setting.all.find? fun setting => setting.letter? = some letter with
  | some setting => some (.setting setting)
  | none => if letter = 'h' then some .help else none

/-- A setting with a value on the spot, or one that waits for the next argument. -/
def Reading.set (reading : Reading) (setting : Setting) (value : Option Text) :
    Except Stop Reading := do
  let given ← reading.settle
  match value with
  | some value => return ⟨← given.accept setting value, none⟩
  | none => return ⟨given, some (setting, none)⟩

def Reading.turnOn (reading : Reading) (switch : Switch) : Except Stop Reading := do
  let given ← reading.settle
  match switch with
  | .compact => return ⟨← given.acceptCompact, none⟩
  | _ => throw (.text buildSummary)

def dashes : Text := ['-', '-']

def unexpected (argument : Text) : Stop := .fault (.unexpectedArgument argument)

def Reading.long (reading : Reading) (body : Text) : Except Stop Reading :=
  let (name, value) :=
    match splitFirst? ['='] body with
    | some (name, value) => (name, some value)
    | none => (body, none)
  match longSwitch? name, value with
  | some (.setting setting), _ => reading.set setting value
  | some switch, some value => .error (.fault (.unneededValue value switch.usage))
  | some switch, none => reading.turnOn switch
  | none, _ => .error (unexpected (dashes ++ name))

/-- Short options in one argument; the first that takes a value takes the rest of it. -/
def Reading.short (reading : Reading) : Text → Except Stop Reading
  | [] => .ok reading
  | letter :: rest =>
    match shortSwitch? letter with
    | some (.setting setting) =>
      reading.set setting (if rest.isEmpty then none else some ((after? ['='] rest).getD rest))
    | some switch => do (← reading.turnOn switch).short rest
    | none => .error (unexpected ['-', letter])

/-- An argument that is no option is the value of the one that waits for it. -/
def Reading.plain (reading : Reading) (argument : Text) : Except Stop Reading :=
  match reading.pending with
  | some (setting, none) => .ok { reading with pending := some (setting, some argument) }
  | _ => .error (unexpected argument)

def Reading.next (reading : Reading) (argument : Text) : Except Stop Reading :=
  match argument with
  | '-' :: '-' :: body => reading.long body
  | '-' :: letter :: rest => reading.short (letter :: rest)
  | _ => reading.plain argument

/-- Behind two dashes there are only plain arguments, and a build takes none. -/
def readBuild (reading : Reading) : List Text → Except Stop Given
  | [] => reading.settle
  | argument :: more =>
    if argument = dashes then
      match more with
      | [] => reading.settle
      | first :: _ => .error (unexpected first)
    else do readBuild (← reading.next argument) more

def buildWord : Text := "build"

def helpWord : Text := "help"

def commandSummary? (name : Text) : Option String :=
  if name = buildWord then some buildSummary
  else if name = helpWord then some helpSummary
  else none

/-- The help of a command, or of the program. No command has commands of its own. -/
def readHelp : List Text → Stop
  | [] => .text programSummary
  | name :: more =>
    match commandSummary? name, more with
    | none, _ => .fault (.unknownCommand name)
    | some summary, [] => .text summary
    | some _, other :: _ => .fault (.unknownCommand other)

def programOption? (name : Text) : Option (String × String) :=
  if name = "help".toList || name = ['h'] then some ("--help", programSummary)
  else if name = "version".toList || name = ['V'] then some ("--version", versionLine)
  else none

def readProgramLong (body : Text) : Stop :=
  match splitFirst? ['='] body with
  | some (name, value) =>
    match if name.length < 2 then none else programOption? name with
    | some (usage, _) => .fault (.unneededValue value usage)
    | none => unexpected (dashes ++ name)
  | none =>
    match if body.length < 2 then none else programOption? body with
    | some (_, line) => .text line
    | none => unexpected (dashes ++ body)

def readProgramShort (letter : Char) : Stop :=
  match programOption? [letter] with
  | some (_, line) => .text line
  | none => unexpected ['-', letter]

def readBehindDashes : List Text → Stop
  | [] => .fault .noCommand
  | name :: _ =>
    if (commandSummary? name).isSome then unexpected name
    else .fault (.unknownCommand name)

def readArguments : List Text → Except Stop Given
  | [] => .error (.fault .noCommand)
  | argument :: more =>
    if argument = buildWord then readBuild ⟨⟨[], false⟩, none⟩ more
    else if argument = helpWord then .error (readHelp more)
    else if argument = dashes then .error (readBehindDashes more)
    else
      match argument with
      | '-' :: '-' :: body => .error (readProgramLong body)
      | '-' :: letter :: _ => .error (readProgramShort letter)
      | _ => .error (.fault (.unknownCommand argument))

end ComponentBundle.Command
