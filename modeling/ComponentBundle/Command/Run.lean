import ComponentBundle.Bundle.Session
import ComponentBundle.Command.Address
import ComponentBundle.Command.Arguments

/-!
The program as a function: what it does to a tree of files, what it says, and the code
it ends with.
-/
namespace ComponentBundle.Command
open ComponentBundle.Text ComponentBundle.Files ComponentBundle.Project ComponentBundle.Bundle

instance : CoeTail Name Text := ⟨Text.shown⟩

instance : CoeTail Key (List Text) := ⟨fun key => key.map Text.shown⟩

inductive Failure where
  | configUnreadable (path : Text)
  | configMalformed (path : Text)
  | address (fault : AddressFault)
  | problem (problem : Problem)
  deriving Repr, DecidableEq

def Failure.message : Failure → String
  | .configUnreadable path => "Failed to read config file " ++ path.toString
  | .configMalformed path => "Failed to parse config file " ++ path.toString
  | .address fault => fault.message
  | .problem cause => cause.report.display

def configured (tree : FileTree) (given : Given) : Except Failure Settings :=
  match given.value? .config with
  | none => .ok {}
  | some path =>
    match tree.readText ⟨path⟩ with
    | .error _ => .error (.configUnreadable path)
    | .ok t =>
      match Settings.read? t with
      | none => .error (.configMalformed path)
      | some settings => .ok settings

def Given.override (given : Given) (settings : Settings) : Settings :=
  { settings with
    projectRoot := ((given.value? .projectRoot).map FilePath.ofText).getD settings.projectRoot
    entryPoint := (given.value? .entry).or settings.entryPoint
    mode := ((given.value? .mode).bind Mode.ofName?).getD settings.mode
    compact := given.compact || settings.compact
    outputDirectory :=
      ((given.value? .outputDirectory).map FilePath.ofText).getD settings.outputDirectory }

def startEvent (given : Given) : Except Failure Event :=
  match given.value? .baseUrl with
  | none => .ok .started
  | some url =>
    match readAddress url with
    | .ok address => .ok (.listening address)
    | .error fault => .error (.address fault)

def build (given : Given) (tree : FileTree) : Except Failure Unit × FileTree :=
  match (do
    let settings := given.override (← configured tree given)
    return (settings, ← startEvent given) : Except Failure (Settings × Event)) with
  | .error failure => (.error failure, tree)
  | .ok (settings, event) =>
    match handle (directoryHost settings.outputPath) event (Session.of settings) tree with
    | (.failed problem, _, tree) => (.error (.problem problem), tree)
    | (_, _, tree) => (.ok (), tree)

structure Result where
  code : UInt8
  output : String
  errors : String
  deriving Repr, DecidableEq

def run (arguments : List Text) (tree : FileTree) : Result × FileTree :=
  match readArguments arguments with
  | .error (.text line) => (⟨0, line, ""⟩, tree)
  | .error (.fault fault) => (⟨2, "", fault.message⟩, tree)
  | .ok given =>
    match build given tree with
    | (.ok (), tree) => (⟨0, "", ""⟩, tree)
    | (.error failure, tree) => (⟨1, "", "Error: " ++ failure.message⟩, tree)

end ComponentBundle.Command
