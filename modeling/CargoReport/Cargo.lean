import CargoReport.Bytes
import CargoReport.Metadata
import CargoReport.Settings

namespace CargoReport

structure Captured where
  exitCode : Int
  stdout : Text
  stderr : Text
  deriving DecidableEq, Repr

def Captured.ofFinished (f : Finished) : Captured :=
  ⟨f.exitCode, Capture.text f.stdout, Capture.text f.stderr⟩

/-- The records of a report that is read to its end. -/
def Report.toAction (r : Report) : Action Unit (List Record) := do
  forM (r.lines.filterMap Line.skip?) fun why => Action.note (.skipped why)
  match r.stop with
  | some overlong => Action.stop (.overlong overlong)
  | none => return r.records

/-- How cargo is run: the surroundings, the binary if one was named, and the directory. -/
structure Cargo where
  host : Host
  binary? : Option Text
  directory : Text

namespace Cargo

/-- The binary to run: the one that was named, else that of the environment unless it is empty,
else the one on the search path. -/
def find (c : Cargo) : Except Fault Text :=
  match c.binary? with
  | some binary => .ok binary
  | none =>
    match c.host.variable? "CARGO" with
    | some (first :: rest) => .ok (first :: rest)
    | _ =>
      match c.host.cargo? with
      | some binary => .ok binary
      | none => .error (.cargoMissing Fault.installAdvice)

/-- Runs cargo with some words, whatever its exit code. -/
def start (c : Cargo) (words : List Text) : Action Unit Captured := do
  let binary ← Action.ofExcept c.find
  let command : Command := ⟨binary :: words, c.directory⟩
  match ← Action.call (.command command) (c.host.launch · command) with
  | .ok finished => return .ofFinished finished
  | .error cause =>
    if cause.isSystem then Action.stop (.cargoNotStarted cause) else Action.stop (.raised cause)

def metadataWords : List Text := ["metadata", "--no-deps", "--format-version=1"]

def metadata (c : Cargo) : Action Unit Metadata := do
  let captured ← c.start metadataWords
  if captured.exitCode ≠ 0 then
    Action.stop (.cargoFailed "metadata" captured.exitCode captured.stderr)
  match Metadata.ofText c.host.limits captured.stdout with
  | .valid m => return m
  | .invalid issues => Action.stop (.badMetadata issues captured.stderr)

/-- The records that a command reports. A command that fails still reports its errors, so its exit
code counts only where it printed nothing. -/
def report (c : Cargo) (name : Text) (args : List Text) : Action Unit (List Record) := do
  let captured ← c.start (name :: "--message-format=json" :: args)
  if captured.exitCode ≠ 0 ∧ captured.stdout = [] then
    Action.stop (.cargoFailed name captured.exitCode captured.stderr)
  (Report.ofText captured.stdout).toAction

def check (c : Cargo) (args : Option (List Text)) : Action Unit (List Record) :=
  c.report "check" (args.getD Settings.defaultCheckArgs)

def build (c : Cargo) (args : Option (List Text)) : Action Unit (List Record) :=
  c.report "build" (args.getD [])

def change (c : Cargo) (command name : Text) : Action Unit Unit := do
  let captured ← c.start [command, "--", name]
  if captured.exitCode ≠ 0 then
    Action.note (.changeFailed captured.stderr)
    Action.stop (.changeFailed command captured.stderr)

def add (c : Cargo) (name : Text) : Action Unit Unit := c.change "add" name

def remove (c : Cargo) (name : Text) : Action Unit Unit := c.change "rm" name

end Cargo
end CargoReport
