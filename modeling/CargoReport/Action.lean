import CargoReport.Diagnostic
import CargoReport.Fault

namespace CargoReport

structure Command where
  words : List Text
  directory : Text
  deriving DecidableEq, Repr

/-- A number of seconds, which need not be whole. -/
inductive Seconds where
  | whole (n : Int)
  | double (x : Double)
  deriving DecidableEq, Repr

structure Request where
  url : Text
  headers : List (Text × Text)
  timeout : Seconds
  deriving DecidableEq, Repr

/-- Something that reached the surroundings. -/
inductive Call where
  | command (command : Command)
  | request (request : Request)
  /-- A command that the caller of a pass brings along. -/
  | custom (name directory : Text)
  /-- A listener that is told of a change. -/
  | listener (name : Text)
  deriving DecidableEq, Repr

structure Finished where
  exitCode : Int
  stdout : List UInt8
  stderr : List UInt8
  deriving DecidableEq, Repr

/-- The surroundings of the library. -/
structure Host where
  environment : List (Text × Text)
  /-- The cargo binary on the search path. -/
  cargo? : Option Text
  /-- The directory that relative paths are seen from. -/
  directory : Path
  /-- How far the checker that is installed reads a document. -/
  limits : Json.Limits
  launch : (earlier : List Call) → Command → Except Raised Finished
  fetch : (earlier : List Call) → Request → Except Raised (List UInt8)

def Host.variable? (h : Host) (name : Text) : Option Text := h.environment.lookup name

/-- Something that happened and is worth a line in a log. -/
inductive Notice where
  | skipped (why : Skip)
  | duplicate (path : Path) (range : Range)
  | published (files : Nat)
  | memberMissing (id : Text)
  | overridden (setting value : Text)
  | changeFailed (stderr : Text)
  | running (command : Text)
  | processing
  | reported (command : Text) (files : Nat)
  | adding (name : Text)
  | added (name : Text)
  | removing (name : Text)
  | removed (name : Text)
  deriving DecidableEq, Repr

namespace Notice

inductive Level where
  | debug
  | info
  | warning
  | error
  deriving DecidableEq, Repr

def Level.name : Level → Text
  | .debug => "DEBUG"
  | .info => "INFO"
  | .warning => "WARNING"
  | .error => "ERROR"

def level : Notice → Level
  | skipped _ | duplicate _ _ | published _ => .debug
  | memberMissing _ => .warning
  | changeFailed _ => .error
  | _ => .info

/-- The part that speaks. -/
def origin : Notice → Text
  | skipped _ => "cargodiag.decoder"
  | duplicate _ _ => "cargodiag.diagnosis"
  | published _ => "cargodiag.sink"
  | memberMissing _ => "cargodiag.tree"
  | overridden _ _ => "cargodiag.config"
  | changeFailed _ => "cargodiag.cargo"
  | _ => "cargodiag.workspace"

def named (name : Text) : Text := Text.ofString "'" ++ name ++ Text.ofString "'"

def text : Notice → Text
  | skipped (.notJson problem place) =>
    Text.ofString "Skipping non-JSON line: " ++ problem.at place
  | skipped .tooDeep => "Skipping line nested too deeply to parse"
  | skipped (.notObject kind) =>
    Text.ofString "Skipping JSON line that is not an object: " ++ kind.name
  | skipped (.badMessage issues) =>
    Text.ofString "Skipping record with malformed message: " ++ Decimal.ofNat issues
      ++ Text.ofString " errors"
  | duplicate path range =>
    Text.ofString "Dropping duplicate diagnostic at " ++ path.text ++ Text.ofString ":"
      ++ range.text
  | published files =>
    Text.ofString "Published diagnostics for " ++ Decimal.ofNat files ++ Text.ofString " files"
  | memberMissing id =>
    Text.ofString "Workspace member " ++ id ++ Text.ofString " missing from metadata packages"
  | overridden setting value =>
    Text.ofString "Environment override: " ++ setting ++ Text.ofString " = " ++ value
  | changeFailed stderr => stderr
  | running command => Text.ofString "Running " ++ named command
  | processing => "Processing build messages"
  | reported command files =>
    named command ++ Text.ofString " reported diagnostics for " ++ Decimal.ofNat files
      ++ Text.ofString " files"
  | adding name => Text.ofString "Adding dependency " ++ named name
  | added name => Text.ofString "Successfully added dependency " ++ named name
  | removing name => Text.ofString "Removing dependency " ++ named name
  | removed name => Text.ofString "Successfully removed dependency " ++ named name

end Notice

/-- What an action leaves behind. -/
structure Outcome (σ α : Type) where
  result : Except Fault α
  state : σ
  notices : List Notice
  calls : List Call

/-- Work on a state, given the calls that were made before it. -/
def Action (σ α : Type) : Type := (earlier : List Call) → σ → Outcome σ α

namespace Action

variable {σ τ α β : Type}

def run (x : Action σ α) (earlier : List Call) (s : σ) : Outcome σ α := x earlier s

instance : Monad (Action σ) where
  pure a := fun _ s => ⟨.ok a, s, [], []⟩
  bind x f := fun earlier s =>
    let first := x earlier s
    match first.result with
    | .error fault => ⟨.error fault, first.state, first.notices, first.calls⟩
    | .ok a =>
      let second := f a (earlier ++ first.calls) first.state
      ⟨second.result, second.state, first.notices ++ second.notices,
        first.calls ++ second.calls⟩

def stop (fault : Fault) : Action σ α := fun _ s => ⟨.error fault, s, [], []⟩

def ofExcept : Except Fault α → Action σ α
  | .ok a => pure a
  | .error fault => stop fault

/-- What an action comes to, be it a fault. -/
def attempt (x : Action σ α) : Action σ (Except Fault α) := fun earlier s =>
  let done := x earlier s
  ⟨.ok done.result, done.state, done.notices, done.calls⟩

def note (notice : Notice) : Action σ Unit := fun _ s => ⟨.ok (), s, [notice], []⟩

/-- Makes a call, whose answer may depend on the calls before it. -/
def call (c : Call) (answer : List Call → α) : Action σ α :=
  fun earlier s => ⟨.ok (answer earlier), s, [], [c]⟩

def state : Action σ σ := fun _ s => ⟨.ok s, s, [], []⟩

def put (s : σ) : Action σ Unit := fun _ _ => ⟨.ok (), s, [], []⟩

def modify (f : σ → σ) : Action σ Unit := fun _ s => ⟨.ok (), f s, [], []⟩

/-- Works on a part of a larger state. -/
def zoom (view : σ → τ) (update : σ → τ → σ) (x : Action τ α) : Action σ α := fun earlier s =>
  let inner := x earlier (view s)
  ⟨inner.result, update s inner.state, inner.notices, inner.calls⟩

/-- Work without a state, beside any state. -/
def beside (x : Action Unit α) : Action σ α := x.zoom (fun _ => ()) (fun s _ => s)

instance : LawfulMonad (Action σ) :=
  LawfulMonad.mk' _
    (fun x => by
      funext earlier s
      simp only [Functor.map, Function.comp, id]
      rcases x earlier s with ⟨_ | _, _, _, _⟩ <;> simp)
    (fun _ _ => by
      funext _ _
      simp [bind, pure])
    (fun x f g => by
      funext earlier s
      simp only [bind]
      rcases x earlier s with ⟨_ | a, later, notices, calls⟩
      · rfl
      · rcases hf : f a (earlier ++ calls) later with ⟨_ | _, _, _, _⟩ <;> simp [hf])

@[simp] theorem run_pure (a : α) (earlier : List Call) (s : σ) :
    (pure a : Action σ α).run earlier s = ⟨.ok a, s, [], []⟩ := rfl

@[simp] theorem run_stop (fault : Fault) (earlier : List Call) (s : σ) :
    (stop fault : Action σ α).run earlier s = ⟨.error fault, s, [], []⟩ := rfl

@[simp] theorem run_note (notice : Notice) (earlier : List Call) (s : σ) :
    (note notice : Action σ Unit).run earlier s = ⟨.ok (), s, [notice], []⟩ := rfl

theorem run_bind_of_ok {x : Action σ α} {f : α → Action σ β} {earlier : List Call} {s : σ} {a : α}
    (h : (x.run earlier s).result = .ok a) :
    (x >>= f).run earlier s =
      let first := x.run earlier s
      let second := (f a).run (earlier ++ first.calls) first.state
      ⟨second.result, second.state, first.notices ++ second.notices,
        first.calls ++ second.calls⟩ := by
  simp only [run] at h ⊢
  simp only [bind, h]

theorem run_bind_of_error {x : Action σ α} {f : α → Action σ β} {earlier : List Call} {s : σ}
    {fault : Fault} (h : (x.run earlier s).result = .error fault) :
    (x >>= f).run earlier s =
      let first := x.run earlier s
      ⟨.error fault, first.state, first.notices, first.calls⟩ := by
  simp only [run] at h ⊢
  simp only [bind, h]

@[simp] theorem attempt_pure (a : α) : attempt (pure a : Action σ α) = pure (.ok a) := rfl

/-- A fault keeps what would follow from being tried. -/
theorem attempt_bind (x : Action σ α) (f : α → Action σ β) :
    attempt (x >>= f) = attempt x >>= fun
      | .ok a => attempt (f a)
      | .error fault => pure (.error fault) := by
  funext earlier s
  simp only [attempt, bind]
  rcases x earlier s with ⟨_ | _, _, _, _⟩
  · simp [pure]
  · rfl

end Action
end CargoReport
