import CargoReport.Cargo
import CargoReport.Proofs.Action

namespace CargoReport

open CargoReport.Action

theorem Report.quiet_toAction (r : Report) : r.toAction.Quiet := by
  apply (Quiet.forM (fun why => quiet_note (.skipped why)) _).bind
  intro _
  split
  · exact quiet_stop _
  · exact quiet_pure _

namespace Cargo

def processes (c : Cargo) (words : List Text) : List Call :=
  match c.find with
  | .ok binary => [.command ⟨binary :: words, c.directory⟩]
  | .error _ => []

/-- What a program left that was started with some words, or why it was not started. -/
def launched (c : Cargo) (words : List Text) (earlier : List Call) : Except Fault Finished := do
  let binary ← c.find
  match c.host.launch earlier ⟨binary :: words, c.directory⟩ with
  | .ok finished => return finished
  | .error cause => throw (if cause.isSystem then .cargoNotStarted cause else .raised cause)

section Found

variable {c : Cargo} {words : List Text} {earlier : List Call} {binary : Text}
  (h : c.find = .ok binary)
include h

theorem processes_of_found : c.processes words = [.command ⟨binary :: words, c.directory⟩] := by
  rw [processes, h]

theorem launched_of_ok {finished : Finished}
    (hl : c.host.launch earlier ⟨binary :: words, c.directory⟩ = .ok finished) :
    c.launched words earlier = .ok finished := by
  simp [launched, h, hl, bind, Except.bind, pure, Except.pure]

theorem launched_of_error {cause : Raised}
    (hl : c.host.launch earlier ⟨binary :: words, c.directory⟩ = .error cause) :
    c.launched words earlier =
      .error (if cause.isSystem then .cargoNotStarted cause else .raised cause) := by
  simp [launched, h, hl, bind, Except.bind, throw, throwThe, MonadExceptOf.throw]

end Found

theorem run_start (c : Cargo) (words : List Text) (earlier : List Call) :
    (c.start words).run earlier () =
      ⟨(c.launched words earlier).map .ofFinished, (), [], c.processes words⟩ := by
  rw [start, launched, processes]
  cases c.find with
  | error fault => rfl
  | ok binary =>
    cases hlaunch : c.host.launch earlier ⟨binary :: words, c.directory⟩ with
    | ok finished =>
      simp [Action.run, Action.ofExcept, Action.call, bind, pure, Except.bind, Except.pure,
        Except.map, hlaunch]
    | error cause =>
      cases hsystem : cause.isSystem <;>
        simp [Action.run, Action.ofExcept, Action.call, Action.stop, bind, pure, Except.bind,
          Except.map, throw, throwThe, MonadExceptOf.throw, hlaunch, hsystem]

section Started

variable {α : Type} {c : Cargo} {words : List Text} {earlier : List Call}

theorem run_start_bind_of_error {fault : Fault} (h : c.launched words earlier = .error fault)
    (f : Captured → Action Unit α) :
    (c.start words >>= f).run earlier () = ⟨.error fault, (), [], c.processes words⟩ := by
  have hstart := c.run_start words earlier
  rw [h] at hstart
  rw [run_bind_of_error (by rw [hstart]; rfl), hstart]

theorem run_start_bind_of_ok {finished : Finished} (h : c.launched words earlier = .ok finished)
    (f : Captured → Action Unit α) :
    (c.start words >>= f).run earlier () =
      let rest := (f (.ofFinished finished)).run (earlier ++ c.processes words) ()
      ⟨rest.result, (), rest.notices, c.processes words ++ rest.calls⟩ := by
  have hstart := c.run_start words earlier
  rw [h] at hstart
  rw [run_bind_of_ok (a := .ofFinished finished) (by rw [hstart]; rfl), hstart]
  rfl

end Started

section Change

variable {c : Cargo} {command name : Text} {earlier : List Call}

theorem run_change_of_error {fault : Fault}
    (h : c.launched [command, "--", name] earlier = .error fault) :
    (c.change command name).run earlier () =
      ⟨.error fault, (), [], c.processes [command, "--", name]⟩ :=
  run_start_bind_of_error h _

/-- Cargo has made a change if it ends with exit code 0, and else what it wrote is told. -/
theorem run_change_of_ok {finished : Finished}
    (h : c.launched [command, "--", name] earlier = .ok finished) :
    (c.change command name).run earlier () =
      if finished.exitCode = 0 then ⟨.ok (), (), [], c.processes [command, "--", name]⟩
      else
        let stderr := Capture.text finished.stderr
        ⟨.error (.changeFailed command stderr), (), [.changeFailed stderr],
          c.processes [command, "--", name]⟩ := by
  rw [change, run_start_bind_of_ok h]
  by_cases hzero : finished.exitCode = 0
  · simp [Captured.ofFinished, hzero]
  · rw [if_neg hzero]
    simp [Captured.ofFinished, hzero, run_bind_of_ok]

end Change

theorem calls_start (c : Cargo) (words : List Text) (earlier : List Call) :
    ((c.start words).run earlier ()).calls = c.processes words := by
  rw [run_start]

theorem calls_metadata (c : Cargo) (earlier : List Call) :
    (c.metadata.run earlier ()).calls = c.processes metadataWords := by
  rw [metadata, calls_bind_of_quiet, calls_start]
  intro captured
  cases Metadata.ofText c.host.limits captured.stdout with
  | valid m =>
    dsimp only
    split
    · exact (quiet_stop _).bind fun _ => quiet_pure m
    · exact quiet_pure m
  | invalid issues =>
    dsimp only
    split
    · exact (quiet_stop _).bind fun _ => quiet_stop _
    · exact quiet_stop _

theorem calls_report (c : Cargo) (name : Text) (args : List Text) (earlier : List Call) :
    ((c.report name args).run earlier ()).calls =
      c.processes (name :: "--message-format=json" :: args) := by
  rw [report, calls_bind_of_quiet, calls_start]
  intro captured
  have hread : ∀ _ : Unit, (Report.ofText captured.stdout).toAction.Quiet :=
    fun _ => Report.quiet_toAction _
  dsimp only
  split
  · exact (quiet_stop _).bind hread
  · exact hread ()

theorem calls_change (c : Cargo) (command name : Text) (earlier : List Call) :
    ((c.change command name).run earlier ()).calls = c.processes [command, "--", name] := by
  rw [change, calls_bind_of_quiet, calls_start]
  intro captured
  split
  · exact (quiet_note _).bind fun _ => quiet_stop _
  · exact quiet_pure ()

end Cargo
end CargoReport
