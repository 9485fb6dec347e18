import CargoReport.Proofs.Workspace.Pass

namespace CargoReport

open CargoReport.Action

namespace Workspace

variable {α β : Type} (w : Workspace)

/-- Work beside the collection comes first, and then the pass that it may ask for. -/
theorem run_outside (announcement : Option Notice) (work : Action Unit (α ⊕ Pass α))
    (later : List Call) (c : Collection) :
    let inner := work.run later ()
    let notices := announcement.toList ++ inner.notices
    (w.perform (.outside announcement work)).run later c =
      match inner.result with
      | .error fault => ⟨.error fault, c, notices, inner.calls⟩
      | .ok (.inl a) => ⟨.ok a, c, notices, inner.calls⟩
      | .ok (.inr p) =>
        let rest := (w.run p).run (later ++ inner.calls) c
        ⟨rest.result, rest.state, notices ++ rest.notices, inner.calls ++ rest.calls⟩ := by
  have hannounce : (Job.announce announcement).run later c =
      ⟨.ok (), c, announcement.toList, []⟩ := by
    cases announcement <;> rfl
  rw [perform, run_bind_of_no_calls hannounce rfl]
  rcases hwork : work later () with ⟨fault | a | p, ⟨⟩, notices, calls⟩
  · simp [Action.run, beside, zoom, bind, hwork]
  · simp [Action.run, beside, zoom, bind, pure, hwork]
  · simp [Action.run, beside, zoom, bind, hwork]

/-- Work that asks for no pass neither looks at the collection nor changes it. -/
theorem run_outside_inl (x : Action Unit α) (later : List Call) (c : Collection) :
    let inner := x.run later ()
    (w.perform (.outside none (Sum.inl <$> x))).run later c =
      ⟨inner.result, c, inner.notices, inner.calls⟩ := by
  rw [run_outside, map_eq_pure_bind]
  rcases hx : x later () with ⟨fault | a, ⟨⟩, notices, calls⟩ <;>
    simp [Action.run, bind, pure, hx]

/-- What a pass answers has no influence on what it does. -/
theorem run_map (f : α → β) (p : Pass α) : w.run (f <$> p) = f <$> w.run p := by
  simp only [run, readMetadata, publish, map_eq_pure_bind, bind_assoc, pure_bind]
  rfl

/-- A change that was made is followed by a check if the workspace checks on its own. -/
theorem run_change_of_ok {announcement done : Notice} {work : Action Unit Unit}
    {later calls : List Call} {notices : List Notice} (c : Collection)
    (h : work.run later () = ⟨.ok (), (), notices, calls⟩) :
    (w.perform (w.change announcement work done)).run later c =
      if w.settings.automaticCheck then
        let checked := (w.perform w.check).run (later ++ calls) c
        ⟨checked.result.map fun _ => (), checked.state,
          announcement :: notices ++ done :: checked.notices, calls ++ checked.calls⟩
      else ⟨.ok (), c, announcement :: notices ++ [done], calls⟩ := by
  have hok : (work.run later ()).result = .ok () := by rw [h]
  have hinner : ∀ next : Unit ⊕ Pass Unit,
      (do work; note done; return next : Action Unit (Unit ⊕ Pass Unit)).run later () =
        ⟨.ok next, (), notices ++ [done], calls⟩ := by
    intro next
    rw [run_bind_of_ok hok, h]
    simp [Action.run_map, Except.map]
  have hcheck : w.perform w.check = w.run w.checkPass := rfl
  rw [change, run_outside, hinner]
  cases w.settings.automaticCheck with
  | false => simp
  | true => simp [run_map, Action.run_map, hcheck]

/-- A change that failed is not followed by anything. -/
theorem run_change_of_error {announcement done : Notice} {work : Action Unit Unit}
    {later calls : List Call} {notices : List Notice} {fault : Fault} (c : Collection)
    (h : work.run later () = ⟨.error fault, (), notices, calls⟩) :
    (w.perform (w.change announcement work done)).run later c =
      ⟨.error fault, c, announcement :: notices, calls⟩ := by
  have hstop : (work.run later ()).result = .error fault := by rw [h]
  rw [change, run_outside, run_bind_of_error hstop, h]
  rfl

/-- The two changes of a dependency. -/
inductive Change where
  | add
  | remove

namespace Change

/-- The word that cargo has for a change. -/
def word : Change → Text
  | add => "add"
  | remove => "rm"

def announcement (name : Text) : Change → Notice
  | add => .adding name
  | remove => .removing name

/-- What is told of a change that was made. -/
def completion (name : Text) : Change → Notice
  | add => .added name
  | remove => .removed name

def job (w : Workspace) (name : Text) : Change → Job Unit
  | add => w.addDependency name
  | remove => w.removeDependency name

theorem job_eq_change (w : Workspace) (name : Text) (k : Change) :
    k.job w name =
      w.change (k.announcement name) (w.cargo.change k.word name) (k.completion name) := by
  cases k <;> rfl

end Change

/-- A change that cargo does not make, because no binary is found, or it does not start, or it ends
with another exit code than 0, stops with that, starts nothing more, and leaves the collection as
it was. After a change that it makes, the collection is still as it was, unless checks are made
then: what follows is just what a check does from there. -/
theorem change_leaves_or_checks (w : Workspace) (k : Change) (name : Text) (earlier : List Call)
    (c : Collection) :
    let done := (w.perform (k.job w name)).run earlier c
    (∀ fault, w.cargo.find = .error fault →
      done = ⟨.error fault, c, [k.announcement name], []⟩) ∧
    ∀ binary, w.cargo.find = .ok binary →
      let command : Command := ⟨[binary, k.word, "--", name], w.directory.text⟩
      let checked := (w.perform w.check).run (earlier ++ [.command command]) c
      (∀ cause, w.host.launch earlier command = .error cause →
        done = ⟨.error (if cause.isSystem then .cargoNotStarted cause else .raised cause), c,
          [k.announcement name], [.command command]⟩) ∧
      ∀ finished, w.host.launch earlier command = .ok finished →
        (finished.exitCode ≠ 0 →
          let stderr := Capture.text finished.stderr
          done = ⟨.error (.changeFailed k.word stderr), c,
            [k.announcement name, .changeFailed stderr], [.command command]⟩) ∧
        (finished.exitCode = 0 → w.settings.automaticCheck = false →
          done = ⟨.ok (), c, [k.announcement name, k.completion name], [.command command]⟩) ∧
        (finished.exitCode = 0 → w.settings.automaticCheck = true →
          done = ⟨checked.result.map fun _ => (), checked.state,
            k.announcement name :: k.completion name :: checked.notices,
            .command command :: checked.calls⟩) := by
  intro done
  have hdone : done = (w.perform (w.change (k.announcement name) (w.cargo.change k.word name)
      (k.completion name))).run earlier c := by rw [← k.job_eq_change]
  refine ⟨?_, ?_⟩
  · intro fault hfind
    have hlaunched : w.cargo.launched [k.word, "--", name] earlier = .error fault := by
      rw [Cargo.launched, hfind]
      rfl
    have hnone : w.cargo.processes [k.word, "--", name] = [] := by rw [Cargo.processes, hfind]
    rw [hdone, w.run_change_of_error c (Cargo.run_change_of_error hlaunched), hnone]
  · intro binary hfind command checked
    have hone : w.cargo.processes [k.word, "--", name] = [.command command] :=
      Cargo.processes_of_found hfind
    refine ⟨?_, ?_⟩
    · intro cause hcause
      have hmade := Cargo.run_change_of_error (Cargo.launched_of_error hfind hcause)
      rw [hdone, w.run_change_of_error c hmade, hone]
    · intro finished hfinished
      have hmade := Cargo.run_change_of_ok (Cargo.launched_of_ok hfind hfinished)
      rw [hone] at hmade
      refine ⟨?_, ?_, ?_⟩
      · intro hexit
        rw [if_neg hexit] at hmade
        rw [hdone, w.run_change_of_error c hmade]
      · intro hexit hauto
        rw [if_pos hexit] at hmade
        rw [hdone, w.run_change_of_ok c hmade, hauto]
        rfl
      · intro hexit hauto
        rw [if_pos hexit] at hmade
        rw [hdone, w.run_change_of_ok c hmade, hauto]
        rfl

end Workspace
end CargoReport
