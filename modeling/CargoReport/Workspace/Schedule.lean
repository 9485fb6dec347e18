import CargoReport.Workspace

namespace CargoReport

inductive Part (α : Type) where
  | start (job : Job α)
  | answer (work : Action Unit (α ⊕ Pass α))
  | begin (p : Pass α)
  | readMetadata (p : Pass α)
  | publish (p : Pass α) (m : Metadata)

/-- A part of one of the jobs, and how often the others come round before it. -/
structure Turn (α : Type) where
  rounds : Nat
  job : Nat
  part : Part α

/-- Where several jobs stand: the turns to come, the passes that wait for the workspace, whether a
pass has it, and the jobs that are done with what they came to. -/
structure Schedule (α : Type) where
  turns : List (Turn α)
  waiting : List (Nat × Pass α)
  taken : Bool
  results : List (Nat × Except Fault α)

namespace Schedule

variable {α : Type}

def ofJobs (jobs : List (Nat × Job α)) : Schedule α :=
  ⟨jobs.mapIdx fun i (rounds, job) => ⟨rounds, i, .start job⟩, [], false, []⟩

def push (s : Schedule α) (rounds job : Nat) (part : Part α) : Schedule α :=
  { s with turns := s.turns ++ [⟨rounds, job, part⟩] }

/-- An answer from outside takes a round. -/
def await (s : Schedule α) (job : Nat) (part : Part α) : Schedule α := s.push 1 job part

def finish (s : Schedule α) (job : Nat) (result : Except Fault α) : Schedule α :=
  { s with results := s.results ++ [(job, result)] }

/-- The pass that has the workspace gives it to the one that has waited longest. -/
def release (s : Schedule α) : Schedule α :=
  match s.waiting with
  | [] => { s with taken := false }
  | (job, p) :: waiting => { s with waiting := waiting }.push 0 job (.begin p)

def begin (s : Schedule α) (job : Nat) (p : Pass α) : Action Collection (Schedule α) := do
  match ← Action.attempt Workspace.begin with
  | .ok () => return s.await job (.readMetadata p)
  | .error fault => return (s.finish job (.error fault)).release

def ask (s : Schedule α) (job : Nat) (p : Pass α) : Action Collection (Schedule α) :=
  if s.taken then return { s with waiting := s.waiting ++ [(job, p)] }
  else { s with taken := true }.begin job p

end Schedule

namespace Workspace

variable {α : Type}

/-- The next part of a job, once its turn has come. -/
def take (w : Workspace) (s : Schedule α) (job : Nat) :
    Part α → Action Collection (Schedule α)
  | .start (.atOnce work) => do return s.finish job (← Action.attempt work)
  | .start (.pass p) => s.ask job p
  | .start (.outside announcement work) => do
    Job.announce announcement
    return s.await job (.answer work)
  | .answer work => do
    match ← Action.attempt (Action.beside work) with
    | .ok (.inl a) => return s.finish job (.ok a)
    | .ok (.inr p) => s.ask job p
    | .error fault => return s.finish job (.error fault)
  | .begin p => s.begin job p
  | .readMetadata p => do
    match ← Action.attempt (w.readMetadata p) with
    | .ok m => return s.await job (.publish p m)
    | .error fault => return (s.finish job (.error fault)).release
  | .publish p m => do return (s.finish job (← Action.attempt (w.publish p m))).release

/-- Takes the turns in order, at most as many as `fuel` says. -/
def takeTurns (w : Workspace) : (fuel : Nat) → Schedule α → Action Collection (Schedule α)
  | 0, s => return s
  | fuel + 1, s =>
    match s.turns with
    | [] => return s
    | ⟨0, job, part⟩ :: turns => do
      w.takeTurns fuel (← w.take { s with turns := turns } job part)
    | ⟨rounds + 1, job, part⟩ :: turns =>
      w.takeTurns fuel ({ s with turns := turns }.push rounds job part)

/-- How many turns a job takes at most, those that only let a round pass included. -/
def turnsPerJob : Nat := 8

/-- Jobs that are started together, each after a number of rounds, and what each comes to. -/
def gather (w : Workspace) (jobs : List (Nat × Job α)) :
    Action Collection (List (Except Fault α)) := do
  let fuel := jobs.foldr (fun (rounds, _) fuel => rounds + turnsPerJob + fuel) 0
  let last ← w.takeTurns fuel (.ofJobs jobs)
  return (List.range jobs.length).filterMap fun i => last.results.lookup i

theorem takeTurns_done (w : Workspace) (fuel : Nat) (results : List (Nat × Except Fault α)) :
    w.takeTurns fuel ⟨[], [], false, results⟩ = pure ⟨[], [], false, results⟩ := by
  cases fuel <;> rfl

/-- An answer that nothing else comes before takes two turns. -/
theorem takeTurns_await (w : Workspace) (fuel job : Nat) (part : Part α) (s : Schedule α)
    (h : s.turns = []) :
    w.takeTurns (fuel + 2) (s.await job part) = w.take s job part >>= w.takeTurns fuel := by
  obtain ⟨turns, waiting, taken, results⟩ := s
  subst h
  rfl

theorem ask_takeTurns (w : Workspace) (p : Pass α) (fuel : Nat) :
    (Schedule.ask ⟨[], [], false, []⟩ 0 p >>= w.takeTurns (fuel + 4)) =
      (fun r => ⟨[], [], false, [(0, r)]⟩) <$> Action.attempt (w.run p) := by
  simp only [Schedule.ask, Schedule.begin, run, Action.attempt_bind, Bool.false_eq_true, if_false,
    map_eq_pure_bind, bind_assoc]
  refine bind_congr fun r => ?_
  cases r with
  | error fault => simp [Schedule.finish, Schedule.release, takeTurns_done]
  | ok _ =>
    simp only [pure_bind, bind_assoc, takeTurns_await, take]
    refine bind_congr fun r => ?_
    cases r with
    | error fault => simp [Schedule.finish, Schedule.release, takeTurns_done]
    | ok m =>
      simp only [pure_bind, bind_assoc, takeTurns_await, take]
      refine bind_congr fun r => ?_
      simp [Schedule.finish, Schedule.release, takeTurns_done]

/-- A job that is started alone is performed. -/
theorem gather_singleton (w : Workspace) (job : Job α) :
    w.gather [(0, job)] = (fun r => [r]) <$> Action.attempt (w.perform job) := by
  have h : w.gather [(0, job)] =
      (do
        let s ← w.take ⟨[], [], false, []⟩ 0 (.start job)
        let last ← w.takeTurns 7 s
        return (List.range 1).filterMap fun i => last.results.lookup i) :=
    bind_assoc _ _ _
  rw [h]
  cases job with
  | atOnce work => simp [take, Schedule.finish, perform, takeTurns_done]
  | pass p =>
    simp only [take, perform, ← bind_assoc, w.ask_takeTurns p 3]
    simp
  | outside announcement work =>
    simp only [take, perform, Action.attempt_bind, Job.attempt_announce, map_eq_pure_bind,
      bind_assoc, pure_bind]
    refine bind_congr fun _ => ?_
    rw [takeTurns_await _ 5 _ _ _ rfl]
    simp only [take, bind_assoc]
    refine bind_congr fun r => ?_
    rcases r with fault | a | p
    · simp [Schedule.finish, takeTurns_done]
    · simp [Schedule.finish, takeTurns_done]
    · simp only [← bind_assoc, w.ask_takeTurns p 1]
      simp

end Workspace
end CargoReport
