import CargoReport.Proofs.Workspace.Published
import CargoReport.Proofs.Workspace.Serial

namespace CargoReport

/-- The files that a pass finds with its last part, if the command does not fail. -/
def Part.finds {α : Type} (w : Workspace) (earlier : List Call) : Part α → Option Files
  | publish p m => ((w.findIn p m).run earlier ()).result.toOption
  | start _ | answer _ | begin _ | readMetadata _ => none

/-- Passes of one workspace, and the collection to which they publish. -/
structure Session where
  schedule : Schedule Files
  collection : Collection

namespace Session

def new (c : Collection) : Session := ⟨.ofJobs [], c⟩

def onCollection {α : Type} (x : Action Collection α) : Action Session α :=
  x.zoom (·.collection) fun t c => { t with collection := c }

/-- What can happen: a pass is started, one of the open turns is taken, whichever it is, a pass
that has begun fails while it waits for an answer, another of the waiting passes becomes the first,
or the workspace is closed. -/
inductive Event where
  | start (job : Nat) (name : Text) (command : Action Unit (List Record))
  | turn (i : Nat)
  | failure (i : Nat) (fault : Fault)
  | preference (i : Nat)
  | close

def Event.perform (w : Workspace) : Event → Action Session Unit
  | start job name command => Action.modify fun t =>
    { t with schedule := t.schedule.push 0 job (.start (.pass ⟨name, command, id⟩)) }
  | turn i => do
    let t ← Action.state
    match t.schedule.turns[i]? with
    | none => return
    | some next =>
      let s ← onCollection (w.take (t.schedule.without i) next.job next.part)
      Action.modify fun t => { t with schedule := s }
  | failure i fault => Action.modify fun t => { t with schedule := t.schedule.fail i fault }
  | preference i => Action.modify fun t => { t with schedule := t.schedule.prefer i }
  | close => onCollection (w.perform Workspace.close)

def performAll (w : Workspace) (events : List Event) : Action Session Unit :=
  forM events (Event.perform w)

open Schedule

variable {initial c : Collection} {closed : Prop} {s : Schedule Files} {w : Workspace}

theorem run_turn {t : Session} {i : Nat} {next : Turn Files} (hi : t.schedule.turns[i]? = some next)
    {earlier : List Call}
    (hs : ((w.take (t.schedule.without i) next.job next.part).run earlier t.collection).result =
      .ok s)
    (hc : ((w.take (t.schedule.without i) next.job next.part).run earlier t.collection).state =
      c) :
    let done := ((Event.turn i).perform w).run earlier t
    done.result = .ok () ∧ done.state = ⟨s, c⟩ := by
  simp only [Action.run] at hs hc
  simp [Event.perform, onCollection, Action.run, Action.state, Action.zoom, Action.modify, bind,
    hi, hs, hc]

/-- A pass that found something is told when the collection was disposed of meanwhile. -/
theorem results_turn_of_disposed {t : Session} (hd : t.collection.disposed = true) {i : Nat}
    {next : Turn Files} (hi : t.schedule.turns[i]? = some next) {earlier : List Call}
    {files : Files} (hfinds : next.part.finds w earlier = some files)
    (hsome : files.entries ≠ []) :
    (((Event.turn i).perform w).run earlier t).state.schedule.results =
      t.schedule.results ++ [(next.job, .error (.disposed t.collection.name))] := by
  obtain ⟨rounds, job, part⟩ := next
  cases part with
  | publish p m =>
    have hfound : ((w.findIn p m).run earlier ()).result = .ok files := by
      rw [Part.finds] at hfinds
      cases hr : ((w.findIn p m).run earlier ()).result with
      | error fault =>
        rw [hr] at hfinds
        cases hfinds
      | ok found =>
        rw [hr] at hfinds
        cases hfinds
        rfl
    obtain ⟨hstop, -⟩ := w.run_publish_of_disposed p m earlier hd
    have htried : ((Action.attempt (w.publish p m)).run earlier t.collection).result =
        .ok (.error (.disposed t.collection.name)) := by
      rw [← hstop files hfound hsome]
      rfl
    obtain ⟨htaken, -⟩ := Action.bind_of_ok (f := fun r =>
      (pure ((t.schedule.without i).finish job r).release : Action Collection (Schedule Files)))
      htried rfl rfl
    obtain ⟨-, hstate⟩ := run_turn (w := w) hi htaken rfl
    rw [hstate, Schedule.results_release]
    rfl
  | _ => cases hfinds

/-- What every event keeps. -/
theorem serial_perform (w : Workspace) (event : Event) {t : Session}
    (h : Serial initial closed t.schedule t.collection) (earlier : List Call) :
    let done := (event.perform w).run earlier t
    done.result = .ok () ∧
      Serial initial (closed ∨ event = .close) done.state.schedule done.state.collection := by
  intro done
  cases event with
  | start job name command =>
    simp only [reduceCtorEq, or_false]
    exact ⟨rfl, h.start job name command⟩
  | turn i =>
    simp only [reduceCtorEq, or_false]
    cases hi : t.schedule.turns[i]? with
    | none =>
      have hdone : done = ⟨.ok (), t, [], []⟩ := by
        simp [done, Event.perform, Action.run, Action.state, bind, pure, hi]
      rw [hdone]
      exact ⟨rfl, h⟩
    | some next =>
      obtain ⟨s, hs, hserial⟩ := h.take w hi earlier
      obtain ⟨hresult, hstate⟩ := run_turn hi hs rfl
      refine ⟨hresult, ?_⟩
      rw [show done.state = _ from hstate]
      exact hserial
  | failure i fault =>
    simp only [reduceCtorEq, or_false]
    exact ⟨rfl, h.fail i fault⟩
  | preference i =>
    simp only [reduceCtorEq, or_false]
    exact ⟨rfl, h.prefer i⟩
  | close =>
    simp only [or_true]
    exact ⟨rfl, h.close⟩

theorem serial_performAll (w : Workspace) (events : List Event) {t : Session}
    (h : Serial initial closed t.schedule t.collection) (earlier : List Call) :
    let done := (performAll w events).run earlier t
    done.result = .ok () ∧
      Serial initial (closed ∨ .close ∈ events) done.state.schedule done.state.collection := by
  induction events generalizing closed t earlier with
  | nil =>
    simp only [List.not_mem_nil, or_false]
    exact ⟨rfl, h⟩
  | cons event events ih =>
    obtain ⟨hresult, hserial⟩ := serial_perform w event h earlier
    obtain ⟨hrest, hstate, -⟩ := Action.bind_of_ok (f := fun _ => performAll w events) hresult rfl
      rfl
    -- The close may be the first event or come later.
    have hclosed : (closed ∨ Event.close ∈ event :: events) =
        ((closed ∨ event = .close) ∨ .close ∈ events) := by
      simp only [List.mem_cons, or_assoc, eq_comm (a := event)]
    intro done
    obtain ⟨hdone, hlast⟩ := ih hserial (earlier ++ ((event.perform w).run earlier t).calls)
    rw [hclosed, show done.state = _ from hstate]
    exact ⟨hrest.trans hdone, hlast⟩

/-- Any number of passes on one workspace, whatever comes first: at most one of them has begun and
is not done, and meanwhile the collection is empty. While none is, the collection holds what the
pass that was done last has published, which is nothing if it failed. Once the workspace was closed
the collection is empty for good, and a pass that has something to publish is told so. -/
theorem performAll_serializes_passes (w : Workspace) (c : Collection)
    (hc : c.disposed = true → c.files = .empty) (events : List Event) (earlier : List Call) :
    let done := (performAll w events).run earlier (new c)
    let t := done.state
    let closed := c.disposed = true ∨ .close ∈ events
    done.result = .ok () ∧ t.collection.name = c.name ∧ (t.collection.disposed = true ↔ closed) ∧
    t.schedule.turns.countP (·.part.inside) ≤ 1 ∧
    (∀ next ∈ t.schedule.turns, next.part.inside = true → t.collection.files = .empty) ∧
    ((∀ next ∈ t.schedule.turns, next.part.inside = false) → ¬closed →
      t.collection.files = t.schedule.lastPublished c.files) ∧
    (closed → t.collection.files = .empty ∧
      ∀ i next earlier files, t.schedule.turns[i]? = some next →
        next.part.finds w earlier = some files → files.entries ≠ [] →
        (((Event.turn i).perform w).run earlier t).state.schedule.results =
          t.schedule.results ++ [(next.job, .error (.disposed c.name))]) := by
  intro done t closed
  obtain ⟨hresult, h⟩ : done.result = .ok () ∧ Serial c closed t.schedule t.collection :=
    serial_performAll w events (serial_new hc) earlier
  refine ⟨hresult, h.kept.name, h.kept.disposed, ?_, h.inside, h.outside, ?_⟩
  · calc t.schedule.turns.countP (·.part.inside)
        ≤ t.schedule.owners := List.countP_mono_left fun next _ => Part.owns_of_inside
      _ = if t.schedule.taken then 1 else 0 := h.owners
      _ ≤ 1 := by split <;> simp
  · intro hclosed
    refine ⟨h.kept.empty hclosed, ?_⟩
    intro i next earlier files hi hfinds hsome
    rw [← h.kept.name]
    exact results_turn_of_disposed (h.kept.disposed.mpr hclosed) hi hfinds hsome

/-- Two checks are started, the first one gets as far as its command, and the workspace is closed
while the other one waits. -/
def closedInFlight : List Event :=
  [.start 0 "cargo check" Workspace.checking.checkPass.command,
    .start 1 "cargo check" Workspace.checking.checkPass.command, .turn 0, .turn 0, .turn 0, .close]

theorem performAll_serializes_passes_closedInFlight :
    (Workspace.stale.disposed = true → Workspace.stale.files = .empty) ∧
      let t := ((performAll Workspace.checking closedInFlight).run [] (new Workspace.stale)).state
      t.schedule.waiting.map Prod.fst = [1] ∧ t.collection.files = .empty ∧
      (((Event.turn 0).perform Workspace.checking).run [] t).state.schedule.results =
        [(0, .error (.disposed "cargo"))] := by
  have hopen : Workspace.stale.disposed = true → Workspace.stale.files = .empty := nofun
  have hclose : Event.close ∈ closedInFlight := by simp [closedInFlight]
  have hspec := (performAll_serializes_passes Workspace.checking Workspace.stale hopen
    closedInFlight []).2.2.2.2.2.2 (.inr hclose)
  have hwaiting : ((performAll Workspace.checking closedInFlight).run []
      (new Workspace.stale)).state.schedule.waiting.map Prod.fst = [1] := by decide +kernel
  have hnone : ((performAll Workspace.checking closedInFlight).run []
      (new Workspace.stale)).state.schedule.results.length = 0 := by decide +kernel
  have hfinds : ((performAll Workspace.checking closedInFlight).run []
      (new Workspace.stale)).state.schedule.turns[0]?.map (fun next =>
        (next.job, (next.part.finds Workspace.checking []).map Table.size)) =
      some (0, some 1) := by decide +kernel
  -- The run was evaluated for these three facts; it need not be unfolded again.
  refine ⟨hopen, ?_⟩
  generalize ((performAll Workspace.checking closedInFlight).run [] (new Workspace.stale)).state = t
    at hspec hwaiting hnone hfinds ⊢
  obtain ⟨hempty, hraises⟩ := hspec
  refine ⟨hwaiting, hempty, ?_⟩
  simp only [Option.map_eq_some_iff, Prod.mk.injEq] at hfinds
  obtain ⟨next, hi, hjob, files, hfiles, hsize⟩ := hfinds
  have hsome : files.entries ≠ [] := by
    intro hentries
    simp [Table.size, hentries] at hsize
  rw [hraises 0 next [] files hi hfiles hsome, List.eq_nil_of_length_eq_zero hnone, hjob]
  rfl

end Session
end CargoReport
