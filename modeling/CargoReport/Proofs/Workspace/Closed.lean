import CargoReport.Proofs.Collection.Operations
import CargoReport.Proofs.Workspace.Beside
import CargoReport.Proofs.Workspace.Interleaving

namespace CargoReport

open CargoReport.Action

namespace Collection

/-- What a later state of a collection has kept: the name, and all of it once it was closed. -/
structure Follows (c c' : Collection) : Prop where
  name : c'.name = c.name
  closed : c.disposed = true → c.files = .empty → c' = c

variable {c : Collection}

theorem follows_refl (c : Collection) : Follows c c := ⟨rfl, fun _ _ => rfl⟩

theorem follows_trans ⦃c c' c'' : Collection⦄ (h : Follows c c') (h' : Follows c' c'') :
    Follows c c'' where
  name := h'.name.trans h.name
  closed := by
    intro hd he
    obtain rfl := h.closed hd he
    exact h'.closed hd he

theorem follows_withFiles (h : c.disposed = false) (files : Files) :
    Follows c (c.withFiles files) where
  name := rfl
  closed := fun hd => absurd hd (by simp [h])

theorem moves_publish (files : Files) : (publish files).Moves Follows := by
  intro earlier c
  cases hd : c.disposed with
  | false =>
    rw [run_publish_of_open hd]
    exact follows_withFiles hd _
  | true =>
    rw [run_publish_of_disposed hd]
    split <;> exact follows_refl c

theorem moves_perform (op : Operation) : op.perform.Moves Follows := by
  intro earlier c
  rw [state_perform]
  exact ⟨name_foldl_after c _, fun hd he => foldl_after_of_disposed hd he _⟩

end Collection

open Collection

namespace Workspace

variable {α : Type}

theorem moves_begin : begin.Moves Follows := by
  intro earlier c
  cases hd : c.disposed with
  | false =>
    rw [run_begin_of_open hd]
    exact follows_withFiles hd _
  | true =>
    rw [run_begin_of_disposed hd]
    exact follows_refl c

theorem moves_readMetadata (w : Workspace) (p : Pass α) : (w.readMetadata p).Moves Follows := by
  intro earlier c
  obtain ⟨-, hstate, -⟩ := w.run_readMetadata p earlier c
  rw [hstate]
  exact follows_refl c

theorem moves_beside (x : Action Unit α) : (beside x : Action Collection α).Moves Follows :=
  fun _ c => follows_refl c

theorem moves_publish (w : Workspace) (p : Pass α) (m : Metadata) :
    (w.publish p m).Moves Follows := by
  apply (moves_beside p.command).bind follows_trans
  intro records
  apply (moves_note follows_refl _).bind follows_trans
  intro _
  apply (moves_beside _).bind follows_trans
  intro files
  apply (Collection.moves_publish files).bind follows_trans
  intro _
  apply (moves_note follows_refl _).bind follows_trans
  exact fun _ => moves_pure follows_refl _

end Workspace

/-- What is done at once leaves a collection that was closed as it is; all other parts do anyway. -/
def Part.Harmless {α : Type} : Part α → Prop
  | .start (.atOnce work) => work.Moves Follows
  | .start _ | .answer _ | .begin _ | .readMetadata _ | .publish _ _ => True

namespace Schedule

variable {α : Type} {s : Schedule α}

def Harmless (s : Schedule α) : Prop := ∀ next ∈ s.turns, next.part.Harmless

theorem Harmless.push (h : s.Harmless) (rounds job : Nat) {part : Part α} (hpart : part.Harmless) :
    (s.push rounds job part).Harmless := by
  intro next hnext
  rcases mem_push.mp hnext with hnext | rfl
  · exact h next hnext
  · exact hpart

theorem Harmless.without (h : s.Harmless) (i : Nat) : (s.without i).Harmless :=
  fun next hnext => h next (List.mem_of_mem_eraseIdx hnext)

theorem Harmless.leave (h : s.Harmless) (job : Nat) (r : Except Fault α) :
    (s.finish job r).release.Harmless := by
  rcases hwaiting : s.waiting with _ | ⟨⟨job', p⟩, waiting⟩
  · simp only [release, finish, hwaiting]
    exact h
  · simp only [release, finish, hwaiting]
    exact Harmless.push (s := { s with waiting := waiting, results := _ }) h 0 job' trivial

theorem Harmless.fail (h : s.Harmless) (i : Nat) (fault : Fault) : (s.fail i fault).Harmless := by
  rw [Schedule.fail]
  split
  · exact h
  · split
    · exact (h.without i).leave _ _
    · exact h

theorem Harmless.prefer (h : s.Harmless) (i : Nat) : (s.prefer i).Harmless := by
  rw [Schedule.prefer]
  split <;> exact h

/-- A turn gives a schedule, and the collection only goes on. -/
def GoesOn (x : Action Collection (Schedule α)) : Prop :=
  ∀ earlier c, ∃ s, (x.run earlier c).result = .ok s ∧ s.Harmless ∧
    Follows c (x.run earlier c).state

theorem goesOn_pure (h : s.Harmless) : GoesOn (pure s) :=
  fun _ c => ⟨s, rfl, h, follows_refl c⟩

theorem goesOn_attempt {β : Type} {x : Action Collection β}
    {f : Except Fault β → Action Collection (Schedule α)} (hx : x.Moves Follows)
    (hf : ∀ r, GoesOn (f r)) : GoesOn (Action.attempt x >>= f) := by
  intro earlier c
  have htried : ((Action.attempt x).run earlier c).result = .ok (x.run earlier c).result := rfl
  obtain ⟨hresult, hstate, -⟩ := bind_of_ok (f := f) htried rfl rfl
  obtain ⟨s, hs, hharmless, hfollows⟩ := hf (x.run earlier c).result
    (earlier ++ ((Action.attempt x).run earlier c).calls) ((Action.attempt x).run earlier c).state
  refine ⟨s, hresult.trans hs, hharmless, ?_⟩
  rw [hstate]
  exact follows_trans (hx earlier c) hfollows

theorem Harmless.begin (h : s.Harmless) (job : Nat) (p : Pass α) : GoesOn (s.begin job p) := by
  apply goesOn_attempt Workspace.moves_begin
  intro r
  cases r with
  | error fault => exact goesOn_pure (h.leave job _)
  | ok _ => exact goesOn_pure (h.push 1 job trivial)

theorem Harmless.ask (h : s.Harmless) (job : Nat) (p : Pass α) : GoesOn (s.ask job p) := by
  rw [Schedule.ask]
  split
  · exact goesOn_pure h
  · exact Harmless.begin (s := { s with taken := true }) h job p

theorem Harmless.take (h : s.Harmless) (w : Workspace) (job : Nat) {part : Part α}
    (hpart : part.Harmless) : GoesOn (w.take s job part) := by
  cases part with
  | start work =>
    cases work with
    | atOnce work => exact goesOn_attempt hpart fun r => goesOn_pure h
    | pass p => exact h.ask job p
    | outside announcement work =>
      intro earlier c
      cases announcement <;> exact ⟨_, rfl, h.push 1 job trivial, follows_refl c⟩
  | answer work =>
    apply goesOn_attempt (Workspace.moves_beside work)
    intro r
    rcases r with fault | a | p
    · exact goesOn_pure h
    · exact goesOn_pure h
    · exact h.ask job p
  | begin p => exact h.begin job p
  | readMetadata p =>
    apply goesOn_attempt (w.moves_readMetadata p)
    intro r
    cases r with
    | error fault => exact goesOn_pure (h.leave job _)
    | ok m => exact goesOn_pure (h.push 1 job trivial)
  | publish p m =>
    apply goesOn_attempt (w.moves_publish p m)
    exact fun r => goesOn_pure (h.leave job r)

end Schedule

/-- The pass that a turn comes to, and the calls that are made before it: the pass is started, or
given the workspace, or follows work that was answered. -/
def Part.coming? {α : Type} (later : List Call) : Part α → Option (Pass α × List Call)
  | .start (.pass p) | .begin p => some (p, [])
  | .answer work =>
    match (work.run later ()).result with
    | .ok (.inr p) => some (p, (work.run later ()).calls)
    | _ => none
  | .start (.atOnce _) | .start (.outside _ _) | .readMetadata _ | .publish _ _ => none

namespace Schedule

variable {α : Type} {c : Collection} (hd : c.disposed = true) (s : Schedule α) (job : Nat)
include hd

theorem run_begin_of_disposed (p : Pass α) (later : List Call) : (s.begin job p).run later c =
    ⟨.ok (s.finish job (.error (.disposed c.name))).release, c, [], []⟩ := by
  have hbegin := Workspace.run_begin_of_disposed hd later
  simp only [Action.run] at hbegin
  have htried : (Action.attempt Workspace.begin).run later c =
      ⟨.ok (.error (.disposed c.name)), c, [], []⟩ := by
    simp [Action.run, Action.attempt, hbegin]
  exact run_bind_of_no_calls htried rfl

/-- A pass waits for the workspace, or it is refused. -/
theorem run_ask_of_disposed (p : Pass α) (later : List Call) :
    ∃ s', (s.ask job p).run later c = ⟨.ok s', c, [], []⟩ ∧
      (s'.waiting = s.waiting ++ [(job, p)] ∨
        s'.results = s.results ++ [(job, .error (.disposed c.name))]) := by
  rw [Schedule.ask]
  split
  · exact ⟨_, rfl, .inl rfl⟩
  · exact ⟨_, run_begin_of_disposed hd _ job p later, .inr (results_release _)⟩

theorem run_take_of_disposed (w : Workspace) {part : Part α} {p : Pass α} {later calls : List Call}
    (hp : part.coming? later = some (p, calls)) : ∃ s' notices,
    (w.take s job part).run later c = ⟨.ok s', c, notices, calls⟩ ∧
      (s'.waiting = s.waiting ++ [(job, p)] ∨
        s'.results = s.results ++ [(job, .error (.disposed c.name))]) := by
  cases part with
  | start work =>
    cases work with
    | pass p' =>
      obtain ⟨rfl, rfl⟩ : p' = p ∧ [] = calls := by simpa [Part.coming?] using hp
      obtain ⟨s', hask, hrefused⟩ := s.run_ask_of_disposed hd job p' later
      exact ⟨s', [], hask, hrefused⟩
    | atOnce work => cases hp
    | outside announcement work => cases hp
  | begin p' =>
    obtain ⟨rfl, rfl⟩ : p' = p ∧ [] = calls := by simpa [Part.coming?] using hp
    exact ⟨_, [], s.run_begin_of_disposed hd job p' later, .inr (results_release _)⟩
  | answer work =>
    rcases hwork : work later () with ⟨fault | a | p', ⟨⟩, notices, calls'⟩
    · simp [Part.coming?, Action.run, hwork] at hp
    · simp [Part.coming?, Action.run, hwork] at hp
    · obtain ⟨rfl, rfl⟩ : p' = p ∧ calls' = calls := by
        simpa [Part.coming?, Action.run, hwork] using hp
      obtain ⟨s', hask, hrefused⟩ := s.run_ask_of_disposed hd job p' (later ++ calls')
      refine ⟨s', notices, ?_, hrefused⟩
      simp only [Action.run] at hask
      simp [Workspace.take, Action.run, Action.attempt, beside, zoom, bind, hwork, hask]
  | readMetadata p' => cases hp
  | publish p' m => cases hp

end Schedule

namespace Workspace

/-- What comes of the jobs of a workspace that publishes to this collection, if the collection takes
no more writes: passes are refused before anything is started for them, and all else goes on. -/
structure Refuses (w : Workspace) (c : Collection) : Prop where
  passes : ∀ (s : Start) (later : List Call), s.Enabled w →
    (w.perform (s.job w)).run later c = ⟨.error (.disposed c.name), c, [], []⟩
  save : w.settings.automaticCheck = false → ∀ later : List Call,
    (w.perform w.onSave).run later c = ⟨.ok none, c, [], []⟩
  add : ∀ (name : Text) (later : List Call),
    let done := (w.perform (w.addDependency name)).run later c
    done.calls = w.cargo.processes ["add", "--", name] ∧ done.state = c ∧
      done.result = ((w.cargo.add name).run later ()).result >>= fun _ =>
        if w.settings.automaticCheck then .error (.disposed c.name) else .ok ()
  remove : ∀ (name : Text) (later : List Call),
    let done := (w.perform (w.removeDependency name)).run later c
    done.calls = w.cargo.processes ["rm", "--", name] ∧ done.state = c ∧
      done.result = ((w.cargo.remove name).run later ()).result >>= fun _ =>
        if w.settings.automaticCheck then .error (.disposed c.name) else .ok ()
  search : ∀ (name : Text) (later : List Call) (c' : Collection),
    let done := (w.perform (w.search name)).run later c'
    done.state = c' ∧ (w.perform (w.search name)).run later c = { done with state := c }
  tree : ∀ {β : Type} (look : Action Tree β) (later : List Call) (c' : Collection),
    let done := (w.perform (w.lookAtTree look)).run later c'
    done.state = c' ∧ (w.perform (w.lookAtTree look)).run later c = { done with state := c }

variable {α : Type} (w : Workspace)

/-- The same work on two collections. -/
theorem perform_beside {job : Job α} {x : Action Unit α}
    (hjob : job = .outside none (Sum.inl <$> x)) (later : List Call) (c c' : Collection) :
    let done := (w.perform job).run later c
    done.state = c ∧ (w.perform job).run later c' = { done with state := c' } := by
  intro done
  have hdone : done = _ := hjob ▸ w.run_outside_inl x later c
  rw [hdone, hjob, w.run_outside_inl]
  exact ⟨rfl, rfl⟩

/-- A change of a dependency is made, and the check after it is refused. -/
theorem run_change_of_disposed {c : Collection} (hd : c.disposed = true)
    (announcement done : Notice) (work : Action Unit Unit) (later : List Call) :
    let made := work.run later ()
    let all := (w.perform (w.change announcement work done)).run later c
    all.calls = made.calls ∧ all.state = c ∧ all.result = made.result >>= fun _ =>
      if w.settings.automaticCheck then .error (.disposed c.name) else .ok () := by
  have hrefused : ∀ before,
      (w.perform w.check).run before c = ⟨.error (.disposed c.name), c, [], []⟩ :=
    fun before => w.run_of_disposed w.checkPass hd before
  intro made all
  rcases hmade : work.run later () with ⟨fault | ⟨⟩, ⟨⟩, notices, calls⟩
  · have hall : all = _ := w.run_change_of_error c hmade
    rw [hall, show made = _ from hmade]
    exact ⟨rfl, rfl, rfl⟩
  · have hall : all = _ := w.run_change_of_ok c hmade
    rw [hall, show made = _ from hmade]
    cases w.settings.automaticCheck with
    | false => exact ⟨rfl, rfl, rfl⟩
    | true => simp [hrefused, Except.map, bind, Except.bind]

theorem refuses_of_disposed {c : Collection} (hd : c.disposed = true) : w.Refuses c where
  passes := by
    intro s later hs
    obtain ⟨name, hjob⟩ := Start.job_eq_pass hs
    rw [hjob]
    exact w.run_of_disposed _ hd later
  save := by
    intro hauto later
    rw [onSave, if_neg (by simp [hauto])]
    rfl
  add := by
    intro name later
    obtain ⟨hcalls, hrest⟩ := w.run_change_of_disposed hd (.adding name) (.added name)
      (w.cargo.add name) later
    exact ⟨hcalls.trans (w.cargo.calls_change "add" name later), hrest⟩
  remove := by
    intro name later
    obtain ⟨hcalls, hrest⟩ := w.run_change_of_disposed hd (.removing name) (.removed name)
      (w.cargo.remove name) later
    exact ⟨hcalls.trans (w.cargo.calls_change "rm" name later), hrest⟩
  search := by
    intro name later c'
    apply w.perform_beside
    rw [search, map_eq_pure_bind]
  tree := by
    intro β look later c'
    apply w.perform_beside
    rw [lookAtTree, map_eq_pure_bind, bind_assoc]

end Workspace

namespace Session

open Schedule

variable {w : Workspace}

/-- What is asked of a workspace beside its passes. An answer that is no files is left out. -/
inductive Errand where
  | save
  | add (name : Text)
  | remove (name : Text)
  | search (name : Text)
  | tree (look : Action Tree Unit)

def Errand.job (w : Workspace) : Errand → Job Files
  | save => (fun files? => files?.getD .empty) <$> w.onSave
  | add name => (fun _ => .empty) <$> w.addDependency name
  | remove name => (fun _ => .empty) <$> w.removeDependency name
  | search name => (fun _ => .empty) <$> w.search name
  | tree look => (fun _ => .empty) <$> w.lookAtTree look

/-- One thing that happens on a workspace and its collection. -/
inductive Step where
  | event (e : Event)
  | errand (job : Nat) (e : Errand)
  | operation (op : Operation)

def Step.perform (w : Workspace) : Step → Action Session Unit
  | event e => e.perform w
  | errand job e => Action.modify fun t =>
    { t with schedule := t.schedule.push 0 job (.start (e.job w)) }
  | operation op => do
    let _ ← onCollection (Action.attempt op.perform)

def performSteps (w : Workspace) (steps : List Step) : Action Session Unit :=
  forM steps (Step.perform w)

theorem harmless_errand (w : Workspace) (e : Errand) : (Part.start (e.job w)).Harmless := by
  cases e with
  | save =>
    rw [Errand.job, Workspace.onSave]
    split
    · trivial
    · exact moves_pure follows_refl _
  | add name => trivial
  | remove name => trivial
  | search name => trivial
  | tree look => trivial

theorem goesOn_event (w : Workspace) (e : Event) {t : Session} (h : t.schedule.Harmless)
    (earlier : List Call) :
    let done := (e.perform w).run earlier t
    done.result = .ok () ∧ done.state.schedule.Harmless ∧
      Follows t.collection done.state.collection := by
  intro done
  cases e with
  | start job name command => exact ⟨rfl, h.push 0 job trivial, follows_refl _⟩
  | turn i =>
    cases hi : t.schedule.turns[i]? with
    | none =>
      have hdone : done = ⟨.ok (), t, [], []⟩ := by
        simp [done, Event.perform, Action.run, Action.state, bind, pure, hi]
      rw [hdone]
      exact ⟨rfl, h, follows_refl _⟩
    | some next =>
      have hpart := h next (List.mem_of_getElem? hi)
      obtain ⟨s, hs, hharmless, hfollows⟩ :=
        (h.without i).take w next.job hpart earlier t.collection
      obtain ⟨hresult, hstate⟩ := run_turn hi hs rfl
      refine ⟨hresult, ?_⟩
      rw [show done.state = _ from hstate]
      exact ⟨hharmless, hfollows⟩
  | failure i fault => exact ⟨rfl, h.fail i fault, follows_refl _⟩
  | preference i => exact ⟨rfl, h.prefer i, follows_refl _⟩
  | close => exact ⟨rfl, h, moves_perform .dispose [] _⟩

theorem goesOn_step (w : Workspace) (step : Step) {t : Session} (h : t.schedule.Harmless)
    (earlier : List Call) :
    let done := (step.perform w).run earlier t
    done.result = .ok () ∧ done.state.schedule.Harmless ∧
      Follows t.collection done.state.collection := by
  cases step with
  | event e => exact goesOn_event w e h earlier
  | errand job e => exact ⟨rfl, h.push 0 job (harmless_errand w e), follows_refl _⟩
  | operation op => exact ⟨rfl, h, moves_perform op earlier t.collection⟩

theorem goesOn_performSteps (w : Workspace) (steps : List Step) {t : Session}
    (h : t.schedule.Harmless) (earlier : List Call) :
    let done := (performSteps w steps).run earlier t
    done.result = .ok () ∧ done.state.schedule.Harmless ∧
      Follows t.collection done.state.collection := by
  induction steps generalizing t earlier with
  | nil => exact ⟨rfl, h, follows_refl _⟩
  | cons step steps ih =>
    intro done
    obtain ⟨hresult, hharmless, hfollows⟩ := goesOn_step w step h earlier
    obtain ⟨hrest, hstate, -⟩ := bind_of_ok (f := fun _ => performSteps w steps) hresult rfl rfl
    obtain ⟨hdone, hlast, hlater⟩ :=
      ih hharmless (earlier ++ ((step.perform w).run earlier t).calls)
    refine ⟨hrest.trans hdone, ?_⟩
    rw [show done.state = _ from hstate]
    exact ⟨hlast, follows_trans hfollows hlater⟩

theorem run_turn_of_take {t : Session} {i : Nat} {next : Turn Files}
    (hi : t.schedule.turns[i]? = some next) {later : List Call} {s : Schedule Files}
    {c : Collection} {notices : List Notice} {calls : List Call}
    (htake : (w.take (t.schedule.without i) next.job next.part).run later t.collection =
      ⟨.ok s, c, notices, calls⟩) :
    ((Event.turn i).perform w).run later t = ⟨.ok (), ⟨s, c⟩, notices, calls⟩ := by
  simp only [Action.run] at htake
  simp [Event.perform, onCollection, Action.run, Action.state, Action.zoom, Action.modify, bind,
    hi, htake]

theorem turn_of_disposed {t : Session} (hd : t.collection.disposed = true) {i : Nat}
    {next : Turn Files} (hi : t.schedule.turns[i]? = some next) {later calls : List Call}
    {p : Pass Files} (hp : next.part.coming? later = some (p, calls)) :
    let turn := ((Event.turn i).perform w).run later t
    turn.calls = calls ∧
      (turn.state.schedule.waiting = t.schedule.waiting ++ [(next.job, p)] ∨
        turn.state.schedule.results =
          t.schedule.results ++ [(next.job, .error (.disposed t.collection.name))]) := by
  obtain ⟨s', notices, htake, hrefused⟩ :=
    (t.schedule.without i).run_take_of_disposed hd next.job w hp
  rw [run_turn_of_take hi htake]
  exact ⟨rfl, hrefused⟩

theorem performSteps_close (w : Workspace) (after : List Step) {t : Session}
    (h : t.schedule.Harmless) (earlier : List Call) :
    let done := (performSteps w (.event .close :: after)).run earlier t
    done.result = .ok () ∧ done.state.collection = ⟨t.collection.name, .empty, true⟩ := by
  intro done
  have hclose : ((Step.event .close).perform w).run earlier t =
      ⟨.ok (), ⟨t.schedule, ⟨t.collection.name, .empty, true⟩⟩, [], []⟩ := rfl
  obtain ⟨hresult, -, hfollows⟩ := goesOn_performSteps w after
    (t := ⟨t.schedule, ⟨t.collection.name, .empty, true⟩⟩) h earlier
  have hdone := run_bind_of_no_calls (f := fun _ => performSteps w after) hclose rfl
  rw [show done = _ from hdone]
  exact ⟨hresult, hfollows.closed rfl rfl⟩

/-- Whatever was asked of a workspace before it was closed, whatever of it was still to come, and
whatever was asked afterwards: the collection is empty for good. A pass is refused where it would
begin, and only the change of a dependency that it follows is made. -/
theorem performSteps_after_close (w : Workspace) (c : Collection) (before after : List Step)
    (earlier : List Call) :
    let done := (performSteps w (before ++ .event .close :: after)).run earlier (new c)
    let t := done.state
    done.result = .ok () ∧ t.collection = ⟨c.name, .empty, true⟩ ∧ w.Refuses t.collection ∧
    ∀ i next later p calls, t.schedule.turns[i]? = some next →
      next.part.coming? later = some (p, calls) →
      let turn := ((Event.turn i).perform w).run later t
      turn.calls = calls ∧
        (turn.state.schedule.waiting = t.schedule.waiting ++ [(next.job, p)] ∨
          turn.state.schedule.results =
            t.schedule.results ++ [(next.job, .error (.disposed c.name))]) := by
  intro done t
  -- What came before the close leaves the name, and what comes after it leaves everything.
  have hnew : (new c).schedule.Harmless := nofun
  obtain ⟨hbefore, hharmless, hfollows⟩ := goesOn_performSteps w before hnew earlier
  obtain ⟨hresult, hclosed⟩ := performSteps_close w after hharmless
    (earlier ++ ((performSteps w before).run earlier (new c)).calls)
  have hdone : done = (performSteps w before >>= fun _ =>
      performSteps w (.event .close :: after)).run earlier (new c) := by
    simp [done, performSteps]
  obtain ⟨hdoneresult, hdonestate, -⟩ :=
    bind_of_ok (f := fun _ => performSteps w (.event .close :: after)) hbefore rfl rfl
  rw [← hdone] at hdoneresult hdonestate
  have hcollection : t.collection = ⟨c.name, .empty, true⟩ := by
    have hname : ((performSteps w before).run earlier (new c)).state.collection.name = c.name :=
      hfollows.name
    rw [← hname, ← hclosed]
    exact congrArg Session.collection hdonestate
  have hname : t.collection.name = c.name := by rw [hcollection]
  have hd : t.collection.disposed = true := by rw [hcollection]
  refine ⟨hdoneresult.trans hresult, hcollection, w.refuses_of_disposed hd, ?_⟩
  intro i next later p calls hi hp
  rw [← hname]
  exact turn_of_disposed hd hi hp

end Session
end CargoReport
