import CargoReport.Proofs.Workspace.Pass
import CargoReport.Workspace.Schedule
import Mathlib.Data.List.Perm.Basic

namespace CargoReport

namespace Part

variable {α : Type}

/-- Whether a pass has the workspace, if only to begin. -/
def owns : Part α → Bool
  | begin _ | readMetadata _ | publish _ _ => true
  | start _ | answer _ => false

/-- Whether a pass has begun and is not done. -/
def inside : Part α → Bool
  | readMetadata _ | publish _ _ => true
  | start _ | answer _ | begin _ => false

theorem owns_of_inside {part : Part α} (h : part.inside = true) : part.owns = true := by
  cases part <;> first | rfl | cases h

/-- A part of a pass that answers for the files that it published. -/
def OfPass : Part Files → Prop
  | start (.pass p) | begin p | readMetadata p | publish p _ => p.answer = id
  | start (.atOnce _) | start (.outside _ _) | answer _ => False

end Part

namespace Schedule

variable {α : Type}

/-- How many passes have the workspace. -/
def owners (s : Schedule α) : Nat := s.turns.countP (·.part.owns)

/-- The schedule without one of its turns. -/
def without (s : Schedule α) (i : Nat) : Schedule α := { s with turns := s.turns.eraseIdx i }

/-- The schedule after the pass of a turn has failed, if it had begun. -/
def fail (s : Schedule α) (i : Nat) (fault : Fault) : Schedule α :=
  match s.turns[i]? with
  | none => s
  | some next =>
    if next.part.inside then ((s.without i).finish next.job (.error fault)).release else s

/-- The schedule with another of the waiting passes as the first. -/
def prefer (s : Schedule α) (i : Nat) : Schedule α :=
  match s.waiting[i]? with
  | none => s
  | some first => { s with waiting := first :: s.waiting.eraseIdx i }

/-- What the pass that was done last has published; before any is done, what was there. -/
def lastPublished (s : Schedule Files) (before : Files) : Files :=
  match s.results.getLast? with
  | none => before
  | some (_, result) => Workspace.published result

theorem owners_push (s : Schedule α) (rounds job : Nat) (part : Part α) :
    (s.push rounds job part).owners = s.owners + if part.owns then 1 else 0 := by
  simp [owners, push, List.countP_append, List.countP_singleton]

theorem mem_push {s : Schedule α} {rounds job : Nat} {part : Part α} {next : Turn α} :
    next ∈ (s.push rounds job part).turns ↔ next ∈ s.turns ∨ next = ⟨rounds, job, part⟩ := by
  simp [push]

theorem results_release (s : Schedule α) : s.release.results = s.results := by
  rw [release]
  cases s.waiting <;> rfl

theorem perm_without {s : Schedule α} {i : Nat} {next : Turn α} (h : s.turns[i]? = some next) :
    (next :: (s.without i).turns).Perm s.turns := by
  obtain ⟨hi, rfl⟩ := List.getElem?_eq_some_iff.mp h
  exact List.getElem_cons_eraseIdx_perm hi

theorem owners_without {s : Schedule α} {i : Nat} {next : Turn α} (h : s.turns[i]? = some next) :
    s.owners = (s.without i).owners + if next.part.owns then 1 else 0 := by
  rw [owners, ← (perm_without h).countP_eq, List.countP_cons, owners]

/-- Nothing but passes has a turn or waits. -/
structure OfPasses (s : Schedule Files) : Prop where
  turns : ∀ next ∈ s.turns, next.part.OfPass
  waiting : ∀ entry ∈ s.waiting, entry.2.answer = id

/-- The collection that was the initial one, given whether it was closed since. -/
structure Kept (initial : Collection) (closed : Prop) (c : Collection) : Prop where
  disposed : c.disposed = true ↔ closed
  empty : closed → c.files = .empty
  name : c.name = initial.name

/-- The pass that has the workspace is at work: it has no turn to come. -/
structure Vacant (initial : Collection) (closed : Prop) (s : Schedule Files) (c : Collection) :
    Prop where
  passes : s.OfPasses
  kept : Kept initial closed c
  taken : s.taken = true
  owners : s.owners = 0

/-- No pass is at work: each that is not done has a turn to come or waits for the workspace. -/
structure Serial (initial : Collection) (closed : Prop) (s : Schedule Files) (c : Collection) :
    Prop where
  passes : s.OfPasses
  kept : Kept initial closed c
  owners : s.owners = if s.taken then 1 else 0
  inside : ∀ next ∈ s.turns, next.part.inside = true → c.files = .empty
  outside : (∀ next ∈ s.turns, next.part.inside = false) → ¬closed →
    c.files = s.lastPublished initial.files

variable {initial c : Collection} {closed : Prop} {s : Schedule Files}

theorem serial_new (h : c.disposed = true → c.files = .empty) :
    Serial c (c.disposed = true) (.ofJobs []) c where
  passes := ⟨nofun, nofun⟩
  kept := ⟨Iff.rfl, h, rfl⟩
  owners := rfl
  inside := nofun
  outside := fun _ _ => rfl

theorem OfPasses.push (h : s.OfPasses) (rounds job : Nat) {part : Part Files}
    (hpart : part.OfPass) : (s.push rounds job part).OfPasses where
  turns := by
    intro next hnext
    rcases mem_push.mp hnext with hnext | rfl
    · exact h.turns next hnext
    · exact hpart
  waiting := h.waiting

theorem OfPasses.without (h : s.OfPasses) (i : Nat) : (s.without i).OfPasses where
  turns := fun next hnext => h.turns next (List.mem_of_mem_eraseIdx hnext)
  waiting := h.waiting

theorem Kept.withFiles (h : Kept initial closed c) (hopen : c.disposed = false) (files : Files) :
    Kept initial closed (c.withFiles files) where
  disposed := h.disposed
  empty := fun hclosed => absurd (h.disposed.mpr hclosed) (by simp [hopen])
  name := h.name

theorem Vacant.withFiles (h : Vacant initial closed s c) (hopen : c.disposed = false)
    (files : Files) : Vacant initial closed s (c.withFiles files) :=
  { h with kept := h.kept.withFiles hopen files }

theorem Vacant.not_inside (h : Vacant initial closed s c) {next : Turn Files}
    (hnext : next ∈ s.turns) : next.part.inside = false := by
  have hnone := List.countP_eq_zero.mp h.owners next hnext
  rw [Bool.eq_false_iff]
  exact fun hinside => hnone (Part.owns_of_inside hinside)

/-- The pass goes on to a part after its first one. -/
theorem Vacant.await (h : Vacant initial closed s c) (job : Nat) {part : Part Files}
    (hpart : part.OfPass) (hinside : part.inside = true) (he : c.files = .empty) :
    Serial initial closed (s.await job part) c where
  passes := h.passes.push 1 job hpart
  kept := h.kept
  owners := by
    rw [Schedule.await, Schedule.owners_push, h.owners, Part.owns_of_inside hinside]
    exact (if_pos h.taken).symm
  inside := fun _ _ _ => he
  outside := by
    intro hall
    have hlast := hall ⟨1, job, part⟩ (mem_push.mpr (.inr rfl))
    exact absurd hinside (by simp [hlast])

/-- The pass is done, and the collection tells of it. -/
theorem Vacant.leave (h : Vacant initial closed s c) (job : Nat) {r : Except Fault Files}
    (hr : ¬closed → c.files = Workspace.published r) :
    Serial initial closed (s.finish job r).release c := by
  have hlast : ∀ s' : Schedule Files, s'.results = s.results ++ [(job, r)] →
      s'.lastPublished initial.files = Workspace.published r := by
    intro s' hs
    simp [Schedule.lastPublished, hs]
  -- The workspace becomes free, or the pass that waited longest has it and is yet to begin. No turn
  -- is inside either way, so the collection has to tell of this pass.
  rcases hwaiting : s.waiting with _ | ⟨⟨job', p⟩, waiting⟩
  · have hrelease : (s.finish job r).release = { s.finish job r with taken := false } := by
      simp [Schedule.release, Schedule.finish, hwaiting]
    rw [hrelease]
    exact {
      passes := ⟨h.passes.turns, h.passes.waiting⟩
      kept := h.kept
      owners := h.owners
      inside := fun next hnext hinside => absurd hinside (by simp [h.not_inside hnext])
      outside := fun _ hopen => (hr hopen).trans (hlast _ rfl).symm }
  · have hrelease : (s.finish job r).release =
        ({ s.finish job r with waiting := waiting } : Schedule Files).push 0 job' (.begin p) := by
      simp [Schedule.release, Schedule.finish, hwaiting]
    have hwaits : ∀ entry ∈ (job', p) :: waiting, entry.2.answer = id :=
      hwaiting ▸ h.passes.waiting
    have hpasses : OfPasses { s.finish job r with waiting := waiting } :=
      ⟨h.passes.turns, fun entry hentry => hwaits entry (List.mem_cons_of_mem _ hentry)⟩
    have hp : (Part.begin p).OfPass := hwaits (job', p) List.mem_cons_self
    have hnone : ({ s.finish job r with waiting := waiting } : Schedule Files).owners = 0 :=
      h.owners
    rw [hrelease]
    exact {
      passes := hpasses.push 0 job' hp
      kept := h.kept
      owners := by
        rw [Schedule.owners_push, hnone]
        exact (if_pos h.taken).symm
      inside := by
        intro next hnext hinside
        rcases mem_push.mp hnext with hnext | rfl
        · exact absurd hinside (by simp [h.not_inside hnext])
        · cases hinside
      outside := fun _ hopen => (hr hopen).trans (hlast _ rfl).symm }

/-- The turn of a pass that has the workspace is taken out. -/
theorem Serial.vacant (h : Serial initial closed s c) {i : Nat} {next : Turn Files}
    (hi : s.turns[i]? = some next) (howns : next.part.owns = true) :
    Vacant initial closed (s.without i) c := by
  have howners := Schedule.owners_without hi
  rw [h.owners, howns, if_pos rfl] at howners
  -- A free workspace has no owner, but the turn is one.
  have htaken : s.taken = true := by
    by_contra hfree
    rw [if_neg hfree] at howners
    exact absurd howners (by simp)
  rw [if_pos htaken] at howners
  exact {
    passes := h.passes.without i
    kept := h.kept
    taken := htaken
    owners := by omega }

/-- The turn of a pass that has not asked for the workspace yet is taken out. -/
theorem Serial.without (h : Serial initial closed s c) {i : Nat} {next : Turn Files}
    (hi : s.turns[i]? = some next) (hnot : next.part.owns = false) :
    Serial initial closed (s.without i) c := by
  have howners := Schedule.owners_without hi
  rw [h.owners, hnot] at howners
  exact {
    passes := h.passes.without i
    kept := h.kept
    owners := howners.symm
    inside := fun other hother => h.inside other (List.mem_of_mem_eraseIdx hother)
    outside := by
      intro hall hopen
      apply h.outside _ hopen
      intro other hother
      rcases List.mem_cons.mp ((Schedule.perm_without hi).mem_iff.mpr hother) with rfl | hother
      · rw [Bool.eq_false_iff]
        exact fun hinside => by simp [Part.owns_of_inside hinside] at hnot
      · exact hall other hother }

/-- An action on the schedule and the collection gives a schedule, and no pass is at work then. -/
def Settles (initial : Collection) (closed : Prop) (x : Action Collection (Schedule Files))
    (earlier : List Call) (c : Collection) : Prop :=
  ∃ s, (x.run earlier c).result = .ok s ∧ Serial initial closed s (x.run earlier c).state

/-- Each part of a pass is attempted, and the schedule is told what it came to. -/
theorem settles_attempt {α : Type} {x : Action Collection α}
    {f : Except Fault α → Action Collection (Schedule Files)} {earlier : List Call}
    {r : Except Fault α} {c' : Collection} (hr : (x.run earlier c).result = r)
    (hc : (x.run earlier c).state = c') (hf : f r = pure s) (h : Serial initial closed s c') :
    Settles initial closed (Action.attempt x >>= f) earlier c := by
  have htried : ((Action.attempt x).run earlier c).result = .ok r := by rw [← hr]; rfl
  obtain ⟨hresult, hstate, -⟩ := Action.bind_of_ok (f := f) htried hc rfl
  rw [hf] at hresult hstate
  refine ⟨s, hresult, ?_⟩
  rw [hstate]
  exact h

theorem Vacant.begin (h : Vacant initial closed s c) (job : Nat) {p : Pass Files}
    (hp : p.answer = id) (earlier : List Call) :
    Settles initial closed (s.begin job p) earlier c := by
  cases hd : c.disposed with
  | true =>
    have hbegin := Workspace.run_begin_of_disposed hd earlier
    apply settles_attempt (congrArg Outcome.result hbegin) (congrArg Outcome.state hbegin) rfl
    exact h.leave job (fun hopen => absurd (h.kept.disposed.mp hd) hopen)
  | false =>
    have hbegin := Workspace.run_begin_of_open hd earlier
    apply settles_attempt (congrArg Outcome.result hbegin) (congrArg Outcome.state hbegin) rfl
    exact (h.withFiles hd .empty).await job hp rfl rfl

theorem Serial.ask (h : Serial initial closed s c) (job : Nat) {p : Pass Files} (hp : p.answer = id)
    (earlier : List Call) : Settles initial closed (s.ask job p) earlier c := by
  have howners := h.owners
  rw [Schedule.ask]
  cases htaken : s.taken with
  | true =>
    rw [htaken] at howners
    have hwaiting : ∀ entry ∈ s.waiting ++ [(job, p)], entry.2.answer = id := by
      intro entry hentry
      rcases List.mem_append.mp hentry with hentry | hentry
      · exact h.passes.waiting entry hentry
      · rw [List.mem_singleton] at hentry
        subst hentry
        exact hp
    exact ⟨_, rfl, {
      passes := ⟨h.passes.turns, hwaiting⟩
      kept := h.kept
      owners := howners
      inside := h.inside
      outside := h.outside }⟩
  | false =>
    rw [htaken] at howners
    have hvacant : Vacant initial closed { s with taken := true } c := {
      passes := ⟨h.passes.turns, h.passes.waiting⟩
      kept := h.kept
      taken := rfl
      owners := howners }
    exact hvacant.begin job hp earlier

section AtWork

variable (h : Vacant initial closed s c) (he : c.files = .empty) (w : Workspace) (job : Nat)
  {p : Pass Files} (hp : p.answer = id) (earlier : List Call)
include h he hp

theorem Vacant.readMetadata :
    Settles initial closed (w.take s job (.readMetadata p)) earlier c := by
  obtain ⟨hresult, hstate, -⟩ := w.run_readMetadata p earlier c
  cases hr : (w.cargo.metadata.run earlier ()).result with
  | error fault =>
    apply settles_attempt (hresult.trans hr) hstate rfl
    exact h.leave job (fun _ => he)
  | ok m =>
    apply settles_attempt (hresult.trans hr) hstate rfl
    exact h.await job hp rfl he

theorem Vacant.publish (m : Metadata) :
    Settles initial closed (w.take s job (.publish p m)) earlier c := by
  cases hd : c.disposed with
  | true =>
    obtain ⟨-, hstate⟩ := w.run_publish_of_disposed p m earlier hd
    apply settles_attempt rfl hstate rfl
    exact h.leave job (fun hopen => absurd (h.kept.disposed.mp hd) hopen)
  | false =>
    obtain ⟨hresult, hstate, -⟩ := w.run_publish_of_open p m earlier hd he
    apply settles_attempt hresult hstate rfl
    apply (h.withFiles hd _).leave
    intro _
    rw [hp]
    cases ((w.findIn p m).run earlier ()).result <;> rfl

end AtWork

/-- Whichever turn is taken, no pass gets in the way of another. -/
theorem Serial.take (h : Serial initial closed s c) (w : Workspace) {i : Nat} {next : Turn Files}
    (hi : s.turns[i]? = some next) (earlier : List Call) :
    Settles initial closed (w.take (s.without i) next.job next.part) earlier c := by
  have hmem : next ∈ s.turns := List.mem_of_getElem? hi
  have hpass := h.passes.turns next hmem
  have hempty := h.inside next hmem
  obtain ⟨rounds, job, part⟩ := next
  cases part with
  | start work =>
    cases work with
    | atOnce work => exact hpass.elim
    | pass p => exact (h.without hi rfl).ask job hpass earlier
    | outside announcement work => exact hpass.elim
  | answer work => exact hpass.elim
  | begin p => exact (h.vacant hi rfl).begin job hpass earlier
  | readMetadata p => exact (h.vacant hi rfl).readMetadata (hempty rfl) w job hpass earlier
  | publish p m => exact (h.vacant hi rfl).publish (hempty rfl) w job hpass earlier m

/-- A turn that lets a round pass comes last. -/
theorem Serial.rotate {turns : List (Turn Files)} {waiting : List (Nat × Pass Files)} {taken : Bool}
    {results : List (Nat × Except Fault Files)} {rounds rounds' job : Nat} {part : Part Files}
    (h : Serial initial closed ⟨⟨rounds, job, part⟩ :: turns, waiting, taken, results⟩ c) :
    let s : Schedule Files := ⟨turns, waiting, taken, results⟩
    Serial initial closed (s.push rounds' job part) c := by
  intro s
  have hpasses : s.OfPasses :=
    ⟨fun next hnext => h.passes.turns next (List.mem_cons_of_mem _ hnext), h.passes.waiting⟩
  have hpart := h.passes.turns _ List.mem_cons_self
  exact {
    passes := hpasses.push rounds' job hpart
    kept := h.kept
    owners := by
      rw [owners_push]
      exact List.countP_cons.symm.trans h.owners
    inside := by
      intro next hnext hinside
      rcases mem_push.mp hnext with hnext | rfl
      · exact h.inside next (List.mem_cons_of_mem _ hnext) hinside
      · exact h.inside _ List.mem_cons_self hinside
    outside := by
      intro hall
      apply h.outside
      intro next hnext
      rcases List.mem_cons.mp hnext with rfl | hnext
      · exact hall ⟨rounds', job, part⟩ (mem_push.mpr (.inr rfl))
      · exact hall next (mem_push.mpr (.inl hnext)) }

/-- Turns that are taken in order, with rounds that pass between them. -/
theorem Serial.takeTurns (h : Serial initial closed s c) (w : Workspace) (fuel : Nat)
    (earlier : List Call) : Settles initial closed (w.takeTurns fuel s) earlier c := by
  induction fuel generalizing s c earlier with
  | zero => exact ⟨s, rfl, h⟩
  | succ fuel ih =>
    obtain ⟨turns, waiting, taken, results⟩ := s
    rcases turns with _ | ⟨⟨rounds, job, part⟩, turns⟩
    · exact ⟨_, rfl, h⟩
    · cases rounds with
      | zero =>
        obtain ⟨s, hs, hserial⟩ := h.take w (i := 0) rfl earlier
        obtain ⟨hresult, hstate, -⟩ := Action.bind_of_ok (f := w.takeTurns fuel) hs rfl rfl
        obtain ⟨s', hs', hserial'⟩ := ih hserial _
        refine ⟨s', hresult.trans hs', ?_⟩
        rw [← hstate] at hserial'
        exact hserial'
      | succ rounds => exact ih h.rotate earlier

theorem Serial.start (h : Serial initial closed s c) (job : Nat) (name : Text)
    (command : Action Unit (List Record)) :
    Serial initial closed (s.push 0 job (.start (.pass ⟨name, command, id⟩))) c where
  passes := h.passes.push 0 job rfl
  kept := h.kept
  owners := by
    rw [Schedule.owners_push]
    exact h.owners
  inside := by
    intro next hnext hinside
    rcases mem_push.mp hnext with hnext | rfl
    · exact h.inside next hnext hinside
    · cases hinside
  outside := fun hall => h.outside fun next hnext => hall next (mem_push.mpr (.inl hnext))

theorem Serial.fail (h : Serial initial closed s c) (i : Nat) (fault : Fault) :
    Serial initial closed (s.fail i fault) c := by
  rw [Schedule.fail]
  cases hi : s.turns[i]? with
  | none => exact h
  | some next =>
    by_cases hinside : next.part.inside = true
    · simp only [hinside, if_true]
      have hempty := h.inside next (List.mem_of_getElem? hi) hinside
      exact (h.vacant hi (Part.owns_of_inside hinside)).leave next.job (fun _ => hempty)
    · simp only [hinside]
      exact h

theorem Serial.prefer (h : Serial initial closed s c) (i : Nat) :
    Serial initial closed (s.prefer i) c := by
  rw [Schedule.prefer]
  cases hi : s.waiting[i]? with
  | none => exact h
  | some first =>
    have hwaiting : ∀ entry ∈ first :: s.waiting.eraseIdx i, entry.2.answer = id := by
      intro entry hentry
      rcases List.mem_cons.mp hentry with rfl | hentry
      · exact h.passes.waiting entry (List.mem_of_getElem? hi)
      · exact h.passes.waiting entry (List.mem_of_mem_eraseIdx hentry)
    exact {
      passes := ⟨h.passes.turns, hwaiting⟩
      kept := h.kept
      owners := h.owners
      inside := h.inside
      outside := h.outside }

theorem Serial.close (h : Serial initial closed s c) :
    Serial initial True s { c with files := .empty, disposed := true } where
  passes := h.passes
  kept := ⟨iff_of_true rfl trivial, fun _ => rfl, h.kept.name⟩
  owners := h.owners
  inside := fun _ _ _ => rfl
  outside := fun _ hopen => absurd trivial hopen

end Schedule
end CargoReport
