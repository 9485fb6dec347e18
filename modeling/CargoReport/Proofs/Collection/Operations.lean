import CargoReport.Proofs.Collection.History

namespace CargoReport.Collection

/-- What is asked of a collection. -/
inductive Operation where
  | set (path : Path) (diagnostics : List Diagnostic)
  | delete (path : Path)
  | clear
  | dispose
  | publish (files : Files)
  | get (path : Path)
  | contains (path : Path)
  | list
  | size

inductive Answer where
  | nothing
  | diagnostics (ds : List Diagnostic)
  | flag (b : Bool)
  | files (entries : List (Path × List Diagnostic))
  | number (n : Nat)

namespace Operation

def perform : Operation → Action Collection Answer
  | set path ds => do
    Collection.set path ds
    return .nothing
  | delete path => do
    Collection.delete path
    return .nothing
  | clear => do
    Collection.clear
    return .nothing
  | dispose => do
    Collection.dispose
    return .nothing
  | publish files => do
    Collection.publish files
    return .nothing
  | get path => do return .diagnostics ((← Action.state).get path)
  | contains path => do return .flag ((← Action.state).contains path)
  | list => do return .files (← Action.state).files.entries
  | size => do return .number (← Action.state).size

/-- The changes that an operation asks for. -/
def writes : Operation → List Write
  | set path ds => [.set path ds]
  | delete path => [.delete path]
  | clear => [.clear]
  | dispose => [.dispose]
  | publish files => files.entries.map fun entry => .set entry.1 entry.2
  | get _ | contains _ | list | size => []

/-- Whether an operation writes to an open collection only: all do that write, a disposal apart. -/
def needsOpen (op : Operation) : Bool := op.writes.any (· ≠ .dispose)

/-- What an operation answers where the files are these. -/
def answer (entries : List (Path × List Diagnostic)) : Operation → Answer
  | get path => .diagnostics ((entries.lookup path).getD [])
  | contains path => .flag ((entries.map Prod.fst).contains path)
  | list => .files entries
  | size => .number entries.length
  | set _ _ | delete _ | clear | dispose | publish _ => .nothing

end Operation

/-- Operations in a row, each of them whatever the one before came to. -/
def performAll (ops : List Operation) : Action Collection Unit :=
  forM ops fun op => do
    let _ ← Action.attempt op.perform

theorem foldl_set_of_open {c : Collection} (h : c.disposed = false)
    (entries : List (Path × List Diagnostic)) :
    (entries.map fun entry => Write.set entry.1 entry.2).foldl Write.after c =
      c.withFiles (c.files.override entries) := by
  induction entries generalizing c with
  | nil => rfl
  | cons entry entries ih =>
    have hstep : Write.after c (.set entry.1 entry.2) =
        c.withFiles (c.files.insert entry.1 entry.2) := if_neg (by simp [h])
    have hrest := ih (c := c.withFiles (c.files.insert entry.1 entry.2)) h
    rw [List.map_cons, List.foldl_cons, hstep, hrest]
    rfl

theorem foldl_set_of_disposed {c : Collection} (h : c.disposed = true)
    (entries : List (Path × List Diagnostic)) :
    (entries.map fun entry => Write.set entry.1 entry.2).foldl Write.after c = c := by
  induction entries with
  | nil => rfl
  | cons entry entries ih =>
    have hstep : Write.after c (.set entry.1 entry.2) = c := if_pos h
    rw [List.map_cons, List.foldl_cons, hstep, ih]

theorem run_nothing_of_ok {x : Action Collection Unit} {earlier : List Call} {c c' : Collection}
    {notices : List Notice} (h : x.run earlier c = ⟨.ok (), c', notices, []⟩) :
    let done := (do x; return Answer.nothing : Action Collection Answer).run earlier c
    done.result = .ok .nothing ∧ done.state = c' := by
  have hbind := Action.bind_of_ok (f := fun _ => (pure Answer.nothing : Action Collection Answer))
    (congrArg Outcome.result h) (congrArg Outcome.state h) rfl
  exact ⟨hbind.1, hbind.2.1⟩

theorem run_nothing_of_error {x : Action Collection Unit} {earlier : List Call}
    {c c' : Collection} {fault : Fault} {notices : List Notice}
    (h : x.run earlier c = ⟨.error fault, c', notices, []⟩) :
    let done := (do x; return Answer.nothing : Action Collection Answer).run earlier c
    done.result = .error fault ∧ done.state = c' := by
  have hbind := Action.bind_of_error
    (f := fun _ => (pure Answer.nothing : Action Collection Answer))
    (congrArg Outcome.result h) (congrArg Outcome.state h) rfl
  exact ⟨hbind.1, hbind.2.1⟩

theorem perform_of_open (op : Operation) {c : Collection} (h : c.disposed = false)
    (earlier : List Call) :
    let done := op.perform.run earlier c
    done.result = .ok (op.answer c.files.entries) ∧ done.state = op.writes.foldl Write.after c := by
  have hneg : ¬c.disposed = true := by simp [h]
  cases op with
  | set path ds =>
    rw [Operation.writes, List.foldl_cons, List.foldl_nil, Write.after, if_neg hneg]
    exact run_nothing_of_ok (run_set_of_open h earlier path ds)
  | delete path =>
    rw [Operation.writes, List.foldl_cons, List.foldl_nil, Write.after, if_neg hneg]
    exact run_nothing_of_ok (run_delete_of_open h earlier path)
  | clear =>
    rw [Operation.writes, List.foldl_cons, List.foldl_nil, Write.after, if_neg hneg]
    exact run_nothing_of_ok (run_clear_of_open h earlier)
  | dispose => exact ⟨rfl, rfl⟩
  | publish files =>
    rw [Operation.writes, foldl_set_of_open h]
    exact run_nothing_of_ok (run_publish_of_open h earlier files)
  | get path => exact ⟨rfl, rfl⟩
  | contains path => exact ⟨rfl, rfl⟩
  | list => exact ⟨rfl, rfl⟩
  | size => exact ⟨rfl, rfl⟩

/-- Once a collection was disposed of, no operation but a disposal changes it. -/
theorem perform_of_disposed (op : Operation) {c : Collection} (h : c.disposed = true)
    (earlier : List Call) :
    let done := op.perform.run earlier c
    done.result = (if op.needsOpen then .error (.disposed c.name)
      else .ok (op.answer c.files.entries)) ∧
    done.state = op.writes.foldl Write.after c := by
  cases op with
  | set path ds =>
    rw [Operation.writes, List.foldl_cons, List.foldl_nil, Write.after, if_pos h]
    exact run_nothing_of_error (run_set_of_disposed h earlier path ds)
  | delete path =>
    rw [Operation.writes, List.foldl_cons, List.foldl_nil, Write.after, if_pos h]
    exact run_nothing_of_error (run_delete_of_disposed h earlier path)
  | clear =>
    rw [Operation.writes, List.foldl_cons, List.foldl_nil, Write.after, if_pos h]
    exact run_nothing_of_error (run_clear_of_disposed h earlier)
  | dispose => exact ⟨rfl, rfl⟩
  | publish files =>
    have hrun := run_publish_of_disposed h earlier files
    rw [Operation.needsOpen, Operation.writes, foldl_set_of_disposed h]
    rcases hfiles : files.entries with _ | ⟨entry, rest⟩
    · rw [if_pos hfiles] at hrun
      exact run_nothing_of_ok hrun
    · rw [if_neg (by simp [hfiles])] at hrun
      exact run_nothing_of_error hrun
  | get path => exact ⟨rfl, rfl⟩
  | contains path => exact ⟨rfl, rfl⟩
  | list => exact ⟨rfl, rfl⟩
  | size => exact ⟨rfl, rfl⟩

theorem foldl_after_of_disposed {c : Collection} (h : c.disposed = true) (he : c.files = .empty)
    (ws : List Write) : ws.foldl Write.after c = c := by
  induction ws with
  | nil => rfl
  | cons w ws ih =>
    have hstep : w.after c = c := by
      obtain ⟨name, files, disposed⟩ := c
      cases h
      cases he
      cases w <;> rfl
    rw [List.foldl_cons, hstep, ih]

theorem name_after (c : Collection) (w : Write) : (w.after c).name = c.name := by
  cases w with
  | dispose => rfl
  | _ =>
    rw [Write.after]
    split <;> rfl

theorem name_foldl_after (c : Collection) (ws : List Write) :
    (ws.foldl Write.after c).name = c.name := by
  induction ws generalizing c with
  | nil => rfl
  | cons w ws ih => rw [List.foldl_cons, ih, name_after]

theorem state_perform (op : Operation) (c : Collection) (earlier : List Call) :
    (op.perform.run earlier c).state = op.writes.foldl Write.after c := by
  cases h : c.disposed with
  | true => exact (perform_of_disposed op h earlier).2
  | false => exact (perform_of_open op h earlier).2

theorem performAll_cons (op : Operation) (ops : List Operation) :
    performAll (op :: ops) = (Action.attempt op.perform >>= fun _ => performAll ops) := by
  simp [performAll]

theorem run_performAll (ops : List Operation) (c : Collection) (earlier : List Call) :
    let done := (performAll ops).run earlier c
    done.result = .ok () ∧ done.state = (ops.flatMap Operation.writes).foldl Write.after c := by
  induction ops generalizing c earlier with
  | nil => exact ⟨rfl, rfl⟩
  | cons op ops ih =>
    have htried : ((Action.attempt op.perform).run earlier c).result =
        .ok (op.perform.run earlier c).result := rfl
    have hstep := Action.bind_of_ok (f := fun _ => performAll ops) htried
      (state_perform op c earlier) rfl
    rw [performAll_cons, List.flatMap_cons, List.foldl_append]
    exact ⟨hstep.1.trans (ih _ _).1, hstep.2.1.trans (ih _ _).2⟩

theorem dispose_mem_writes_iff (ops : List Operation) :
    .dispose ∈ ops.flatMap Operation.writes ↔ .dispose ∈ ops := by
  rw [List.mem_flatMap]
  constructor
  · rintro ⟨op, hop, hw⟩
    cases op with
    | dispose => exact hop
    | _ => simp [Operation.writes] at hw
  · intro h
    exact ⟨.dispose, h, by simp [Operation.writes]⟩

/-- A new collection after any operations: its files are those that the history of writes leaves,
as long as nothing disposed of it. A file is there if it was set and not removed since, and it has
the list that was set last. Every further operation answers for these files. From the first
disposal on there are no files, what would write is refused, and no operation changes anything; one
that only reads never does. -/
theorem performAll_leaves_lastWrites (name : Text) (ops : List Operation) (earlier : List Call) :
    let log := ops.flatMap Operation.writes
    let done := (performAll ops).run earlier (.new name)
    let c := done.state
    done.result = .ok () ∧ c.name = name ∧ (c.disposed = true ↔ .dispose ∈ ops) ∧
    c.files.entries = lastWrites log ∧
    (∀ path, c.contains path = true ↔ .dispose ∉ ops ∧
      ∃ before ds after, log = before ++ .set path ds :: after ∧
        ∀ w ∈ after, w.removes path = false) ∧
    (∀ path ds, c.files.get? path = some ds ↔ .dispose ∉ ops ∧
      ∃ before after, log = before ++ .set path ds :: after ∧
        ∀ w ∈ after, w.concerns path = false) ∧
    ∀ (op : Operation) (earlier : List Call),
      let next := op.perform.run earlier c
      (.dispose ∉ ops → next.result = .ok (op.answer (lastWrites log))) ∧
      (.dispose ∈ ops → c.files = .empty ∧ next.state = c ∧ next.result =
        if op.needsOpen then .error (.disposed name) else .ok (op.answer [])) ∧
      (op.writes = [] → next.state = c) := by
  intro log done c
  obtain ⟨hresult, hstate⟩ := run_performAll ops (.new name) earlier
  have hreflects : c.Reflects log := by
    have h := (reflects_new name).foldl_after log
    rwa [← hstate, List.nil_append] at h
  have hname : c.name = name := by
    rw [show c = _ from hstate, name_foldl_after]
    rfl
  have hdispose : .dispose ∈ log ↔ .dispose ∈ ops := dispose_mem_writes_iff ops
  refine ⟨hresult, hname, hreflects.disposed.trans hdispose, hreflects.entries, ?_, ?_, ?_⟩
  · intro path
    rw [← hdispose, ← mem_lastWrites_iff, ← hreflects.entries]
    simp [contains, Table.contains, Table.keys]
  · intro path ds
    rw [← hdispose, ← lookup_lastWrites_iff, ← hreflects.entries]
    rfl
  · intro op earlier next
    have hnext : next.state = op.writes.foldl Write.after c := state_perform op c earlier
    refine ⟨?_, ?_, ?_⟩
    · intro hops
      have hopen : c.disposed = false := by
        rw [Bool.eq_false_iff]
        exact fun hd => hops (hdispose.mp (hreflects.disposed.mp hd))
      rw [← hreflects.entries]
      exact (perform_of_open op hopen earlier).1
    · intro hops
      have hdisposed : c.disposed = true := hreflects.disposed.mpr (hdispose.mpr hops)
      have hnone : c.files.entries = [] := by
        rw [hreflects.entries, lastWrites_of_mem (hdispose.mpr hops)]
      have hempty : c.files = .empty := Table.ext_entries hnone
      have hperform := (perform_of_disposed op hdisposed earlier).1
      rw [hname, hnone] at hperform
      exact ⟨hempty, hnext.trans (foldl_after_of_disposed hdisposed hempty _), hperform⟩
    · intro hwrites
      rw [hnext, hwrites]
      rfl

end CargoReport.Collection
