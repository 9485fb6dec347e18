import CargoReport.Proofs.Action
import CargoReport.Tree
import Mathlib.Data.List.Basic

namespace CargoReport

def Listener.call (l : Listener) : Call := .listener l.name

namespace Tree

/-- Listeners none of whom fails when they are told one after the other. -/
def Content (earlier : List Call) (ls : List Listener) : Prop :=
  ∀ before l after, ls = before ++ l :: after →
    l.answer (earlier ++ before.map Listener.call) = none

/-- What telling listeners comes to, and who was called: all of them, or those up to the first that
failed. -/
inductive Told (earlier : List Call) (ls : List Listener) : Except Fault Unit → List Call → Prop
  | all (content : Content earlier ls) : Told earlier ls (.ok ()) (ls.map Listener.call)
  | upTo (front : List Listener) (l : Listener) (rest : List Listener) (cause : Raised)
      (split : ls = front ++ l :: rest) (content : Content earlier front)
      (fails : l.answer (earlier ++ front.map Listener.call) = some cause) :
      Told earlier ls (.error (.raised cause)) ((front ++ [l]).map Listener.call)

theorem content_nil (earlier : List Call) : Content earlier [] := by
  intro before l after h
  simp at h

theorem Content.cons {earlier : List Call} {l : Listener} {ls : List Listener}
    (hl : l.answer earlier = none) (h : Content (earlier ++ [l.call]) ls) :
    Content earlier (l :: ls) := by
  intro before l' after hsplit
  cases before with
  | nil =>
    obtain ⟨rfl, rfl⟩ := List.cons.inj hsplit
    simpa using hl
  | cons first before =>
    obtain ⟨rfl, hrest⟩ := List.cons.inj hsplit
    simpa using h before l' after hrest

theorem Told.cons {earlier : List Call} {l : Listener} {ls : List Listener}
    {result : Except Fault Unit} {calls : List Call} (hl : l.answer earlier = none)
    (h : Told (earlier ++ [l.call]) ls result calls) :
    Told earlier (l :: ls) result (l.call :: calls) := by
  cases h with
  | all content => exact .all (content.cons hl)
  | upTo front failed rest cause split content fails =>
    have hsplit : l :: ls = (l :: front) ++ failed :: rest := by rw [split, List.cons_append]
    exact .upTo (l :: front) failed rest cause hsplit (content.cons hl) (by simpa using fails)

theorem run_tell_of_none {l : Listener} {earlier : List Call} (hl : l.answer earlier = none)
    (t : Tree) : (tell l).run earlier t = ⟨.ok (), t, [], [l.call]⟩ := by
  simp only [tell, Action.run, Action.call, bind, hl]
  rfl

theorem run_tell_of_some {l : Listener} {earlier : List Call} {cause : Raised}
    (hl : l.answer earlier = some cause) (t : Tree) :
    (tell l).run earlier t = ⟨.error (.raised cause), t, [], [l.call]⟩ := by
  simp only [tell, Action.run, Action.call, bind, hl]
  rfl

theorem run_forM_tell (ls : List Listener) (earlier : List Call) (t : Tree) :
    ∃ result calls, (forM ls tell : Action Tree Unit).run earlier t = ⟨result, t, [], calls⟩ ∧
      Told earlier ls result calls := by
  induction ls generalizing earlier with
  | nil => exact ⟨_, _, rfl, .all (content_nil earlier)⟩
  | cons l ls ih =>
    rw [List.forM_cons]
    cases hl : l.answer earlier with
    | some cause =>
      have hfirst := run_tell_of_some hl t
      refine ⟨_, _, ?_, .upTo [] l ls cause rfl (content_nil earlier) (by simpa using hl)⟩
      rw [Action.run_bind_of_error (by rw [hfirst]), hfirst]
      rfl
    | none =>
      have hfirst := run_tell_of_none hl t
      obtain ⟨result, calls, hrest, htold⟩ := ih (earlier ++ [l.call])
      refine ⟨result, l.call :: calls, ?_, htold.cons hl⟩
      rw [Action.run_bind_of_ok (by rw [hfirst]), hfirst]
      simp only [hrest]
      rfl

/-- What is asked of a tree. -/
inductive Operation where
  | onChange (l : Listener)
  | load (m : Metadata)
  | refresh (given : Option Metadata)
  | children (item : Option TreeItem)

namespace Operation

def perform : Operation → Action Tree Unit
  | onChange l => Tree.onChange l
  | load m => Tree.load m
  | refresh given => Tree.refresh given
  | children item => do
    let _ ← Tree.children item

/-- The metadata that an operation brings. -/
def metadata? : Operation → Option Metadata
  | load m => some m
  | refresh given => given
  | onChange _ | children _ => none

/-- The listener that an operation registers. -/
def listener? : Operation → Option Listener
  | onChange l => some l
  | load _ | refresh _ | children _ => none

end Operation

/-- Operations in a row, each of them whatever the one before came to. -/
def performAll (ops : List Operation) : Action Tree Unit :=
  forM ops fun op => do
    let _ ← Action.attempt op.perform

/-- The metadata that came last. -/
def current (m : Metadata) (ops : List Operation) : Metadata :=
  (ops.filterMap Operation.metadata?).getLastD m

/-- The listeners in the order in which they were registered. -/
def registered (ops : List Operation) : List Listener := ops.filterMap Operation.listener?

/-- The tree of a workspace with some listeners, the packages in step with the metadata. -/
def of (m : Metadata) (ls : List Listener) : Tree := ⟨m, index m.packages, ls⟩

/-- The items below an item, or at the top. -/
def shown (t : Tree) : Option TreeItem → List TreeItem
  | none => t.metadata.workspaceMembers.filterMap fun id => (t.packages.get? id).map .package
  | some (.package p) => ((t.packages.get? p.id).getD p).dependencies.map .dependency
  | some (.dependency _) => []

/-- The members of the workspace that are missed at the top. -/
def missed (t : Tree) : Option TreeItem → List Text
  | none => t.metadata.workspaceMembers.filter fun id => t.packages.get? id = none
  | some _ => []

theorem run_roots (members : List Text) (packages : Table Text Package) (earlier : List Call)
    (t : Tree) :
    (roots members packages).run earlier t =
      ⟨.ok (members.filterMap fun id => (packages.get? id).map .package), t,
        (members.filter fun id => packages.get? id = none).map .memberMissing, []⟩ := by
  induction members with
  | nil => rfl
  | cons id rest ih =>
    cases hp : packages.get? id with
    | some p =>
      simp only [roots, hp]
      rw [Action.run_bind_of_no_calls ih rfl]
      simp [hp]
    | none =>
      simp only [roots, hp]
      rw [Action.run_bind_of_no_calls (Action.run_note _ _ _) ih]
      simp [hp]

theorem run_children (item : Option TreeItem) (earlier : List Call) (t : Tree) :
    (children item).run earlier t =
      ⟨.ok (t.shown item), t, (t.missed item).map .memberMissing, []⟩ := by
  cases item with
  | none =>
    have hroots := run_roots t.metadata.workspaceMembers t.packages earlier t
    rw [children, Action.run_bind_of_no_calls (a := t) rfl hroots]
    rfl
  | some item =>
    cases item with
    | package p => rfl
    | dependency d => rfl

/-- The metadata are there before the first listener is told. -/
theorem run_refresh (given : Option Metadata) (earlier : List Call) (m : Metadata)
    (ls : List Listener) :
    (refresh given).run earlier (of m ls) =
      (forM ls tell : Action Tree Unit).run earlier (of (given.getD m) ls) := by
  have hload : (do load (given.getD (← Action.state).metadata) : Action Tree Unit).run earlier
      (of m ls) = ⟨.ok (), of (given.getD m) ls, [], []⟩ := rfl
  have htell : (do forM (← Action.state).listeners tell : Action Tree Unit).run earlier
      (of (given.getD m) ls) =
        (forM ls tell : Action Tree Unit).run earlier (of (given.getD m) ls) := by
    rw [Action.run_bind_of_no_calls (a := of (given.getD m) ls) rfl rfl]
    rfl
  rw [refresh, ← bind_assoc, Action.run_bind_of_no_calls hload htell]
  rfl

/-- An operation leaves the packages in step with the metadata. -/
theorem state_perform (op : Operation) (earlier : List Call) (m : Metadata) (ls : List Listener) :
    (op.perform.run earlier (of m ls)).state =
      of (op.metadata?.getD m) (ls ++ op.listener?.toList) := by
  cases op with
  | onChange l => rfl
  | load m' =>
    rw [Operation.listener?, Option.toList_none, List.append_nil]
    rfl
  | refresh given =>
    obtain ⟨result, calls, htell, -⟩ := run_forM_tell ls earlier (of (given.getD m) ls)
    rw [Operation.perform, run_refresh, htell, Operation.listener?, Option.toList_none,
      List.append_nil]
    rfl
  | children item =>
    have hlook := Action.run_bind_of_no_calls (f := fun _ => pure ())
      (run_children item earlier (of m ls)) rfl
    rw [Operation.perform, hlook, Operation.listener?, Option.toList_none, List.append_nil]
    rfl

theorem run_performAll_cons (op : Operation) (ops : List Operation) (earlier : List Call)
    (t : Tree) :
    (performAll (op :: ops)).run earlier t =
      let done := op.perform.run earlier t
      let rest := (performAll ops).run (earlier ++ done.calls) done.state
      ⟨rest.result, rest.state, done.notices ++ rest.notices, done.calls ++ rest.calls⟩ := by
  have htried : ((Action.attempt op.perform).run earlier t).result =
      .ok (op.perform.run earlier t).result := rfl
  have hcons : performAll (op :: ops) =
      (Action.attempt op.perform >>= fun _ => performAll ops) := by
    simp [performAll]
  rw [hcons, Action.run_bind_of_ok htried]
  rfl

theorem current_cons (m : Metadata) (op : Operation) (ops : List Operation) :
    current m (op :: ops) = current (op.metadata?.getD m) ops := by
  rw [current, current, List.filterMap_cons]
  cases op.metadata? with
  | none => rfl
  | some m' => exact List.getLastD_cons

theorem registered_cons (op : Operation) (ops : List Operation) :
    registered (op :: ops) = op.listener?.toList ++ registered ops := by
  rw [registered, registered, List.filterMap_cons]
  cases op.listener? <;> rfl

/-- After any operations the packages are in step with the metadata, whoever failed meanwhile. -/
theorem run_performAll (ops : List Operation) (earlier : List Call) (m : Metadata)
    (ls : List Listener) :
    let done := (performAll ops).run earlier (of m ls)
    done.result = .ok () ∧ done.state = of (current m ops) (ls ++ registered ops) := by
  induction ops generalizing m ls earlier with
  | nil =>
    rw [registered, List.filterMap_nil, List.append_nil]
    exact ⟨rfl, rfl⟩
  | cons op ops ih =>
    have hrest := ih (earlier ++ (op.perform.run earlier (of m ls)).calls) (op.metadata?.getD m)
      (ls ++ op.listener?.toList)
    rw [← state_perform op earlier, ← current_cons, List.append_assoc, ← registered_cons] at hrest
    rw [run_performAll_cons]
    exact hrest

theorem state_performAll_new (ops : List Operation) (earlier : List Call) (m : Metadata) :
    ((performAll ops).run earlier (new m)).state = of (current m ops) (registered ops) :=
  (run_performAll ops earlier m []).2

theorem performAll_append_singleton (ops : List Operation) (op : Operation) (earlier : List Call)
    (t : Tree) :
    let run := (performAll ops).run earlier t
    let done := op.perform.run (earlier ++ run.calls) run.state
    (performAll (ops ++ [op])).run earlier t =
      ⟨.ok (), done.state, run.notices ++ done.notices, run.calls ++ done.calls⟩ := by
  induction ops generalizing t earlier with
  | nil =>
    rw [List.nil_append, run_performAll_cons]
    simp [performAll]
  | cons first ops ih =>
    rw [List.cons_append, run_performAll_cons, run_performAll_cons]
    simp only [ih, List.append_assoc]

theorem calls_perform_of_ne_refresh {op : Operation} (h : ∀ given, op ≠ .refresh given)
    (earlier : List Call) (t : Tree) : (op.perform.run earlier t).calls = [] := by
  cases op with
  | onChange l => rfl
  | load m => rfl
  | refresh given => exact absurd rfl (h given)
  | children item =>
    rw [Operation.perform, Action.run_bind_of_no_calls (run_children item earlier t) rfl]
    rfl

/-- The last of any operations on a tree. A refresh brings its metadata, or those that are there
already, before it calls a listener; then it calls the registered ones in their order, each once, up
to the first that fails. The metadata and the listeners are there afterwards in any case, and a
refresh without metadata changes no answer. No other operation calls a listener. -/
theorem performAll_tells_registered (m : Metadata) (ops : List Operation) (op : Operation)
    (earlier : List Call) :
    let run := (performAll ops).run earlier (new m)
    let now := earlier ++ run.calls
    let done := op.perform.run now run.state
    (performAll (ops ++ [op])).run earlier (new m) =
      ⟨.ok (), done.state, run.notices ++ done.notices, run.calls ++ done.calls⟩ ∧
    run.state = of (current m ops) (registered ops) ∧
    done.state = of (current m (ops ++ [op])) (registered (ops ++ [op])) ∧
    (∀ given, op = .refresh given →
      done.state = of (given.getD (current m ops)) (registered ops) ∧
      done = (forM (registered ops) tell).run now done.state ∧
      Told now (registered ops) done.result done.calls) ∧
    ((∀ given, op ≠ .refresh given) → done.calls = []) ∧
    (op = .refresh none → ∀ (item : Option TreeItem) (later : List Call),
      (children item).run later done.state = (children item).run later run.state) := by
  intro run now done
  have hrun : run.state = of (current m ops) (registered ops) := state_performAll_new ops earlier m
  have hall := performAll_append_singleton ops op earlier (new m)
  have hdone := state_performAll_new (ops ++ [op]) earlier m
  rw [hall] at hdone
  -- Telling begins in the tree that has the metadata already, and leaves it as it is.
  have hrefresh : ∀ given, op = .refresh given →
      done.state = of (given.getD (current m ops)) (registered ops) ∧
      done = (forM (registered ops) tell).run now done.state ∧
      Told now (registered ops) done.result done.calls := by
    rintro given rfl
    obtain ⟨result, calls, htell, htold⟩ :=
      run_forM_tell (registered ops) now (of (given.getD (current m ops)) (registered ops))
    have hsame : done = ⟨result, of (given.getD (current m ops)) (registered ops), [], calls⟩ := by
      rw [← htell, ← run_refresh, ← hrun]
      rfl
    rw [hsame]
    exact ⟨rfl, htell.symm, htold⟩
  refine ⟨hall, hrun, hdone, hrefresh, fun h => calls_perform_of_ne_refresh h now run.state, ?_⟩
  intro hop item later
  rw [(hrefresh none hop).1, hrun]
  rfl

/-- Who fails at the first call keeps the others from being called, and is called again by the next
refresh. -/
example (m : Metadata) (cause : Raised) :
    let shy : Listener := ⟨"shy", fun earlier => if earlier.isEmpty then some cause else none⟩
    let calm : Listener := ⟨"calm", fun _ => none⟩
    let ops : List Operation := [.onChange shy, .onChange calm, .refresh none, .refresh none]
    ((performAll ops).run [] (new m)).calls = [shy.call, shy.call, calm.call] := by
  cbv

end Tree
end CargoReport
