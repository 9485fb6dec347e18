import CargoReport.Proofs.Cargo.Printed

namespace CargoReport

/-- What cargo wrote to its error output, of a fault that tells of a cargo that ran. -/
def Fault.stderr? : Fault → Option Text
  | .cargoFailed _ _ stderr | .badMetadata _ stderr | .changeFailed _ stderr => some stderr
  | _ => none

namespace Cargo

/-- The binary that is run: the one that was named, else the one of the environment unless it is
empty, else the one on the search path. -/
inductive Resolves (c : Cargo) (binary : Text) : Prop
  | named (h : c.binary? = some binary)
  | environment (unnamed : c.binary? = none) (h : c.host.variable? "CARGO" = some binary)
      (nonempty : binary ≠ [])
  | path (unnamed : c.binary? = none)
      (unset : ∀ value, c.host.variable? "CARGO" = some value → value = [])
      (h : c.host.cargo? = some binary)

theorem find_of_resolves {c : Cargo} {binary : Text} (h : c.Resolves binary) :
    c.find = .ok binary := by
  rw [find]
  cases h with
  | named h => rw [h]
  | environment unnamed h nonempty =>
    obtain ⟨first, rest, rfl⟩ := List.exists_cons_of_ne_nil nonempty
    rw [unnamed, h]
  | path unnamed unset h =>
    rw [unnamed, h]
    rcases hvalue : c.host.variable? "CARGO" with _ | value
    · rfl
    · rw [unset value hvalue]

theorem find_of_not_resolves {c : Cargo} (h : ∀ binary, ¬c.Resolves binary) :
    c.find = .error (.cargoMissing Fault.installAdvice) := by
  have hnamed : c.binary? = none :=
    Option.eq_none_iff_forall_ne_some.mpr fun binary hb => h binary (.named hb)
  have hunset : ∀ value, c.host.variable? "CARGO" = some value → value = [] := by
    intro value hvalue
    by_contra hne
    exact h value (.environment hnamed hvalue hne)
  have hpath : c.host.cargo? = none :=
    Option.eq_none_iff_forall_ne_some.mpr fun binary hb => h binary (.path hnamed hunset hb)
  rw [find, hnamed, hpath]
  rcases hvalue : c.host.variable? "CARGO" with _ | value
  · rfl
  · rw [hunset value hvalue]

theorem run_metadata_of_ok {c : Cargo} {earlier : List Call} {finished : Finished}
    (h : c.launched metadataWords earlier = .ok finished) :
    let stderr := Capture.text finished.stderr
    c.metadata.run earlier () =
      ⟨if finished.exitCode ≠ 0 then .error (.cargoFailed "metadata" finished.exitCode stderr)
        else match Metadata.ofText c.host.limits (Capture.text finished.stdout) with
          | .valid m => .ok m
          | .invalid issues => .error (.badMetadata issues stderr),
        (), [], c.processes metadataWords⟩ := by
  rw [metadata, run_start_bind_of_ok h]
  by_cases hzero : finished.exitCode = 0
  · cases hm : Metadata.ofText c.host.limits (Capture.text finished.stdout) <;>
      simp [Captured.ofFinished, hzero, hm]
  · simp [Captured.ofFinished, hzero, Action.run_bind_of_error]

/-- What cargo is run for. -/
inductive Task where
  | metadata
  | check (args : Option (List Text))
  | build (args : Option (List Text))
  | add (name : Text)
  | remove (name : Text)

inductive Answer where
  | metadata (m : Metadata)
  | records (rs : List Record)
  | nothing

namespace Task

def run : Task → Cargo → Action Unit Answer
  | metadata, c => .metadata <$> c.metadata
  | check args, c => .records <$> c.check args
  | build args, c => .records <$> c.build args
  | add name, c => (fun _ => .nothing) <$> c.add name
  | remove name, c => (fun _ => .nothing) <$> c.remove name

def words : Task → List Text
  | metadata => metadataWords
  | check args => Reporting.check.words args
  | build args => Reporting.build.words args
  | add name => ["add", "--", name]
  | remove name => ["rm", "--", name]

def Changes : Task → Prop
  | add _ | remove _ => True
  | metadata | check _ | build _ => False

/-- A cargo that ended so has failed. What checks or builds has failed only if it printed nothing:
otherwise its errors are in what it printed. Metadata are read within the limits of the checker. -/
def Fails (limits : Json.Limits) : Task → Finished → Prop
  | metadata, f =>
    f.exitCode ≠ 0 ∨ ∀ m, Metadata.ofText limits (Capture.text f.stdout) ≠ .valid m
  | check _, f | build _, f => f.exitCode ≠ 0 ∧ Capture.text f.stdout = []
  | add _, f | remove _, f => f.exitCode ≠ 0

/-- What comes of a cargo that has not failed: what it printed is read, whatever its exit code. -/
def Gives (limits : Json.Limits) : Task → Finished → Except Fault Answer → Prop
  | metadata, f, r =>
    ∃ m, Metadata.ofText limits (Capture.text f.stdout) = .valid m ∧ r = .ok (.metadata m)
  | check _, f, r | build _, f, r => r = (Report.captured f.stdout).toExcept.map .records
  | add _, _, r | remove _, _, r => r = .ok .nothing

/-- The notices of a run that tell of errors, as they are shown. -/
def errors (notices : List Notice) : List Text :=
  (notices.filter fun notice => notice.level = .error).map Notice.text

theorem errors_skipped (why : List Skip) : errors (why.map .skipped) = [] := by
  simp [errors, Notice.level]

theorem stderr?_of_gives {limits : Json.Limits} {k : Task} {f : Finished}
    {r : Except Fault Answer} (h : k.Gives limits f r) {fault : Fault} (hr : r = .error fault) :
    fault.stderr? = none := by
  have hreport : ∀ report : Report, r = report.toExcept.map .records → fault.stderr? = none := by
    intro report h
    rw [Report.toExcept, hr] at h
    cases hstop : report.stop with
    | none =>
      rw [hstop] at h
      cases h
    | some overlong =>
      rw [hstop] at h
      cases h
      rfl
  cases k with
  | metadata =>
    obtain ⟨m, -, rfl⟩ := h
    cases hr
  | check args => exact hreport _ h
  | build args => exact hreport _ h
  | add name => cases h.symm.trans hr
  | remove name => cases h.symm.trans hr

/-- What a task comes to once cargo has ended. -/
structure Settles (limits : Json.Limits) (k : Task) (f : Finished)
    (done : Outcome Unit Answer) : Prop where
  failed : k.Fails limits f → ∃ fault, done.result = .error fault ∧
    fault.stderr? = some (Capture.text f.stderr)
  answered : ¬k.Fails limits f → k.Gives limits f done.result
  told : k.Changes → k.Fails limits f → errors done.notices = [Capture.text f.stderr]
  quiet : ¬(k.Changes ∧ k.Fails limits f) → errors done.notices = []

section Settles

variable {limits : Json.Limits} {k : Task} {c : Cargo} {earlier : List Call} {f : Finished}

theorem settles_of_answer {done : Outcome Unit Answer} (hk : ¬k.Fails limits f)
    (hanswer : k.Gives limits f done.result) (hnone : errors done.notices = []) :
    k.Settles limits f done where
  failed := fun h => absurd h hk
  answered := fun _ => hanswer
  told := fun _ h => absurd h hk
  quiet := fun _ => hnone

theorem settles_of_failure {done : Outcome Unit Answer} {fault : Fault} (hk : k.Fails limits f)
    (hresult : done.result = .error fault) (hfault : fault.stderr? = some (Capture.text f.stderr))
    (htold : k.Changes → errors done.notices = [Capture.text f.stderr])
    (hquiet : ¬k.Changes → errors done.notices = []) : k.Settles limits f done where
  failed := fun _ => ⟨fault, hresult, hfault⟩
  answered := fun h => absurd hk h
  told := fun h _ => htold h
  quiet := fun h => hquiet fun hchanges => h ⟨hchanges, hk⟩

theorem Settles.of_stderr? {done : Outcome Unit Answer} (h : k.Settles limits f done)
    {fault : Fault} {text : Text} (hresult : done.result = .error fault)
    (htext : fault.stderr? = some text) : k.Fails limits f ∧ text = Capture.text f.stderr := by
  have hfails : k.Fails limits f := by
    by_contra hfails
    have hnone := stderr?_of_gives (h.answered hfails) hresult
    rw [htext] at hnone
    cases hnone
  obtain ⟨fault', hresult', hfault'⟩ := h.failed hfails
  obtain rfl : fault' = fault := by simpa using hresult'.symm.trans hresult
  exact ⟨hfails, by simpa using htext.symm.trans hfault'⟩

theorem settles_metadata (h : c.launched metadataWords earlier = .ok f) :
    metadata.Settles c.host.limits f ((metadata.run c).run earlier ()) := by
  rw [run, Action.run_map, run_metadata_of_ok h]
  by_cases hzero : f.exitCode = 0
  · cases hm : Metadata.ofText c.host.limits (Capture.text f.stdout) with
    | valid m =>
      have hok : ¬metadata.Fails c.host.limits f := by simp [Fails, hzero, hm]
      simp only [hzero, ne_eq, not_true_eq_false, if_false]
      exact settles_of_answer hok ⟨m, hm, rfl⟩ rfl
    | invalid issues =>
      have hfails : metadata.Fails c.host.limits f := .inr (by simp [hm])
      simp only [hzero, ne_eq, not_true_eq_false, if_false]
      exact settles_of_failure hfails rfl rfl nofun fun _ => rfl
  · simp only [hzero, ne_eq, not_false_eq_true, if_true]
    exact settles_of_failure (.inl hzero) rfl rfl nofun fun _ => rfl

/-- A task that reads a report. -/
theorem settles_report {name : Text} {args : List Text}
    (hrun : k.run c = .records <$> c.report name args)
    (hfails : k.Fails limits f ↔ f.exitCode ≠ 0 ∧ Capture.text f.stdout = [])
    (hgives : k.Gives limits f ((Report.captured f.stdout).toExcept.map .records))
    (hchanges : ¬k.Changes)
    (h : c.launched (name :: "--message-format=json" :: args) earlier = .ok f) :
    k.Settles limits f ((k.run c).run earlier ()) := by
  rw [hrun, Action.run_map, run_report_of_ok h]
  by_cases hnone : f.exitCode ≠ 0 ∧ Capture.text f.stdout = []
  · rw [if_pos hnone]
    exact settles_of_failure (hfails.mpr hnone) rfl rfl (fun hc => absurd hc hchanges) fun _ => rfl
  · rw [if_neg hnone]
    exact settles_of_answer (fun hk => hnone (hfails.mp hk)) hgives (errors_skipped _)

/-- A task that changes a dependency. -/
theorem settles_change {command name : Text}
    (hrun : k.run c = (fun _ => .nothing) <$> c.change command name)
    (hfails : k.Fails limits f ↔ f.exitCode ≠ 0) (hgives : k.Gives limits f (.ok .nothing))
    (hchanges : k.Changes) (h : c.launched [command, "--", name] earlier = .ok f) :
    k.Settles limits f ((k.run c).run earlier ()) := by
  rw [hrun, Action.run_map, run_change_of_ok h]
  by_cases hzero : f.exitCode = 0
  · rw [if_pos hzero]
    exact settles_of_answer (fun hk => hfails.mp hk hzero) hgives rfl
  · rw [if_neg hzero]
    exact settles_of_failure (hfails.mpr hzero) rfl rfl (fun _ => rfl) fun hc => absurd hchanges hc

theorem settles (k : Task) (h : c.launched k.words earlier = .ok f) :
    k.Settles c.host.limits f ((k.run c).run earlier ()) := by
  cases k with
  | metadata => exact settles_metadata h
  | check args => exact settles_report rfl Iff.rfl rfl id h
  | build args => exact settles_report rfl Iff.rfl rfl id h
  | add name => exact settles_change rfl Iff.rfl rfl trivial h
  | remove name => exact settles_change rfl Iff.rfl rfl trivial h

/-- Where cargo is not started, nothing else is done. -/
theorem run_of_error (k : Task) {fault : Fault} (h : c.launched k.words earlier = .error fault) :
    (k.run c).run earlier () = ⟨.error fault, (), [], c.processes k.words⟩ := by
  cases k with
  | metadata => exact Action.run_map_of_error _ (run_start_bind_of_error h _)
  | check args => exact Action.run_map_of_error _ (run_start_bind_of_error h _)
  | build args => exact Action.run_map_of_error _ (run_start_bind_of_error h _)
  | add name => exact Action.run_map_of_error _ (run_start_bind_of_error h _)
  | remove name => exact Action.run_map_of_error _ (run_start_bind_of_error h _)

theorem calls_run (k : Task) (c : Cargo) (earlier : List Call) :
    ((k.run c).run earlier ()).calls = c.processes k.words := by
  cases k with
  | metadata => rw [run, Action.run_map]; exact calls_metadata c earlier
  | check args => rw [run, Action.run_map]; exact calls_report c _ _ earlier
  | build args => rw [run, Action.run_map]; exact calls_report c _ _ earlier
  | add name => rw [run, Action.run_map]; exact calls_change c _ _ earlier
  | remove name => rw [run, Action.run_map]; exact calls_change c _ _ earlier

/-- Without a binary nothing is started. A binary that the system cannot start is told of as a
missing cargo is, and any other failure to start it is passed on. Otherwise just one process has
run, and the task fails, with all that cargo wrote to its error output, exactly where that kind of
task counts the process as failed; what was printed is read otherwise. Only a change of the
dependencies that failed is told of as an error. -/
theorem run_fails_iff (k : Task) (c : Cargo) (earlier : List Call) :
    let done := (k.run c).run earlier ()
    ((∀ binary, ¬c.Resolves binary) →
      done.result = .error (.cargoMissing Fault.installAdvice) ∧ done.calls = [] ∧
        errors done.notices = []) ∧
    ∀ binary, c.Resolves binary →
      let command : Command := ⟨binary :: k.words, c.directory⟩
      done.calls = [.command command] ∧
      (∀ cause, c.host.launch earlier command = .error cause →
        done.result = .error (if cause.isSystem then .cargoNotStarted cause else .raised cause) ∧
          errors done.notices = []) ∧
      ∀ finished, c.host.launch earlier command = .ok finished →
        let stderr := Capture.text finished.stderr
        ((∃ fault text, done.result = .error fault ∧ fault.stderr? = some text) ↔
          k.Fails c.host.limits finished) ∧
        (∀ fault text, done.result = .error fault → fault.stderr? = some text → text = stderr) ∧
        (¬k.Fails c.host.limits finished → k.Gives c.host.limits finished done.result) ∧
        (k.Changes → k.Fails c.host.limits finished → errors done.notices = [stderr]) ∧
        (¬(k.Changes ∧ k.Fails c.host.limits finished) → errors done.notices = []) := by
  intro done
  refine ⟨?_, ?_⟩
  · intro hnone
    have hfind := find_of_not_resolves hnone
    have hlaunched : c.launched k.words earlier = .error (.cargoMissing Fault.installAdvice) := by
      rw [launched, hfind]
      rfl
    have hdone : done = _ := k.run_of_error hlaunched
    rw [hdone, processes, hfind]
    exact ⟨rfl, rfl, rfl⟩
  · intro binary hbinary command
    have hfind := find_of_resolves hbinary
    refine ⟨?_, ?_, ?_⟩
    · exact (k.calls_run c earlier).trans (processes_of_found hfind)
    · intro cause hcause
      have hdone : done = _ := k.run_of_error (launched_of_error hfind hcause)
      rw [hdone]
      exact ⟨rfl, rfl⟩
    · intro finished hfinished stderr
      have hsettles : k.Settles c.host.limits finished done :=
        k.settles (launched_of_ok hfind hfinished)
      refine ⟨⟨?_, ?_⟩, ?_, hsettles.answered, hsettles.told, hsettles.quiet⟩
      · rintro ⟨fault, text, hresult, htext⟩
        exact (hsettles.of_stderr? hresult htext).1
      · intro hfails
        obtain ⟨fault, hresult, hfault⟩ := hsettles.failed hfails
        exact ⟨fault, stderr, hresult, hfault⟩
      · intro fault text hresult htext
        exact (hsettles.of_stderr? hresult htext).2

end Settles
end Task
end Cargo
end CargoReport
