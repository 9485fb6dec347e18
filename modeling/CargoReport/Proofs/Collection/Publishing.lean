import CargoReport.Diagnosis
import CargoReport.Proofs.Action
import CargoReport.Proofs.Table

namespace CargoReport.Collection

/-- The collection with other files. -/
def withFiles (c : Collection) (files : Files) : Collection := { c with files := files }

@[simp] theorem disposed_withFiles (c : Collection) (files : Files) :
    (c.withFiles files).disposed = c.disposed := rfl

@[simp] theorem files_withFiles (c : Collection) (files : Files) :
    (c.withFiles files).files = files := rfl

@[simp] theorem withFiles_withFiles (c : Collection) (files files' : Files) :
    (c.withFiles files).withFiles files' = c.withFiles files' := rfl

section Open

variable {c : Collection} (h : c.disposed = false) (earlier : List Call)
include h

theorem run_clear_of_open : clear.run earlier c = ⟨.ok (), c.withFiles .empty, [], []⟩ := by
  simp [clear, checkOpen, Action.run, Action.state, Action.modify, bind, pure, h, withFiles]

theorem run_set_of_open (path : Path) (ds : List Diagnostic) :
    (set path ds).run earlier c = ⟨.ok (), c.withFiles (c.files.insert path ds), [], []⟩ := by
  simp [set, checkOpen, Action.run, Action.state, Action.modify, bind, pure, h, withFiles]

theorem run_delete_of_open (path : Path) :
    (delete path).run earlier c = ⟨.ok (), c.withFiles (c.files.erase path), [], []⟩ := by
  simp [delete, checkOpen, Action.run, Action.state, Action.modify, bind, pure, h, withFiles]

end Open

section Disposed

variable {c : Collection} (h : c.disposed = true) (earlier : List Call)
include h

theorem run_clear_of_disposed : clear.run earlier c = ⟨.error (.disposed c.name), c, [], []⟩ := by
  simp [clear, checkOpen, Action.run, Action.state, Action.stop, bind, h]

theorem run_set_of_disposed (path : Path) (ds : List Diagnostic) :
    (set path ds).run earlier c = ⟨.error (.disposed c.name), c, [], []⟩ := by
  simp [set, checkOpen, Action.run, Action.state, Action.stop, bind, h]

theorem run_delete_of_disposed (path : Path) :
    (delete path).run earlier c = ⟨.error (.disposed c.name), c, [], []⟩ := by
  simp [delete, checkOpen, Action.run, Action.state, Action.stop, bind, h]

/-- Only where there is nothing to write, a collection that was disposed of can be published to. -/
theorem run_publish_of_disposed (files : Files) :
    (publish files).run earlier c =
      if files.entries = [] then ⟨.ok (), c, [.published files.size], []⟩
      else ⟨.error (.disposed c.name), c, [], []⟩ := by
  rw [publish]
  rcases hfiles : files.entries with _ | ⟨⟨path, ds⟩, rest⟩
  · rfl
  · have hset := run_set_of_disposed h earlier path ds
    have hstop : ((set path ds).run earlier c).result = .error (.disposed c.name) := by rw [hset]
    rw [List.forM_cons, bind_assoc, Action.run_bind_of_error hstop, hset]
    rfl

end Disposed

theorem run_forM_set_of_open {c : Collection} (h : c.disposed = false) (earlier : List Call)
    (entries : List (Path × List Diagnostic)) :
    (forM entries fun (path, ds) => set path ds : Action Collection Unit).run earlier c =
      ⟨.ok (), c.withFiles (c.files.override entries), [], []⟩ := by
  induction entries generalizing c with
  | nil => rfl
  | cons entry entries ih =>
    obtain ⟨path, ds⟩ := entry
    have hset := run_set_of_open h earlier path ds
    have hrest := ih (c := c.withFiles (c.files.insert path ds)) h
    rw [List.forM_cons, Action.run_bind_of_ok (a := ()) (by rw [hset])]
    simp [hset, hrest]

/-- Publishing to an open collection writes every file. -/
theorem run_publish_of_open {c : Collection} (h : c.disposed = false) (earlier : List Call)
    (files : Files) :
    (publish files).run earlier c =
      ⟨.ok (), c.withFiles (c.files.override files.entries), [.published files.size], []⟩ := by
  have hset := run_forM_set_of_open h earlier files.entries
  rw [publish, Action.run_bind_of_ok (a := ()) (by rw [hset])]
  simp [hset]

variable {c : Collection} (earlier : List Call) (files more : Files)

/-- A collection that is open takes all files. -/
theorem run_publish_eq_merge (h : c.disposed = false) :
    (publish files).run earlier c =
      ⟨.ok (), c.withFiles (c.files.merge files), [.published files.size], []⟩ := by
  rw [run_publish_of_open h, Table.override_eq_merge]

section Twice

variable {files more}

theorem run_publish_twice_of_open (h : c.disposed = false) :
    let done := (do publish files; publish more).run earlier c
    done.result = .ok () ∧ done.state = c.withFiles ((c.files.merge files).merge more) := by
  have hfirst := run_publish_eq_merge earlier files h
  have hsecond := run_publish_eq_merge earlier more (c := c.withFiles (c.files.merge files)) h
  have hboth := Action.run_bind_of_no_calls (f := fun _ => publish more) hfirst hsecond
  intro done
  rw [show done = _ from hboth]
  exact ⟨rfl, rfl⟩

theorem run_publish_twice_of_disposed (h : c.disposed = true) :
    let done := (do publish files; publish more).run earlier c
    done.result = (if files.entries = [] ∧ more.entries = [] then .ok ()
      else .error (.disposed c.name)) ∧ done.state = c := by
  have hfirst := run_publish_of_disposed h earlier files
  intro done
  by_cases hfiles : files.entries = []
  · rw [if_pos hfiles] at hfirst
    have hboth := Action.run_bind_of_no_calls (f := fun _ => publish more) hfirst
      (run_publish_of_disposed h earlier more)
    rw [show done = _ from hboth]
    by_cases hmore : more.entries = [] <;> simp [hfiles, hmore]
  · rw [if_neg hfiles] at hfirst
    have hstop : ((publish files).run earlier c).result = .error (.disposed c.name) := by
      rw [hfirst]
    have hboth := Action.run_bind_of_error (f := fun _ => publish more) hstop
    rw [show done = _ from hboth, hfirst]
    simp [hfiles]

end Twice

/-- To an open collection, files are published all at once: each has its new list then, the others
have the lists that they had, and new files come after those that were there. Doing it again changes
nothing, and publishing more files after them is publishing both merged. A collection that was
disposed of stays as it is, and says so unless there was nothing to publish. -/
theorem publish_overrides (c : Collection) (files : Files) (earlier : List Call) :
    let done := (publish files).run earlier c
    (∀ d : Diagnosis, d.files = files → d.finish.run earlier c = done) ∧
    (c.disposed = false → done.result = .ok () ∧ done.state = c.withFiles done.state.files ∧
      (∀ path ds, files.get? path = some ds → done.state.files.get? path = some ds) ∧
      (∀ path, files.get? path = none → done.state.files.get? path = c.files.get? path) ∧
      done.state.files.keys = c.files.keys ++ files.keys.filter (· ∉ c.files.keys) ∧
      ∀ later, let again := (publish files).run later done.state
        again.result = .ok () ∧ again.state = done.state) ∧
    (c.disposed = true → done.state = c ∧
      done.result = if files.entries = [] then .ok () else .error (.disposed c.name)) ∧
    ∀ more : Files,
      let both := (do publish files; publish more).run earlier c
      let once := (publish (files.merge more)).run earlier c
      both.result = once.result ∧ both.state = once.state := by
  intro done
  refine ⟨?_, ?_, ?_, ?_⟩
  · rintro d rfl
    rfl
  · intro hopen
    have hdone : done = _ := run_publish_eq_merge earlier files hopen
    rw [hdone]
    refine ⟨rfl, rfl, ?_, ?_, Table.keys_merge _ _, ?_⟩
    · intro path ds hds
      rw [files_withFiles, Table.get?_merge, hds, Option.some_or]
    · intro path hnone
      rw [files_withFiles, Table.get?_merge, hnone, Option.none_or]
    · intro later again
      have hagain : again = _ :=
        run_publish_eq_merge later files (c := c.withFiles (c.files.merge files)) hopen
      rw [hagain, files_withFiles, Table.merge_merge_self]
      exact ⟨rfl, rfl⟩
  · intro hdisposed
    have hdone : done = _ := run_publish_of_disposed hdisposed earlier files
    rw [hdone]
    by_cases hfiles : files.entries = [] <;> simp [hfiles]
  · intro more both once
    cases hc : c.disposed with
    | false =>
      obtain ⟨hresult, hstate⟩ : both.result = _ ∧ both.state = _ :=
        run_publish_twice_of_open earlier hc
      have honce : once = _ := run_publish_eq_merge earlier (files.merge more) hc
      rw [hresult, hstate, honce, Table.merge_assoc]
      exact ⟨rfl, rfl⟩
    | true =>
      obtain ⟨hresult, hstate⟩ : both.result = _ ∧ both.state = _ :=
        run_publish_twice_of_disposed earlier hc
      have honce : once = _ := run_publish_of_disposed hc earlier (files.merge more)
      rw [hresult, hstate, honce]
      simp only [Table.entries_merge_eq_nil_iff]
      by_cases hnone : files.entries = [] ∧ more.entries = [] <;> simp [hnone]

end CargoReport.Collection
