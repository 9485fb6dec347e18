import CargoReport.Proofs.Cargo.Processes
import CargoReport.Proofs.Collection.Publishing
import CargoReport.Proofs.Diagnosis.Adding
import CargoReport.Workspace

namespace CargoReport.Workspace

open CargoReport.Action

variable {α : Type}

/-- What a pass finds once the metadata were read. -/
def findIn (w : Workspace) (p : Pass α) (m : Metadata) : Action Unit Files := do
  let records ← p.command
  Diagnosis.aggregate (w.base m) records

def find (w : Workspace) (p : Pass α) : Action Unit Files := do
  w.findIn p (← w.cargo.metadata)

/-- The files that are published for what a pass found. -/
def published : Except Fault Files → Files
  | .ok files => files
  | .error _ => .empty

theorem run_begin_of_open {c : Collection} (h : c.disposed = false) (earlier : List Call) :
    begin.run earlier c = ⟨.ok (), c.withFiles .empty, [.running "cargo metadata"], []⟩ := by
  have hclear := Collection.run_clear_of_open h earlier
  rw [begin, run_bind_of_ok (a := ()) (by rw [hclear])]
  simp [hclear]

theorem run_begin_of_disposed {c : Collection} (h : c.disposed = true) (earlier : List Call) :
    begin.run earlier c = ⟨.error (.disposed c.name), c, [], []⟩ := by
  have hclear := Collection.run_clear_of_disposed h earlier
  have hstop : (Collection.clear.run earlier c).result = .error (.disposed c.name) := by rw [hclear]
  rw [begin, run_bind_of_error hstop, hclear]

theorem run_readMetadata (w : Workspace) (p : Pass α) (earlier : List Call) (c : Collection) :
    let read := w.cargo.metadata.run earlier ()
    let done := (w.readMetadata p).run earlier c
    done.result = read.result ∧ done.state = c ∧ done.calls = read.calls := by
  intro read done
  cases hr : read.result with
  | error fault =>
    have hbeside : ((beside w.cargo.metadata).run earlier c).result = .error fault := hr
    exact bind_of_error hbeside rfl rfl
  | ok m =>
    have hbeside : ((beside w.cargo.metadata).run earlier c).result = .ok m := hr
    obtain ⟨hresult, hstate, hcalls⟩ : done.result = .ok m ∧ done.state = c ∧
        done.calls = read.calls ++ [] := bind_of_ok hbeside rfl rfl
    exact ⟨hresult, hstate, by simpa using hcalls⟩

section Publishing

variable {w : Workspace} {p : Pass α} {m : Metadata} {earlier : List Call} {c : Collection}

theorem run_publish_of_error {fault : Fault}
    (h : ((w.findIn p m).run earlier ()).result = .error fault) :
    let done := (w.publish p m).run earlier c
    done.result = .error fault ∧ done.state = c ∧
      done.calls = ((w.findIn p m).run earlier ()).calls := by
  rcases hcommand : p.command earlier () with ⟨fault' | records, ⟨⟩, notices, calls⟩
  · have hsame : fault' = fault := by
      simpa [findIn, Action.run, bind, hcommand] using h
    simp [Workspace.publish, findIn, Action.run, beside, zoom, bind, hcommand, hsame]
  · have hbefore : ∀ before, Diagnosis.aggregate (w.base m) records before () =
        Diagnosis.aggregate (w.base m) records [] () :=
      fun before => (Diagnosis.quiet_aggregate (w.base m) records before ()).1
    have hstop : (Diagnosis.aggregate (w.base m) records [] ()).result = .error fault := by
      simpa [findIn, Action.run, bind, hcommand, hbefore] using h
    simp [Workspace.publish, findIn, Action.run, beside, zoom, bind, hcommand, note, hbefore, hstop]

/-- Once the files were found, the last part comes to what publishing them comes to. -/
theorem run_publish_of_ok {files : Files}
    (h : ((w.findIn p m).run earlier ()).result = .ok files) {r : Except Fault Unit}
    {c' : Collection} {notices : List Notice} (hpublish : ∀ before,
      (Collection.publish files).run before c = ⟨r, c', notices, []⟩) :
    let done := (w.publish p m).run earlier c
    done.result = r.map (fun _ => p.answer files) ∧ done.state = c' ∧
      done.calls = ((w.findIn p m).run earlier ()).calls := by
  rcases hcommand : p.command earlier () with ⟨fault | records, ⟨⟩, notices', calls⟩
  · simp [findIn, Action.run, bind, hcommand] at h
  · have hbefore : ∀ before, Diagnosis.aggregate (w.base m) records before () =
        Diagnosis.aggregate (w.base m) records [] () :=
      fun before => (Diagnosis.quiet_aggregate (w.base m) records before ()).1
    have hfound : (Diagnosis.aggregate (w.base m) records [] ()).result = .ok files := by
      simpa [findIn, Action.run, bind, hcommand, hbefore] using h
    simp only [Action.run] at hpublish
    cases r <;>
      simp [Workspace.publish, findIn, Action.run, beside, zoom, bind, pure, hcommand, note,
        hbefore, hfound, hpublish, Except.map]

end Publishing

theorem run_publish_of_open (w : Workspace) (p : Pass α) (m : Metadata) (earlier : List Call)
    {c : Collection} (h : c.disposed = false) (he : c.files = .empty) :
    let found := (w.findIn p m).run earlier ()
    let done := (w.publish p m).run earlier c
    done.result = found.result.map p.answer ∧ done.state = c.withFiles (published found.result) ∧
      done.calls = found.calls := by
  intro found done
  cases hfound : found.result with
  | error fault =>
    have hsame : c.withFiles .empty = c := by rw [← he]; rfl
    obtain ⟨hresult, hstate, hcalls⟩ := run_publish_of_error (c := c) hfound
    exact ⟨hresult, hstate.trans hsame.symm, hcalls⟩
  | ok files =>
    have hpublish := fun before => Collection.run_publish_of_open h before files
    rw [he, Table.override_empty] at hpublish
    exact run_publish_of_ok hfound hpublish

/-- What a pass found for a collection that was disposed of meanwhile stays unpublished. -/
theorem run_publish_of_disposed (w : Workspace) (p : Pass α) (m : Metadata) (earlier : List Call)
    {c : Collection} (h : c.disposed = true) :
    let found := (w.findIn p m).run earlier ()
    let done := (w.publish p m).run earlier c
    (∀ files, found.result = .ok files → files.entries ≠ [] →
      done.result = .error (.disposed c.name)) ∧ done.state = c := by
  intro found done
  cases hfound : found.result with
  | error fault =>
    obtain ⟨-, hstate, -⟩ := run_publish_of_error (c := c) hfound
    exact ⟨nofun, hstate⟩
  | ok files =>
    have hpublish := fun before => Collection.run_publish_of_disposed h before files
    by_cases hnone : files.entries = []
    · simp only [if_pos hnone] at hpublish
      obtain ⟨-, hstate, -⟩ := run_publish_of_ok hfound hpublish
      exact ⟨fun files' hfiles hsome => absurd hnone (by cases hfiles; exact hsome), hstate⟩
    · simp only [if_neg hnone] at hpublish
      obtain ⟨hresult, hstate, -⟩ := run_publish_of_ok hfound hpublish
      exact ⟨fun _ _ _ => hresult, hstate⟩

theorem run_of_disposed (w : Workspace) (p : Pass α) {c : Collection} (h : c.disposed = true)
    (earlier : List Call) : (w.run p).run earlier c = ⟨.error (.disposed c.name), c, [], []⟩ := by
  have hbegin := run_begin_of_disposed h earlier
  have hstop : (begin.run earlier c).result = .error (.disposed c.name) := by rw [hbegin]
  rw [run, run_bind_of_error hstop, hbegin]

/-- A pass on an open collection answers for what it finds, and the collection holds just that. -/
theorem run_of_open (w : Workspace) (p : Pass α) {c : Collection} (h : c.disposed = false)
    (earlier : List Call) :
    let found := (w.find p).run earlier ()
    let done := (w.run p).run earlier c
    done.result = found.result.map p.answer ∧ done.state = c.withFiles (published found.result) ∧
      done.calls = found.calls := by
  intro found done
  have hbegin := run_begin_of_open h earlier
  have hok : (begin.run earlier c).result = .ok () := by rw [hbegin]
  have hempty : (begin.run earlier c).state = c.withFiles .empty := by rw [hbegin]
  have hnone : (begin.run earlier c).calls = [] := by rw [hbegin]
  have hstart := bind_of_ok (f := fun _ => do w.publish p (← w.readMetadata p)) hok hempty hnone
  rw [List.append_nil] at hstart
  obtain ⟨hresult, hstate, hcalls⟩ := w.run_readMetadata p earlier (c.withFiles .empty)
  cases hr : (w.cargo.metadata.run earlier ()).result with
  | error fault =>
    have hrest := bind_of_error (f := w.publish p) (hresult.trans hr) hstate hcalls
    have hfound : found.result = .error fault ∧ found.state = () ∧ found.calls = _ :=
      bind_of_error hr rfl rfl
    rw [hfound.1, hfound.2.2]
    exact ⟨hstart.1.trans hrest.1, hstart.2.1.trans hrest.2.1, hstart.2.2.trans hrest.2.2⟩
  | ok m =>
    have hrest := bind_of_ok (f := w.publish p) (hresult.trans hr) hstate hcalls
    have hpublish := w.run_publish_of_open p m
      (earlier ++ (w.cargo.metadata.run earlier ()).calls) (c := c.withFiles .empty) h rfl
    have hfound : found.result = _ ∧ found.state = _ ∧ found.calls = _ :=
      bind_of_ok (f := w.findIn p) hr rfl rfl
    rw [hfound.1, hfound.2.2]
    refine ⟨hstart.1.trans (hrest.1.trans hpublish.1),
      hstart.2.1.trans (hrest.2.1.trans hpublish.2.1), hstart.2.2.trans (hrest.2.2.trans ?_)⟩
    rw [hpublish.2.2]

end CargoReport.Workspace
