import CargoReport.Proofs.Workspace.Pass

namespace CargoReport.Workspace

open CargoReport.Action

/-- How a pass is started: by the workspace itself, or by a caller with a command of any kind that
leaves the collection alone. -/
inductive Start where
  | check
  | build
  | save
  | run (name : Text) (command : Action Unit (List Record))

namespace Start

/-- What is performed; a save that starts nothing answers none. -/
def job (w : Workspace) : Start → Job (Option Files)
  | check => some <$> w.check
  | build => some <$> w.build
  | save => w.onSave
  | run name command => .pass ⟨name, command, some⟩

def Enabled (w : Workspace) (s : Start) : Prop := s = save → w.settings.automaticCheck = true

def command (w : Workspace) : Start → Action Unit (List Record)
  | check | save => w.cargo.check (some w.settings.checkArgs)
  | build => w.cargo.build none
  | run _ command => command

/-- What the command starts; the three of the workspace start cargo once, if it is found. -/
def processes (w : Workspace) (earlier : List Call) : Start → List Call
  | check | save => w.cargo.processes ("check" :: "--message-format=json" :: w.settings.checkArgs)
  | build => w.cargo.processes ["build", "--message-format=json"]
  | run _ command => (command.run earlier ()).calls

theorem job_eq_pass {w : Workspace} {s : Start} (hs : s.Enabled w) :
    ∃ name, s.job w = .pass ⟨name, s.command w, some⟩ := by
  cases s with
  | check => exact ⟨_, rfl⟩
  | build => exact ⟨_, rfl⟩
  | save =>
    have hauto : w.settings.automaticCheck = true := hs rfl
    refine ⟨"cargo check", ?_⟩
    rw [job, onSave, if_pos hauto]
    rfl
  | run name command => exact ⟨name, rfl⟩

theorem calls_command (w : Workspace) (s : Start) (earlier : List Call) :
    ((s.command w).run earlier ()).calls = s.processes w earlier := by
  cases s with
  | check => exact w.cargo.calls_report _ _ earlier
  | build => exact w.cargo.calls_report _ _ earlier
  | save => exact w.cargo.calls_report _ _ earlier
  | run name command => rfl

end Start

variable {α : Type}

theorem find_eq_ok_iff (w : Workspace) (p : Pass α) (earlier : List Call) (files : Files) :
    let metadata := w.cargo.metadata.run earlier ()
    ((w.find p).run earlier ()).result = .ok files ↔
      ∃ m records, metadata.result = .ok m ∧
        (p.command.run (earlier ++ metadata.calls) ()).result = .ok records ∧
        ((Diagnosis.aggregate (w.base m) records).run [] ()).result = .ok files := by
  intro metadata
  rw [find]
  cases hm : metadata.result with
  | error fault =>
    rw [(bind_of_error hm rfl rfl).1]
    simp
  | ok m =>
    rw [(bind_of_ok hm rfl rfl).1, findIn]
    cases hc : (p.command.run (earlier ++ metadata.calls) ()).result with
    | error fault =>
      rw [(bind_of_error hc rfl rfl).1]
      simp
    | ok records =>
      rw [(bind_of_ok hc rfl rfl).1, (Diagnosis.quiet_aggregate (w.base m) records _ _).1]
      simp

theorem calls_find_of_ok (w : Workspace) (p : Pass α) {earlier : List Call} {m : Metadata}
    (hm : (w.cargo.metadata.run earlier ()).result = .ok m) :
    ((w.find p).run earlier ()).calls = (w.cargo.metadata.run earlier ()).calls ++
      (p.command.run (earlier ++ (w.cargo.metadata.run earlier ()).calls) ()).calls := by
  rw [find, (bind_of_ok hm rfl rfl).2.2, findIn, calls_bind_of_quiet]
  exact fun records => Diagnosis.quiet_aggregate _ records

theorem calls_find_of_error (w : Workspace) (p : Pass α) {earlier : List Call} {fault : Fault}
    (hm : (w.cargo.metadata.run earlier ()).result = .error fault) :
    ((w.find p).run earlier ()).calls = (w.cargo.metadata.run earlier ()).calls := by
  rw [find, (bind_of_error hm rfl rfl).2.2]

/-- Whatever the collection held when the pass was started: if the pass answers, then for the files
of its own metadata and records, and these are published; if it fails, nothing stays published. -/
theorem start_publishes_findings (w : Workspace) (s : Start) (hs : s.Enabled w)
    (earlier : List Call) (c : Collection) :
    let metadata := w.cargo.metadata.run earlier ()
    let command := (s.command w).run (earlier ++ metadata.calls) ()
    let done := (w.perform (s.job w)).run earlier c
    (∀ files, done.result = .ok (some files) ↔
      c.disposed = false ∧ ∃ m records, metadata.result = .ok m ∧ command.result = .ok records ∧
        ((Diagnosis.aggregate (w.base m) records).run [] ()).result = .ok files) ∧
    (∀ answer, done.result = .ok answer → ∃ files, answer = some files ∧
      done.state = c.withFiles files) ∧
    (∀ fault, done.result = .error fault → c.disposed = false →
      done.state = c.withFiles .empty) ∧
    done.calls <+: w.cargo.processes Cargo.metadataWords ++
      s.processes w (earlier ++ w.cargo.processes Cargo.metadataWords) ∧
    (done.calls <+: w.cargo.processes Cargo.metadataWords ∨ ∃ m, metadata.result = .ok m) := by
  intro metadata command done
  -- Every start is a pass with a command, and a pass is decided by what it finds.
  obtain ⟨name, hjob⟩ := Start.job_eq_pass hs
  have hmetadata : metadata.calls = w.cargo.processes Cargo.metadataWords :=
    w.cargo.calls_metadata earlier
  have hdone : done = (w.run ⟨name, s.command w, some⟩).run earlier c := by
    change (w.perform (s.job w)).run earlier c = _
    rw [hjob]
    rfl
  cases hopen : c.disposed with
  | true =>
    rw [hdone, w.run_of_disposed _ hopen]
    simp
  | false =>
    obtain ⟨hresult, hstate, hcalls⟩ := w.run_of_open ⟨name, s.command w, some⟩ hopen earlier
    rw [← hdone] at hresult hstate hcalls
    have hfind := w.find_eq_ok_iff ⟨name, s.command w, some⟩ earlier
    refine ⟨?_, ?_, ?_, ?_⟩
    · intro files
      refine Iff.trans ?_ ((hfind files).trans ⟨fun h => ⟨rfl, h⟩, fun h => h.2⟩)
      rw [hresult]
      cases ((w.find ⟨name, s.command w, some⟩).run earlier ()).result <;> simp [Except.map]
    · intro answer hanswer
      cases hf : ((w.find ⟨name, s.command w, some⟩).run earlier ()).result with
      | error fault => simp [hresult, hf, Except.map] at hanswer
      | ok files =>
        rw [hresult, hf] at hanswer
        refine ⟨files, ?_, by rw [hstate, hf, published]⟩
        simpa [Except.map] using hanswer.symm
    · intro fault hfault _
      cases hf : ((w.find ⟨name, s.command w, some⟩).run earlier ()).result with
      | error fault' => rw [hstate, hf, published]
      | ok files => simp [hresult, hf, Except.map] at hfault
    · rw [hcalls]
      cases hm : metadata.result with
      | error fault =>
        rw [w.calls_find_of_error _ hm, hmetadata]
        exact ⟨List.prefix_append _ _, .inl (List.prefix_refl _)⟩
      | ok m =>
        rw [w.calls_find_of_ok _ hm, hmetadata, s.calls_command]
        exact ⟨List.prefix_refl _, .inr ⟨m, rfl⟩⟩

/-- Surroundings in which cargo reports one error, and metadata of a workspace in another place. -/
def reporting : Host where
  environment := []
  cargo? := some "cargo"
  directory := .ofText "/home"
  limits := .strict
  launch := fun _ command =>
    .ok ⟨0, Utf8.encode (if command.words.any (· = "check") then report else metadata), []⟩
  fetch := fun _ _ => .ok []
where
  metadata : Text :=
    (["\x7b\"workspace_root\":", "\"/ws\",\"version\":1,", "\"target_directory\":",
      "\"/t\"\x7d"] : List Text).flatten
  report : Text :=
    (["\x7b\"message\":\x7b", "\"level\":\"error\",", "\"message\":\"no\",", "\"spans\":[\x7b",
      "\"file_name\":\"a\",", "\"line_start\":1,", "\"line_end\":1,", "\"column_start\":1,",
      "\"column_end\":2,", "\"byte_start\":0,", "\"byte_end\":1,", "\"is_primary\":true",
      "\x7d]\x7d\x7d"] : List Text).flatten

/-- A workspace there that checks on every save. -/
def checking : Workspace := ⟨reporting, .ofText "/ws/b", ⟨true, none, [], "cargo"⟩⟩

def stale : Collection := ⟨"cargo", .ofList [(.ofText "/ws/old", [])], false⟩

theorem start_publishes_findings_on_save :
    Start.save.Enabled checking ∧ ∃ files,
      ((checking.perform (Start.save.job checking)).run [] stale).result = .ok (some files) ∧
      ((checking.perform (Start.save.job checking)).run [] stale).state = stale.withFiles files ∧
      files.keys = [.ofText "/ws/a"] := by
  have henabled : Start.save.Enabled checking := fun _ => rfl
  have hspec := (start_publishes_findings checking .save henabled [] stale).2.1
  have hkeys : ((checking.perform (Start.save.job checking)).run [] stale).result.toOption.map
      (Option.map Table.keys) = some (some [.ofText "/ws/a"]) := by decide +kernel
  generalize (checking.perform (Start.save.job checking)).run [] stale = done at hspec hkeys ⊢
  cases hr : done.result with
  | error fault => rw [hr] at hkeys; simp [Except.toOption] at hkeys
  | ok answer =>
    obtain ⟨files, rfl, hstate⟩ := hspec answer hr
    rw [hr] at hkeys
    exact ⟨henabled, files, rfl, hstate, by simpa [Except.toOption] using hkeys⟩

end CargoReport.Workspace
