import CargoReport.Proofs.Bytes
import CargoReport.Proofs.Cargo.Processes
import CargoReport.Proofs.Report.Streaming

namespace CargoReport

namespace Report

def captured (bytes : List UInt8) : Report := ofText (Capture.text bytes)

/-- The line that a last line end begins is blank and leaves nothing. -/
theorem ofText_append_newline_nil (front : Text) :
    ((ofText (front ++ [Text.newline])).stop = none ↔ (ofText front).stop = none) ∧
      ((ofText front).stop = none →
        (ofText (front ++ [Text.newline])).records = (ofText front).records) := by
  have hblank : ofText [] = ⟨[.blank], none⟩ := rfl
  rw [ofText_append_cons, stop_andThen_eq_none_iff, hblank]
  refine ⟨and_iff_left rfl, ?_⟩
  intro hstop
  rw [records_andThen hstop]
  exact List.append_nil _

theorem captured_append_newline (xs ys : List UInt8) :
    ((captured (xs ++ 0x0A :: ys)).stop = none ↔
        (captured xs).stop = none ∧ (captured ys).stop = none) ∧
      ((captured xs).stop = none →
        (captured (xs ++ 0x0A :: ys)).records =
          (captured xs).records ++ (captured ys).records) := by
  obtain ⟨front, hwhole, hfirst⟩ := Capture.text_append_newline xs ys
  have hcut : captured (xs ++ 0x0A :: ys) = (ofText front).andThen (captured ys) := by
    rw [captured, hwhole, ofText_append_cons, captured]
  have hfront : ((captured xs).stop = none ↔ (ofText front).stop = none) ∧
      ((ofText front).stop = none → (captured xs).records = (ofText front).records) := by
    rw [captured]
    rcases hfirst with heq | heq
    · rw [heq]
      exact ⟨Iff.rfl, fun _ => rfl⟩
    · rw [heq]
      exact ofText_append_newline_nil front
  rw [hcut, stop_andThen_eq_none_iff, hfront.1]
  refine ⟨Iff.rfl, ?_⟩
  intro hstop
  rw [records_andThen hstop, hfront.2 hstop]

end Report

namespace Cargo

theorem run_report_of_ok {c : Cargo} {name : Text} {args : List Text} {earlier : List Call}
    {finished : Finished}
    (h : c.launched (name :: "--message-format=json" :: args) earlier = .ok finished) :
    (c.report name args).run earlier () =
      let calls := c.processes (name :: "--message-format=json" :: args)
      if finished.exitCode ≠ 0 ∧ Capture.text finished.stdout = [] then
        ⟨.error (.cargoFailed name finished.exitCode (Capture.text finished.stderr)), (), [], calls⟩
      else
        let report := Report.captured finished.stdout
        ⟨report.toExcept, (), (report.lines.filterMap Line.skip?).map .skipped, calls⟩ := by
  rw [report, run_start_bind_of_ok h]
  by_cases hnone : finished.exitCode ≠ 0 ∧ Capture.text finished.stdout = []
  · simp [Captured.ofFinished, hnone, Action.run_bind_of_error]
  · have hread := Report.run_toAction (Report.captured finished.stdout)
      (earlier ++ c.processes (name :: "--message-format=json" :: args))
    simp only [Captured.ofFinished, hnone, if_false]
    rw [← Report.captured, hread, List.append_nil]

/-- Cargo is found, and it ends well after it printed some bytes. -/
def Prints (c : Cargo) (words : List Text) (earlier : List Call) (stdout : List UInt8) : Prop :=
  ∃ binary stderr, c.find = .ok binary ∧
    c.host.launch earlier ⟨binary :: words, c.directory⟩ = .ok ⟨0, stdout, stderr⟩

theorem result_report_of_prints {c : Cargo} {name : Text} {args : List Text}
    {earlier : List Call} {stdout : List UInt8}
    (h : c.Prints (name :: "--message-format=json" :: args) earlier stdout) :
    ((c.report name args).run earlier ()).result = (Report.captured stdout).toExcept := by
  obtain ⟨binary, stderr, hfind, hlaunch⟩ := h
  have hzero : ¬((0 : Int) ≠ 0 ∧ Capture.text stdout = []) := fun hne => hne.1 rfl
  rw [run_report_of_ok (launched_of_ok hfind hlaunch)]
  simp only [hzero, if_false]

/-- The two commands that report records. -/
inductive Reporting where
  | check
  | build

namespace Reporting

def run (k : Reporting) (c : Cargo) (args : Option (List Text)) : Action Unit (List Record) :=
  match k with
  | check => c.check args
  | build => c.build args

def words : Reporting → Option (List Text) → List Text
  | check, args => "check" :: "--message-format=json" :: args.getD Settings.defaultCheckArgs
  | build, args => "build" :: "--message-format=json" :: args.getD []

theorem result_run_of_prints {k : Reporting} {c : Cargo} {args : Option (List Text)}
    {earlier : List Call} {stdout : List UInt8} (h : c.Prints (k.words args) earlier stdout) :
    ((k.run c args).run earlier ()).result = (Report.captured stdout).toExcept := by
  cases k with
  | check => exact result_report_of_prints h
  | build => exact result_report_of_prints h

/-- Where cargo prints two parts with a line feed between them, the records are those of the first
part and then those of the second, each as if cargo had printed it alone; and they are there exactly
if every line of what was printed can be read. -/
theorem run_append_newline (k : Reporting) (args : Option (List Text)) {c c₁ c₂ : Cargo}
    {earlier earlier₁ earlier₂ : List Call} {xs ys : List UInt8}
    (h : c.Prints (k.words args) earlier (xs ++ 0x0A :: ys))
    (h₁ : c₁.Prints (k.words args) earlier₁ xs) (h₂ : c₂.Prints (k.words args) earlier₂ ys) :
    (∀ line ∈ (Capture.text (xs ++ 0x0A :: ys)).splitOn Text.newline,
        ∃ l, Line.read line = .ok l) ↔
      ∃ rs₁ rs₂,
        ((k.run c₁ args).run earlier₁ ()).result = .ok rs₁ ∧
        ((k.run c₂ args).run earlier₂ ()).result = .ok rs₂ ∧
        ((k.run c args).run earlier ()).result = .ok (rs₁ ++ rs₂) := by
  obtain ⟨hstop, hrecords⟩ := Report.captured_append_newline xs ys
  have hlines : (Report.captured (xs ++ 0x0A :: ys)).stop = none ↔
      ∀ line ∈ (Capture.text (xs ++ 0x0A :: ys)).splitOn Text.newline,
        ∃ l, Line.read line = .ok l := by
    simp only [← Line.readable_iff]
    exact Report.stop_ofLines_eq_none_iff _
  rw [← hlines, result_run_of_prints h, result_run_of_prints h₁, result_run_of_prints h₂]
  simp only [Report.toExcept_eq_ok_iff]
  constructor
  · intro hwhole
    obtain ⟨hfirst, hsecond⟩ := hstop.mp hwhole
    exact ⟨_, _, ⟨hfirst, rfl⟩, ⟨hsecond, rfl⟩, hwhole, hrecords hfirst⟩
  · rintro ⟨rs₁, rs₂, -, -, hwhole, -⟩
    exact hwhole

/-- Cargo in surroundings where it prints some bytes, whatever it is told. -/
def printing (stdout : List UInt8) : Cargo where
  host :=
    { environment := []
      cargo? := some "cargo"
      directory := .ofText "/home"
      limits := .strict
      launch := fun _ _ => .ok ⟨0, stdout, []⟩
      fetch := fun _ _ => .ok [] }
  binary? := none
  directory := "/ws"

/-- A record, and on a line that a carriage return ends the start of a character of three bytes. -/
def cutShort : List UInt8 := Utf8.encode "\x7b\x7d" ++ [0x0A, 0xE2, 0x82, 0x0D]

theorem run_append_newline_cutShort :
    let more := Utf8.encode "\x7b\"reason\":\"x\"\x7d"
    (printing (cutShort ++ 0x0A :: more)).Prints (words .check none) []
        (cutShort ++ 0x0A :: more) ∧
      (printing cutShort).Prints (words .check none) [] cutShort ∧
      (printing more).Prints (words .check none) [] more ∧
      ∃ rs₁ rs₂,
        ((run .check (printing cutShort) none).run [] ()).result = .ok rs₁ ∧
        ((run .check (printing more) none).run [] ()).result = .ok rs₂ ∧
        ((run .check (printing (cutShort ++ 0x0A :: more)) none).run [] ()).result =
          .ok (rs₁ ++ rs₂) ∧ rs₁.length = 1 ∧ rs₂.length = 1 := by
  intro more
  have hprints : ∀ stdout, (printing stdout).Prints (words .check none) [] stdout :=
    fun stdout => ⟨"cargo", [], rfl, rfl⟩
  have hlines : ∀ line ∈ (Capture.text (cutShort ++ 0x0A :: more)).splitOn Text.newline,
      ∃ l, Line.read line = .ok l := by
    have hread : ∀ line ∈ (Capture.text (cutShort ++ 0x0A :: more)).splitOn Text.newline,
        (Line.read line).isOk = true := by decide +kernel
    intro line hline
    exact (Line.readable_iff line).mp (Line.readable_of_isOk (hread line hline))
  obtain ⟨rs₁, rs₂, h₁, h₂, h⟩ := (run_append_newline .check none
    (hprints _) (hprints cutShort) (hprints more)).mp hlines
  have hone : ((run .check (printing cutShort) none).run [] ()).result.toOption.map List.length =
      some 1 := by decide +kernel
  have hmore : ((run .check (printing more) none).run [] ()).result.toOption.map List.length =
      some 1 := by decide +kernel
  rw [h₁] at hone
  rw [h₂] at hmore
  exact ⟨hprints _, hprints _, hprints _, rs₁, rs₂, h₁, h₂, h,
    by simpa [Except.toOption] using hone, by simpa [Except.toOption] using hmore⟩

end Reporting
end Cargo
end CargoReport
