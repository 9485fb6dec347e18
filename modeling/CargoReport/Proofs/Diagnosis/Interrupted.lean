import CargoReport.Proofs.Diagnosis.Feeding
import CargoReport.Proofs.Report.Streaming

namespace CargoReport.Diagnosis

/-- The records of a report are added one by one, each before the next line is read. -/
theorem addReport_ofLines (base : Base) (lines : List Text) :
    addReport base (.ofLines lines) = Report.feed (addRecord base) lines := by
  rw [addReport_eq]
  induction lines with
  | nil => rfl
  | cons t rest ih =>
    rw [Report.ofLines]
    cases hread : Line.read t with
    | error overlong =>
      rw [Report.feed_cons_of_error _ hread]
      rfl
    | ok line =>
      rw [Report.feed_cons_of_ok _ hread, ← ih]
      simp only [List.forM_cons, bind_assoc]
      cases line <;> simp [addLine, Line.record?, Line.skip?]

theorem addReport_intercalate (base : Base) {lines : List Text}
    (h : ∀ line ∈ lines, Text.newline ∉ line) :
    addReport base (.ofText (List.intercalate [Text.newline] lines)) =
      Report.feed (addRecord base) lines := by
  cases lines with
  | nil => rfl
  | cons line rest =>
    rw [Report.ofText, Text.splitOn_intercalate (by simp) h, addReport_ofLines]

/-- Lines that can all be read are added to the last. -/
theorem run_feed (base : Base) {lines : List Text} (hread : ∀ line ∈ lines, Line.Readable line)
    (hshort : ∀ r ∈ lines.flatMap Line.yields, r.Short) (earlier : List Call) (d : Diagnosis) :
    ∃ notices, (Report.feed (addRecord base) lines).run earlier d =
      ⟨.ok (), (placements base (lines.flatMap Line.yields)).foldl keep d, notices, []⟩ := by
  have hstop : (Report.ofLines lines).stop = none :=
    (Report.stop_ofLines_eq_none_iff lines).mpr hread
  rw [Report.flatMap_yields hread] at hshort ⊢
  rw [← addReport_ofLines]
  exact run_addReport base hstop hshort earlier d

/-- What comes before a line that cannot be read is all that is read. -/
theorem records_ofLines_of_refused {front back : List Text} {line : Text} {overlong : Overlong}
    (hfront : ∀ l ∈ front, Line.Readable l) (hline : Line.read line = .error overlong) :
    (Report.ofLines (front ++ line :: back)).records = front.flatMap Line.yields := by
  have hstop : (Report.ofLines front).stop = none :=
    (Report.stop_ofLines_eq_none_iff front).mpr hfront
  rw [Report.ofLines_append, Report.records_andThen hstop, Report.flatMap_yields hfront,
    Report.ofLines, hline]
  exact List.append_nil _

/-- A line that cannot be read stops the feed with its own fault. The diagnosis is then the one that
the lines before it make: what these hold is added to what was there, and nothing else. Without
such a line the feed does not stop. -/
theorem addReport_keeps_lines_before (base : Base) {text : Text}
    (hshort : ∀ r ∈ (Report.ofText text).records, r.Short) (earlier : List Call) (d : Diagnosis) :
    let lines := text.splitOn Text.newline
    let done := (addReport base (.ofText text)).run earlier d
    (∀ front line back overlong, lines = front ++ line :: back →
      (∀ l ∈ front, ∃ l', Line.read l = .ok l') → Line.read line = .error overlong →
      ∃ d' notices,
        (addReport base (.ofText (List.intercalate [Text.newline] front))).run earlier d =
          ⟨.ok (), d', notices, []⟩ ∧
        done = ⟨.error (.overlong overlong), d', notices, []⟩ ∧
        ∀ ds, d.Holds ds → d'.Holds (ds ++ placements base (front.flatMap Line.yields))) ∧
    ((∀ line ∈ lines, ∃ l, Line.read line = .ok l) → done.result = .ok ()) := by
  intro lines done
  simp only [← Line.readable_iff]
  refine ⟨?_, ?_⟩
  · intro front line back overlong hlines hfront hline
    have hrecords : (Report.ofText text).records = front.flatMap Line.yields := by
      rw [← records_ofLines_of_refused hfront hline, ← hlines]
      rfl
    obtain ⟨notices, hrun⟩ := run_feed base hfront (hrecords ▸ hshort) earlier d
    -- A text of the lines before is cut into just these again, as none has a line feed in it.
    have hbefore : addReport base (.ofText (List.intercalate [Text.newline] front)) =
        Report.feed (addRecord base) front := by
      apply addReport_intercalate
      intro l hl
      have hmem : l ∈ lines := hlines ▸ List.mem_append_left _ hl
      exact Text.notMem_of_mem_splitOn hmem
    -- The feed of all lines is that of the lines before, and then it ends, whatever comes after.
    have hwhole : addReport base (.ofText text) =
        (Report.feed (addRecord base) front >>= fun _ => Action.stop (.overlong overlong)) := by
      rw [Report.ofText, addReport_ofLines, ← Report.feed_cons_of_error _ hline back,
        ← Report.feed_append, ← hlines]
    have hstop := Action.run_bind_of_no_calls
      (f := fun _ => (Action.stop (.overlong overlong) : Action Diagnosis Unit)) hrun rfl
    rw [← hwhole, Action.run_stop, List.append_nil] at hstop
    refine ⟨_, notices, hbefore ▸ hrun, hstop, ?_⟩
    exact fun ds hds => hds.foldl_keep _
  · intro hread
    obtain ⟨notices, hrun⟩ :=
      run_addReport base ((Report.stop_ofLines_eq_none_iff lines).mpr hread) hshort earlier d
    rw [show done = _ from hrun]

/-- A number with more digits than are read. -/
def ones : Text := List.replicate 4301 '1'.toNat

theorem addReport_keeps_lines_before_ones :
    let base : Base := ⟨.ofText "/", .ofText "/ws"⟩
    let text := toldIn "a" ++ Text.newline :: (ones ++ Text.newline :: toldIn "b")
    let done := (addReport base (.ofText text)).run [] empty
    (∀ r ∈ (Report.ofText text).records, r.Short) ∧
      done.result = .error (.overlong ⟨4301⟩) ∧ done.state.files.keys = [.ofText "/ws/a"] := by
  intro base text done
  have hplain : Decimal.Plain ones := Decimal.plain_ones 4300
  have hlength : ones.length = 4301 := List.length_replicate
  have hones : Line.read ones = .error ⟨4301⟩ := by
    rw [← hlength]
    exact Line.read_of_plain hplain (by rw [hlength]; decide)
  have hlines : text.splitOn Text.newline =
      [toldIn "a"] ++ ones :: (toldIn "b").splitOn Text.newline := by
    have hfirst : (toldIn "a").splitOn Text.newline = [toldIn "a"] := by decide +kernel
    rw [Text.splitOn_append_cons, Text.splitOn_append_cons, hfirst,
      Text.splitOn_of_notMem hplain.newline_notMem]
    simp only [List.cons_append, List.nil_append]
  have hread : ∀ l ∈ [toldIn "a"], Line.Readable l := by
    have hok : (Line.read (toldIn "a")).isOk = true := by decide +kernel
    intro l hl
    obtain rfl := List.mem_singleton.mp hl
    exact Line.readable_of_isOk hok
  have hshort : ∀ r ∈ (Report.ofText text).records, r.Short := by
    rw [Report.ofText, hlines, records_ofLines_of_refused hread hones]
    decide +kernel
  have hkeys : ∀ before, (addReport base (.ofText (toldIn "a"))).run [] empty = before →
      before.state.files.keys = [.ofText "/ws/a"] := by
    rintro _ rfl
    decide +kernel
  obtain ⟨d', notices, hbefore, hdone, -⟩ := (addReport_keeps_lines_before base hshort [] empty).1
    _ _ _ _ hlines (fun l hl => (Line.readable_iff l).mp (hread l hl)) hones
  have hd : d'.files.keys = [.ofText "/ws/a"] := hkeys _ hbefore
  rw [show done = _ from hdone]
  exact ⟨hshort, rfl, hd⟩

/-- A report that is first read to its end leaves nothing if a line of it cannot be read. -/
theorem run_addRecords_after_reading (base : Base) {report : Report} {overlong : Overlong}
    (h : report.stop = some overlong) (earlier : List Call) (d : Diagnosis) :
    (do addRecords base (← Action.beside report.toAction) : Action Diagnosis Unit).run earlier d =
      ⟨.error (.overlong overlong), d, (report.lines.filterMap Line.skip?).map .skipped, []⟩ := by
  let reading : Action Diagnosis (List Record) := Action.beside report.toAction
  have hread : reading.run earlier d =
      ⟨.error (.overlong overlong), d, (report.lines.filterMap Line.skip?).map .skipped, []⟩ := by
    have hrun := report.run_toAction earlier
    rw [Report.toExcept, h, Action.run] at hrun
    simp [reading, Action.beside, Action.zoom, Action.run, hrun]
  have hstop : (reading.run earlier d).result = .error (.overlong overlong) := by
    rw [hread]
  rw [Action.run_bind_of_error hstop, hread]

end CargoReport.Diagnosis
