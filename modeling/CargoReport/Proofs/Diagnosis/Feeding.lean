import CargoReport.Proofs.Diagnosis.Growing
import CargoReport.Proofs.Report.Stopping

namespace CargoReport.Diagnosis

/-- Adds what one line of a report holds. -/
def addLine (base : Base) : Line → Action Diagnosis Unit
  | .blank => pure ()
  | .skipped why => Action.note (.skipped why)
  | .record r => addRecord base r

/-- Ends as a report ends. -/
def endReport : Option Overlong → Action Diagnosis Unit
  | none => pure ()
  | some overlong => Action.stop (.overlong overlong)

theorem addReport_eq (base : Base) (report : Report) :
    addReport base report =
      (forM report.lines (addLine base) >>= fun _ => endReport report.stop) := by
  have hline : addLine base = fun line =>
      match line with
      | .blank => pure ()
      | .skipped why => Action.note (.skipped why)
      | .record r => addRecord base r := by
    funext line
    cases line <;> rfl
  rw [addReport, hline]
  cases report.stop <;> rfl

theorem addReport_andThen (base : Base) (r r' : Report) :
    addReport base (r.andThen r') = (addReport base r >>= fun _ => addReport base r') := by
  rw [addReport_eq, addReport_eq, bind_assoc]
  cases hr : r.stop with
  | none =>
    simp only [Report.andThen, hr, List.forM_append, endReport, pure_bind, addReport_eq base r',
      bind_assoc]
  | some overlong =>
    -- What follows a stop is not done.
    have hstop : (endReport (some overlong) >>= fun _ => addReport base r') =
        endReport (some overlong) := rfl
    simp only [Report.andThen, hr, hstop]

/-- Pieces of a text add what the whole of it adds, and stop where it stops. -/
theorem forM_addReport (base : Base) (pieces : List Text) :
    (forM pieces fun piece => addReport base (.ofText piece)) =
      addReport base (.ofText (List.intercalate [Text.newline] pieces)) := by
  induction pieces with
  | nil => rfl
  | cons piece pieces ih =>
    rw [List.forM_cons, ih]
    cases pieces with
    | nil =>
      have hempty : addReport base (.ofText (List.intercalate [Text.newline] [])) = pure () := rfl
      rw [hempty, List.intercalate_singleton]
      exact bind_pure _
    | cons next pieces =>
      rw [← addReport_andThen, ← Report.ofText_append_cons, List.intercalate_cons_cons]
      simp

theorem run_addLine (base : Base) {line : Line} (h : ∀ r ∈ line.record?, r.Short)
    (earlier : List Call) (d : Diagnosis) :
    ∃ notices, (addLine base line).run earlier d =
      ⟨.ok (), (placements base line.record?.toList).foldl keep d, notices, []⟩ := by
  cases line with
  | blank => exact ⟨[], rfl⟩
  | skipped why => exact ⟨[.skipped why], rfl⟩
  | record r =>
    have hshort : ∀ r' ∈ [r], r'.Short := by
      intro r' hr'
      exact h r' (by simpa [Line.record?, eq_comm] using hr')
    have hone : addRecords base [r] = addRecord base r := by simp [addRecords]
    have hrun := run_addRecords base hshort earlier d
    rw [hone] at hrun
    exact ⟨_, hrun⟩

theorem run_addLines (base : Base) {lines : List Line}
    (h : ∀ r ∈ lines.filterMap Line.record?, r.Short) (earlier : List Call) (d : Diagnosis) :
    ∃ notices, (forM lines (addLine base)).run earlier d =
      ⟨.ok (), (placements base (lines.filterMap Line.record?)).foldl keep d, notices, []⟩ := by
  induction lines generalizing earlier d with
  | nil => exact ⟨[], rfl⟩
  | cons line lines ih =>
    have hlines : (line :: lines).filterMap Line.record? =
        line.record?.toList ++ lines.filterMap Line.record? := by
      cases hr : line.record? <;> simp [hr]
    rw [hlines] at h ⊢
    rw [List.forall_mem_append] at h
    obtain ⟨hline, hrest⟩ := h
    obtain ⟨notices, hrun⟩ :=
      run_addLine base (fun r hr => hline r (Option.mem_toList.mpr hr)) earlier d
    obtain ⟨notices', hrun'⟩ := ih hrest earlier _
    refine ⟨notices ++ notices', ?_⟩
    rw [List.forM_cons, Action.run_bind_of_no_calls hrun hrun', placements_append,
      List.foldl_append]

theorem run_addReport (base : Base) {report : Report} (hstop : report.stop = none)
    (h : ∀ r ∈ report.records, r.Short) (earlier : List Call) (d : Diagnosis) :
    ∃ notices, (addReport base report).run earlier d =
      ⟨.ok (), (placements base report.records).foldl keep d, notices, []⟩ := by
  have hend : endReport report.stop = pure () := by rw [hstop, endReport]
  obtain ⟨notices, hrun⟩ := run_addLines base h earlier d
  refine ⟨notices, ?_⟩
  rw [addReport_eq, hend]
  exact (congrArg (Action.run · earlier d) (bind_pure _)).trans hrun

theorem Seen.congr {d : Diagnosis} {x y : Diagnostic} (hx : d.Seen x) (hpath : y.path = x.path)
    (hkey : y.key = x.key) : d.Seen y := by
  rw [Seen, hpath, hkey]
  exact hx

theorem seen_keep (d : Diagnosis) (x y : Diagnostic) :
    (d.keep x).Seen y ↔ (y.path = x.path ∧ y.key = x.key) ∨ d.Seen y := by
  by_cases hx : d.Seen x
  · rw [keep, if_pos hx]
    constructor
    · exact .inr
    · rintro (⟨hpath, hkey⟩ | hy)
      · exact hx.congr hpath hkey
      · exact hy
  · rw [keep, if_neg hx, seen_insert]

theorem Seen.foldl_keep {d : Diagnosis} {y : Diagnostic} (h : d.Seen y) (ds : List Diagnostic) :
    (ds.foldl keep d).Seen y := by
  induction ds generalizing d with
  | nil => exact h
  | cons x ds ih => exact ih ((seen_keep d x y).mpr (.inr h))

theorem seen_foldl_keep_of_mem (d : Diagnosis) {ds : List Diagnostic} {x : Diagnostic}
    (h : x ∈ ds) : (ds.foldl keep d).Seen x := by
  induction ds generalizing d with
  | nil => cases h
  | cons y ds ih =>
    rcases List.mem_cons.mp h with rfl | h
    · have hx : (d.keep x).Seen x := (seen_keep d x x).mpr (.inl ⟨rfl, rfl⟩)
      exact hx.foldl_keep ds
    · exact ih (d.keep y) h

theorem foldl_keep_of_seen {d : Diagnosis} {ds : List Diagnostic} (h : ∀ x ∈ ds, d.Seen x) :
    ds.foldl keep d = d := by
  induction ds with
  | nil => rfl
  | cons x ds ih =>
    rw [List.forall_mem_cons] at h
    rw [List.foldl_cons, keep, if_pos h.1, ih h.2]

/-- Records of which all placements were seen leave the diagnosis as it is. -/
theorem run_addRecords_of_seen {base : Base} {d : Diagnosis} {records : List Record}
    (hshort : ∀ r ∈ records, r.Short) (hseen : ∀ x ∈ placements base records, d.Seen x)
    (earlier : List Call) :
    ∃ notices, (addRecords base records).run earlier d = ⟨.ok (), d, notices, []⟩ := by
  refine ⟨dropped d (placements base records), ?_⟩
  rw [run_addRecords base hshort, foldl_keep_of_seen hseen]

/-- Records that come in batches are the records of all batches in a row. -/
theorem forM_addRecords (base : Base) (batches : List (List Record)) :
    (forM batches (addRecords base)) = addRecords base batches.flatten := by
  have hbatch : addRecords base = fun batch => addAll (placements base batch) :=
    funext (addRecords_eq base)
  have hplaced : batches.flatMap (placements base) = placements base batches.flatten := by
    rw [placements, ← List.flatMap_id, List.flatMap_assoc]
    rfl
  rw [hbatch, forM_addAll, hplaced]

theorem placements_subset {base : Base} {records records' : List Record}
    (h : records' ⊆ records) : placements base records' ⊆ placements base records := by
  intro x hx
  obtain ⟨r, hr, hx⟩ := List.mem_flatMap.mp hx
  exact List.mem_flatMap.mpr ⟨r, h hr, hx⟩

/-- A text without an integer that is refused leaves the same diagnosis when it is fed piece by
piece, cut at any line feeds, as when it is fed at once, and a new diagnosis has then the files of a
pass over it. Its records may be fed again, in any batches, and change nothing. -/
theorem addReport_of_pieces (base : Base) {pieces : List Text} {text : Text}
    (hcut : List.intercalate [Text.newline] pieces = text)
    (hstop : (Report.ofText text).stop = none)
    (hshort : ∀ r ∈ (Report.ofText text).records, r.Short) (earlier : List Call)
    (d : Diagnosis) :
    ∃ d' notices,
      (addReport base (.ofText text)).run earlier d = ⟨.ok (), d', notices, []⟩ ∧
      (forM pieces fun piece => addReport base (.ofText piece)).run earlier d =
        ⟨.ok (), d', notices, []⟩ ∧
      (d = empty → (aggregateReport base (.ofText text)).run earlier () =
        ⟨.ok d'.files, (), notices, []⟩) ∧
      ∀ (batches : List (List Record)) (later : List Call),
        (∀ batch ∈ batches, batch ⊆ (Report.ofText text).records) →
        ∃ notices', (forM batches (addRecords base)).run later d' = ⟨.ok (), d', notices', []⟩ := by
  obtain ⟨notices, hrun⟩ := run_addReport base hstop hshort earlier d
  refine ⟨_, notices, hrun, ?_, ?_, ?_⟩
  · rw [forM_addReport, hcut]
    exact hrun
  · rintro rfl
    exact run_found hrun
  · intro batches later hbatches
    have hagain : batches.flatten ⊆ (Report.ofText text).records := by
      intro r hr
      obtain ⟨batch, hbatch, hr⟩ := List.mem_flatten.mp hr
      exact hbatches batch hbatch hr
    rw [forM_addRecords]
    apply run_addRecords_of_seen
    · exact fun r hr => hshort r (hagain hr)
    · exact fun x hx => seen_foldl_keep_of_mem d (placements_subset hagain hx)

/-- An error in a file, as it is told on one line. -/
def toldIn (fileName : Text) : Text :=
  (["\x7b\"message\":\x7b", "\"level\":\"error\",", "\"message\":\"no\",", "\"spans\":[\x7b",
    "\"file_name\":\"", fileName, "\",", "\"line_start\":1,", "\"line_end\":1,",
    "\"column_start\":1,", "\"column_end\":2,", "\"byte_start\":0,", "\"byte_end\":1,",
    "\"is_primary\":true", "\x7d]\x7d\x7d"] : List Text).flatten

theorem addReport_of_pieces_toldIn :
    let base : Base := ⟨.ofText "/", .ofText "/ws"⟩
    let pieces := [toldIn "a" ++ Text.newline :: "Compiling", toldIn "b", toldIn "a"]
    let text := List.intercalate [Text.newline] pieces
    let records := (Report.ofText text).records
    ((Report.ofText text).stop = none ∧ ∀ r ∈ records, r.Short) ∧
      ∃ d' notices,
        (addReport base (.ofText text)).run [] empty = ⟨.ok (), d', notices, []⟩ ∧
        (forM pieces fun piece => addReport base (.ofText piece)).run [] empty =
          ⟨.ok (), d', notices, []⟩ ∧
        (aggregateReport base (.ofText text)).run [] () = ⟨.ok d'.files, (), notices, []⟩ ∧
        (∃ notices', (forM [records.reverse, records ++ records] (addRecords base)).run [] d' =
          ⟨.ok (), d', notices', []⟩) ∧
        d'.files.entries.map (fun entry => (entry.1, entry.2.length)) =
          [(.ofText "/ws/a", 1), (.ofText "/ws/b", 1)] := by
  intro base pieces text records
  have hcut : List.intercalate [Text.newline] pieces = text := rfl
  have hstop : (Report.ofText text).stop = none := by decide +kernel
  have hshort : ∀ r ∈ records, r.Short := by decide +kernel
  have hentries : ∀ done, (addReport base (.ofText text)).run [] empty = done →
      done.state.files.entries.map (fun entry => (entry.1, entry.2.length)) =
        [(.ofText "/ws/a", 1), (.ofText "/ws/b", 1)] := by
    rintro _ rfl
    decide +kernel
  obtain ⟨d', notices, hrun, hpieces, hpass, hagain⟩ :=
    addReport_of_pieces base hcut hstop hshort [] empty
  have hbatches : ∀ rs : List Record, ∀ batch ∈ [rs.reverse, rs ++ rs], batch ⊆ rs := by
    intro rs batch hbatch
    simp only [List.mem_cons, List.not_mem_nil, or_false] at hbatch
    rcases hbatch with rfl | rfl
    · exact fun r hr => List.mem_reverse.mp hr
    · exact fun r hr => (List.mem_append.mp hr).elim id id
  exact ⟨⟨hstop, hshort⟩, d', notices, hrun, hpieces, hpass rfl, hagain _ [] (hbatches records),
    hentries _ hrun⟩

end CargoReport.Diagnosis
