import CargoReport.Cargo
import CargoReport.Proofs.Action
import CargoReport.Proofs.Report.Stopping

namespace CargoReport

variable {σ : Type}

namespace Line

/-- Reads one line: a record is what it comes to, and a line that is passed over leaves a notice. -/
def toAction (t : Text) : Action σ (Option Record) := do
  let line ← Action.ofExcept ((read t).mapError .overlong)
  forM line.skip?.toList fun why => Action.note (.skipped why)
  return line.record?

theorem run_toAction_of_ok {t : Text} {line : Line} (h : read t = .ok line) (earlier : List Call)
    (s : σ) :
    (toAction t).run earlier s =
      ⟨.ok line.record?, s, (line.skip?.map .skipped).toList, []⟩ := by
  rw [toAction, h]
  cases line <;> rfl

theorem toAction_of_error {t : Text} {overlong : Overlong} (h : read t = .error overlong) :
    (toAction t : Action σ (Option Record)) = Action.stop (.overlong overlong) := by
  rw [toAction, h]
  rfl

/-- The records of a line, of which there is at most one. -/
def yields (t : Text) : List Record :=
  match ((toAction t).run [] ()).result with
  | .ok r? => r?.toList
  | .error _ => []

/-- The notices of a line. -/
def notes (t : Text) : List Notice := ((toAction t).run [] ()).notices

theorem yields_of_ok {t : Text} {line : Line} (h : read t = .ok line) :
    yields t = line.record?.toList := by
  rw [yields, run_toAction_of_ok h]

theorem notes_of_ok {t : Text} {line : Line} (h : read t = .ok line) :
    notes t = (line.skip?.map .skipped).toList := by
  rw [notes, run_toAction_of_ok h]

/-- An object is a record, or its message is refused. -/
theorem ofMembers_cases (members : List (Text × Json)) :
    (∃ r, ofMembers members = .record r) ∨
      ∃ issues, ofMembers members = .skipped (.badMessage issues) := by
  unfold ofMembers
  split
  · split <;> exact .inl ⟨_, rfl⟩
  · split
    · exact .inl ⟨_, rfl⟩
    · exact .inr ⟨_, rfl⟩

theorem ofMembers_ne_blank (members : List (Text × Json)) : ofMembers members ≠ .blank := by
  rcases ofMembers_cases members with ⟨r, hr⟩ | ⟨issues, hissues⟩
  · simp [hr]
  · simp [hissues]

theorem read_eq_blank_iff (t : Text) : read t = .ok .blank ↔ t.strip = [] := by
  unfold read
  by_cases hs : t.strip = []
  · simp [hs]
  · simp only [hs, if_false, iff_false]
    split <;> simp [ofMembers_ne_blank]

/-- What can become of a line. -/
inductive Fate where
  | blank
  | record
  | skipped

def Fate.Of (t : Text) : Fate → Prop
  | blank => t.strip = [] ∧ (toAction t).run [] () = ⟨.ok none, (), [], []⟩
  | record => t.strip ≠ [] ∧ ∃ r, (toAction t).run [] () = ⟨.ok (some r), (), [], []⟩
  | skipped => t.strip ≠ [] ∧ ∃ notice : Notice, notice.level = .debug ∧
      (toAction t).run [] () = ⟨.ok none, (), [notice], []⟩

/-- A line that can be read has one fate. -/
theorem existsUnique_fate {t : Text} (h : Readable t) : ∃! fate : Fate, fate.Of t := by
  obtain ⟨line, hline⟩ := (readable_iff t).mp h
  have hrun := run_toAction_of_ok hline [] ()
  have hblank := read_eq_blank_iff t
  rw [hline] at hblank
  cases line with
  | blank =>
    have hs : t.strip = [] := hblank.mp rfl
    refine ⟨.blank, ⟨hs, hrun⟩, ?_⟩
    rintro (_ | _ | _) hfate
    · rfl
    · exact absurd hs hfate.1
    · exact absurd hs hfate.1
  | record r =>
    have hs : t.strip ≠ [] := fun he => nomatch hblank.mpr he
    refine ⟨.record, ⟨hs, r, hrun⟩, ?_⟩
    rintro (_ | _ | _) hfate
    · exact absurd hfate.1 hs
    · rfl
    · obtain ⟨-, notice, -, hskipped⟩ := hfate
      simp [hrun, skip?] at hskipped
  | skipped why =>
    have hs : t.strip ≠ [] := fun he => nomatch hblank.mpr he
    refine ⟨.skipped, ⟨hs, .skipped why, rfl, hrun⟩, ?_⟩
    rintro (_ | _ | _) hfate
    · exact absurd hfate.1 hs
    · obtain ⟨-, r, hrecord⟩ := hfate
      simp [hrun, record?] at hrecord
    · rfl

/-- A line leaves one thing unless it is blank. -/
theorem length_yields_add_length_notes {t : Text} (h : Readable t) :
    (yields t).length + (notes t).length = if t.strip = [] then 0 else 1 := by
  obtain ⟨fate, hfate, -⟩ := existsUnique_fate h
  cases fate with
  | blank =>
    obtain ⟨hs, hrun⟩ := hfate
    simp [yields, notes, hrun, hs]
  | record =>
    obtain ⟨hs, r, hrun⟩ := hfate
    simp [yields, notes, hrun, hs]
  | skipped =>
    obtain ⟨hs, notice, -, hrun⟩ := hfate
    simp [yields, notes, hrun, hs]

end Line

namespace Report

/-- Reads lines in their order, and hands each record on before the next line is read. -/
def feed (f : Record → Action σ Unit) (lines : List Text) : Action σ Unit :=
  forM lines fun line => do
    let r? ← Line.toAction line
    forM r?.toList f

theorem feed_append (f : Record → Action σ Unit) (lines more : List Text) :
    feed f (lines ++ more) = (feed f lines >>= fun _ => feed f more) :=
  List.forM_append

theorem feed_cons_of_ok (f : Record → Action σ Unit) {t : Text} {line : Line}
    (h : Line.read t = .ok line) (rest : List Text) :
    feed f (t :: rest) = (do
      forM line.skip?.toList fun why => Action.note (.skipped why)
      forM line.record?.toList f
      feed f rest) := by
  rw [feed, List.forM_cons, Line.toAction, h]
  simp only [Except.mapError, Action.ofExcept, pure_bind, bind_assoc]
  rfl

/-- What stands after a line that cannot be read is not looked at. -/
theorem feed_cons_of_error (f : Record → Action σ Unit) {t : Text} {overlong : Overlong}
    (h : Line.read t = .error overlong) (rest : List Text) :
    feed f (t :: rest) = Action.stop (.overlong overlong) := by
  rw [feed, List.forM_cons, Line.toAction_of_error h]
  rfl

theorem flatMap_of_read {α : Type} {f : Text → List α} {g : Line → Option α}
    (hfg : ∀ t line, Line.read t = .ok line → f t = (g line).toList) {lines : List Text}
    (h : ∀ line ∈ lines, Line.Readable line) :
    lines.flatMap f = (ofLines lines).lines.filterMap g := by
  induction lines with
  | nil => rfl
  | cons t rest ih =>
    rw [List.forall_mem_cons] at h
    obtain ⟨line, hline⟩ := (Line.readable_iff t).mp h.1
    rw [List.flatMap_cons, hfg t line hline, ih h.2, ofLines, hline]
    cases hg : g line <;> simp [hg]

theorem flatMap_yields {lines : List Text} (h : ∀ line ∈ lines, Line.Readable line) :
    lines.flatMap Line.yields = (ofLines lines).records :=
  flatMap_of_read (fun _ _ => Line.yields_of_ok) h

theorem flatMap_notes {lines : List Text} (h : ∀ line ∈ lines, Line.Readable line) :
    lines.flatMap Line.notes = ((ofLines lines).lines.filterMap Line.skip?).map .skipped := by
  rw [List.map_filterMap]
  exact flatMap_of_read (fun _ _ => Line.notes_of_ok) h

/-- The lines that are not blank are as many as the records and the notices. -/
theorem countP_strip_ne_nil {lines : List Text} (h : ∀ line ∈ lines, Line.Readable line) :
    lines.countP (fun line => line.strip ≠ []) =
      (lines.flatMap Line.yields).length + (lines.flatMap Line.notes).length := by
  induction lines with
  | nil => rfl
  | cons t rest ih =>
    rw [List.forall_mem_cons] at h
    have hone := Line.length_yields_add_length_notes h.1
    rw [List.countP_cons, ih h.2, List.flatMap_cons, List.flatMap_cons, List.length_append,
      List.length_append]
    by_cases hs : t.strip = []
    · rw [if_pos hs] at hone
      simp only [hs, ne_eq, not_true_eq_false, decide_false, Bool.false_eq_true, if_false]
      omega
    · rw [if_neg hs] at hone
      simp only [hs, ne_eq, not_false_eq_true, decide_true, if_true]
      omega

/-- What the records are made into comes among the notices in the order of the lines. -/
theorem run_feed_note (mark : Record → Notice) {lines : List Text}
    (h : ∀ line ∈ lines, Line.Readable line) (earlier : List Call) (s : σ) :
    (feed (fun r => Action.note (mark r)) lines).run earlier s =
      ⟨.ok (), s, lines.flatMap fun line => Line.notes line ++ (Line.yields line).map mark,
        []⟩ := by
  induction lines with
  | nil => rfl
  | cons t rest ih =>
    rw [List.forall_mem_cons] at h
    obtain ⟨line, hline⟩ := (Line.readable_iff t).mp h.1
    have hstep : (do forM (← Line.toAction t).toList fun r => Action.note (mark r) :
        Action σ Unit).run earlier s =
          ⟨.ok (), s, Line.notes t ++ (Line.yields t).map mark, []⟩ := by
      have hmarks := Action.run_forM_note mark line.record?.toList earlier s
      rw [Line.notes_of_ok hline, Line.yields_of_ok hline]
      exact Action.run_bind_of_no_calls
        (f := fun r? => forM r?.toList fun r => Action.note (mark r))
        (Line.run_toAction_of_ok hline earlier s) hmarks
    have hrest := ih h.2
    rw [feed] at hrest
    rw [feed, List.forM_cons, Action.run_bind_of_no_calls hstep hrest]
    rfl

def toExcept (r : Report) : Except Fault (List Record) :=
  match r.stop with
  | some overlong => .error (.overlong overlong)
  | none => .ok r.records

theorem toExcept_eq_ok_iff (r : Report) (rs : List Record) :
    r.toExcept = .ok rs ↔ r.stop = none ∧ r.records = rs := by
  rw [toExcept]
  cases r.stop with
  | none => simp
  | some overlong => simp

theorem run_toAction (r : Report) (earlier : List Call) :
    r.toAction.run earlier () =
      ⟨r.toExcept, (), (r.lines.filterMap Line.skip?).map .skipped, []⟩ := by
  have hnotes := Action.run_forM_note (σ := Unit) Notice.skipped (r.lines.filterMap Line.skip?)
    earlier ()
  rw [toAction, toExcept, Action.run_bind_of_no_calls hnotes rfl]
  cases r.stop <;> simp [Action.run_pure]

theorem result_toAction (r : Report) (earlier : List Call) :
    (r.toAction.run earlier ()).result = r.toExcept := by
  rw [run_toAction]

/-- Every line of a report that is read to its end is either blank and leaves nothing, or a record
and leaves no notice, or no record and leaves one notice for those who look for faults. Records and
notices come in the order of the lines, also among one another, and so there are as many of them as
there are lines that are not blank. -/
theorem ofText_accounts_for_lines {text : Text} {earlier : List Call} {records : List Record}
    (h : ((ofText text).toAction.run earlier ()).result = .ok records) :
    let lines := text.splitOn Text.newline
    let notices := ((ofText text).toAction.run earlier ()).notices
    (∀ line ∈ lines, ∃! fate : Line.Fate, fate.Of line) ∧
    records = lines.flatMap Line.yields ∧ notices = lines.flatMap Line.notes ∧
    (∀ mark : Record → Notice,
      ((feed (fun r => Action.note (mark r)) lines).run earlier ()).notices =
        lines.flatMap fun line => Line.notes line ++ (Line.yields line).map mark) ∧
    lines.countP (fun line => line.strip ≠ []) = records.length + notices.length := by
  intro lines notices
  obtain ⟨hstop, hrecords⟩ := (toExcept_eq_ok_iff _ _).mp ((result_toAction _ _).symm.trans h)
  have hread : ∀ line ∈ lines, Line.Readable line := (stop_ofLines_eq_none_iff lines).mp hstop
  have hyields : records = lines.flatMap Line.yields := by
    rw [flatMap_yields hread, ← hrecords]
    rfl
  have hnotes : notices = lines.flatMap Line.notes := by
    rw [flatMap_notes hread]
    exact congrArg Outcome.notices (run_toAction _ earlier)
  refine ⟨fun line hline => Line.existsUnique_fate (hread line hline), hyields, hnotes, ?_, ?_⟩
  · intro mark
    rw [run_feed_note mark hread]
  · rw [countP_strip_ne_nil hread, hyields, hnotes]

/-- A line of blanks of several kinds, two records, and between them what a build script says. -/
def between : Text :=
  List.intercalate [Text.newline]
    [[0x20, 0x3000, 0x0D], "\x7b\x7d", "Compiling", "\x7b\"reason\":1\x7d"]

theorem ofText_accounts_for_lines_between :
    ∃ records, ((ofText between).toAction.run [] ()).result = .ok records ∧
      records = (between.splitOn Text.newline).flatMap Line.yields ∧ records.length = 2 ∧
      ((ofText between).toAction.run [] ()).notices.length = 1 := by
  have hlength : ((ofText between).toAction.run [] ()).result.toOption.map List.length =
      some 2 := by decide +kernel
  cases hr : ((ofText between).toAction.run [] ()).result with
  | error fault => simp [hr, Except.toOption] at hlength
  | ok records =>
    obtain ⟨-, hrecords, -, -, hcount⟩ := ofText_accounts_for_lines hr
    have hlines : (between.splitOn Text.newline).countP (fun line => line.strip ≠ []) = 3 := by
      decide +kernel
    have htwo : records.length = 2 := by simpa [hr, Except.toOption] using hlength
    exact ⟨records, rfl, hrecords, htwo, by omega⟩

end Report
end CargoReport
