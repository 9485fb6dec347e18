import CargoReport.Proofs.Json.Numeral
import CargoReport.Proofs.Json.Overlong
import CargoReport.Report

namespace CargoReport

/-- A line without an integer that a reader gives up on. -/
def Line.Readable (line : Text) : Prop := ∀ n, Json.ofText line.strip ≠ .error (.overlong n)

theorem Line.readable_iff (line : Text) : Line.Readable line ↔ ∃ l, Line.read line = .ok l := by
  unfold Line.Readable Line.read
  by_cases hs : line.strip = []
  · simp only [hs, if_true]
    exact ⟨fun _ => ⟨_, rfl⟩, fun _ n h => by cases h⟩
  · simp only [hs, if_false]
    rcases Json.ofText line.strip with (⟨problem, place⟩ | _ | n) | v
    · exact ⟨fun _ => ⟨_, rfl⟩, fun _ n h => by cases h⟩
    · exact ⟨fun _ => ⟨_, rfl⟩, fun _ n h => by cases h⟩
    · constructor
      · intro h
        exact absurd rfl (h n)
      · rintro ⟨l, hl⟩
        cases hl
    · refine ⟨fun _ => ?_, fun _ n h => by cases h⟩
      cases v <;> exact ⟨_, rfl⟩

theorem Line.readable_of_isOk {line : Text} (h : (Line.read line).isOk = true) :
    Line.Readable line := by
  rw [Line.readable_iff]
  cases hl : Line.read line with
  | ok l => exact ⟨l, rfl⟩
  | error overlong => simp [hl, Except.isOk, Except.toBool] at h

theorem Line.longRun_of_not_readable {line : Text} (h : ¬ Line.Readable line) :
    ∃ n, Json.LongRun n line := by
  unfold Line.Readable at h
  push Not at h
  obtain ⟨n, hn⟩ := h
  exact ⟨n, (Json.longRun_of_ofText hn).mono (Text.infix_strip line)⟩

theorem Line.read_of_plain {digits : Text} (h : Decimal.Plain digits)
    (hl : Decimal.maxDigits < digits.length) : Line.read digits = .error ⟨digits.length⟩ := by
  have hne : digits ≠ [] := by
    obtain ⟨d, tail, hd, -⟩ := h.exists_cons
    simp [hd]
  have hstrip : digits.strip = digits := by
    obtain ⟨d, tail, hd, hdd⟩ := h.exists_cons
    obtain ⟨front, e, he⟩ := List.eq_nil_or_concat digits |>.resolve_left hne
    rw [List.concat_eq_append] at he
    have hee : Decimal.isDigit e = true := List.all_eq_true.mp h.1 e (by simp [he])
    exact Text.strip_eq_self hd he (Text.isBlank_of_isDigit hdd) (Text.isBlank_of_isDigit hee)
  rw [Line.read, hstrip]
  simp only [hne, if_false, Json.ofText_overlong h hl]

theorem Line.not_readable_of_plain {digits : Text} (h : Decimal.Plain digits)
    (hl : Decimal.maxDigits < digits.length) : ¬ Line.Readable digits := by
  rw [Line.readable_iff, Line.read_of_plain h hl]
  rintro ⟨l, hl⟩
  cases hl

namespace Report

/-- One report after another, which is not read any more if the first one stopped. -/
def andThen (r r' : Report) : Report :=
  match r.stop with
  | none => ⟨r.lines ++ r'.lines, r'.stop⟩
  | some overlong => ⟨r.lines, some overlong⟩

theorem ofLines_append (xs ys : List Text) :
    ofLines (xs ++ ys) = (ofLines xs).andThen (ofLines ys) := by
  induction xs with
  | nil => rfl
  | cons line rest ih =>
    rw [List.cons_append, ofLines, ofLines]
    rcases Line.read line with overlong | l
    · rfl
    · simp only [ih, andThen]
      cases (ofLines rest).stop with
      | none => rfl
      | some overlong => rfl

theorem ofText_append_cons (s t : Text) :
    ofText (s ++ Text.newline :: t) = (ofText s).andThen (ofText t) := by
  rw [ofText, Text.splitOn_append_cons, ofLines_append]
  rfl

theorem stop_andThen_eq_none_iff (r r' : Report) :
    (r.andThen r').stop = none ↔ r.stop = none ∧ r'.stop = none := by
  cases hr : r.stop with
  | none => simp [andThen, hr]
  | some overlong => simp [andThen, hr]

theorem records_andThen {r : Report} (h : r.stop = none) (r' : Report) :
    (r.andThen r').records = r.records ++ r'.records := by
  simp only [andThen, h, records, List.filterMap_append]

theorem stop_ofLines_eq_none_iff (xs : List Text) :
    (ofLines xs).stop = none ↔ ∀ line ∈ xs, Line.Readable line := by
  induction xs with
  | nil => simp
  | cons line rest ih =>
    rw [List.forall_mem_cons, Line.readable_iff, ← ih, ofLines]
    rcases Line.read line with overlong | l
    · simp
    · simp

/-- A report goes on after a line feed if nothing before it was refused, and then its records are
those before and those after. Only an integer with too many digits is refused: it ends the report,
and the records of all later lines are lost. -/
theorem ofText_append_newline (s t : Text) :
    ofText (s ++ Text.newline :: t) = (ofText s).andThen (ofText t) ∧
      ((ofText (s ++ Text.newline :: t)).stop = none ∧
          (ofText (s ++ Text.newline :: t)).records = (ofText s).records ++ (ofText t).records ↔
        ∀ line ∈ (s ++ Text.newline :: t).splitOn Text.newline, Line.Readable line) ∧
      (∀ line, ¬ Line.Readable line → ∃ n, Json.LongRun n line) ∧
      ∀ digits, Decimal.Plain digits → Decimal.maxDigits < digits.length →
        ¬ Line.Readable digits := by
  have happend : ofText (s ++ Text.newline :: t) = (ofText s).andThen (ofText t) := by
    unfold ofText
    rw [Text.splitOn_append_cons, ofLines_append]
  have hstop := stop_ofLines_eq_none_iff ((s ++ Text.newline :: t).splitOn Text.newline)
  refine ⟨happend, ?_, fun _ => Line.longRun_of_not_readable, fun _ => Line.not_readable_of_plain⟩
  constructor
  · rintro ⟨hnone, -⟩
    exact hstop.mp hnone
  · intro hall
    refine ⟨hstop.mpr hall, ?_⟩
    -- Lines of the first part are lines of the whole.
    have hs : (ofText s).stop = none := by
      apply (stop_ofLines_eq_none_iff _).mpr
      intro line hline
      apply hall
      rw [Text.splitOn_append_cons]
      exact List.mem_append_left _ hline
    simp only [happend, andThen, hs, records, List.filterMap_append]

/-- A line of 4301 ones keeps the record on the line after it from being read. -/
theorem ofText_append_newline_ones :
    ¬ ((ofText (List.replicate 4301 '1'.toNat ++ Text.newline ::
            Text.ofString "\x7b\"reason\": \"x\"\x7d")).stop = none ∧
        (ofText (List.replicate 4301 '1'.toNat ++ Text.newline ::
            Text.ofString "\x7b\"reason\": \"x\"\x7d")).records =
          (ofText (List.replicate 4301 '1'.toNat)).records ++
            (ofText (Text.ofString "\x7b\"reason\": \"x\"\x7d")).records) := by
  obtain ⟨-, hiff, -, hlong⟩ := ofText_append_newline (List.replicate 4301 '1'.toNat)
    (Text.ofString "\x7b\"reason\": \"x\"\x7d")
  have hplain : Decimal.Plain (List.replicate 4301 '1'.toNat) := Decimal.plain_ones 4300
  rw [hiff, Text.splitOn_append_cons]
  intro h
  refine hlong _ hplain ?_ (h _ (List.mem_append_left _ ?_))
  · rw [List.length_replicate]
    decide
  · rw [Text.splitOn_of_notMem hplain.newline_notMem]
    exact List.mem_singleton_self _

end Report
end CargoReport
