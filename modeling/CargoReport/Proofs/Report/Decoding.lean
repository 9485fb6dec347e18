import CargoReport.Proofs.Json.Dump
import CargoReport.Proofs.Json.ReadBack
import CargoReport.Proofs.Message.Encoded
import CargoReport.Report

namespace CargoReport

namespace Record

/-- The objects that stand for a record. -/
def Encoded : Record → Json → Prop
  | .other none, v => v = .obj []
  | .other (some reason), v => v = .obj [("reason", .str reason)]
  | .message m, v =>
    ∃ node, m.Encoded node ∧ v.Holds [("reason", .str "compiler-message"), ("message", node)]

/-- A line for a record, no deeper than a reader goes. -/
def Written (r : Record) (line : Text) : Prop :=
  ∃ v, r.Encoded v ∧ v.depth ≤ Json.Limits.lenient.depth ∧ v.Written line

def toJson : Record → Json
  | .other none => .obj []
  | .other (some reason) => .obj [("reason", .str reason)]
  | .message m => .obj [("reason", .str "compiler-message"), ("message", m.toJson)]

/-- Every record of texts and integers that can be written has a line. -/
theorem written_dump {r : Record} (h : r.toJson.writable = true)
    (hd : r.toJson.depth ≤ Json.Limits.lenient.depth) : r.Written r.toJson.dump := by
  refine ⟨r.toJson, ?_, hd, Json.written_dump h⟩
  rcases r with m | _ | reason
  · exact ⟨_, m.encoded_toJson, _, rfl, .refl _⟩
  · rfl
  · rfl

theorem ofMembers_of_encoded {r : Record} {v : Json} (h : r.Encoded v) :
    ∃ members, v = .obj members ∧ Line.ofMembers members = .record r := by
  rcases r with m | _ | reason
  · obtain ⟨node, hnode, h⟩ := h
    have hnames : ([("reason" : Text), "message"] : List Text).Nodup := by decide
    obtain ⟨members, rfl, hget⟩ := h.get? hnames
    simp only [List.forall_mem_cons] at hget
    obtain ⟨-, hmessage, -⟩ := hget
    refine ⟨members, rfl, ?_⟩
    simp only [Line.ofMembers, hmessage, Message.ofJson_eq, Message.checkTree_of_encoded hnode]
  · exact ⟨_, h, rfl⟩
  · exact ⟨_, h, rfl⟩

end Record

/-- Nothing, or the carriage return before a line feed. -/
def Line.IsEnding (e : Text) : Prop := e = [] ∨ e = ['\r'.toNat]

theorem Line.strip_append_ending {e : Text} (h : IsEnding e) (line : Text) :
    (line ++ e).strip = line.strip := by
  rcases h with rfl | rfl
  · rw [List.append_nil]
  · exact Text.strip_append_blank (by decide) line

theorem Line.read_append_ending {e : Text} (h : IsEnding e) (line : Text) :
    Line.read (line ++ e) = Line.read line := by
  rw [Line.read, Line.read, strip_append_ending h]

theorem Record.Written.strip {r : Record} {line : Text} (h : r.Written line) :
    line.strip = line := by
  obtain ⟨v, hv, -, hline⟩ := h
  obtain ⟨members, rfl, -⟩ := Record.ofMembers_of_encoded hv
  exact Json.strip_written hline

theorem Record.Written.read {r : Record} {line : Text} (h : r.Written line) :
    Line.read line = .ok (.record r) := by
  have hstrip := h.strip
  obtain ⟨v, hv, hdepth, hline⟩ := h
  obtain ⟨members, rfl, hmembers⟩ := Record.ofMembers_of_encoded hv
  have htext : Json.ofText line.strip = .ok (.obj members) := by
    rw [hstrip, Json.ofText_written hline hdepth]
  rw [Line.read_of_ofText htext, hmembers]

theorem Record.Written.newline_notMem {r : Record} {line : Text} (h : r.Written line) :
    Text.newline ∉ line := by
  obtain ⟨v, -, -, hline⟩ := h
  intro hmem
  exact absurd (hline.oneLine _ hmem) (by decide)

namespace Report

/-- A line that is read and holds no record. -/
def Passed (line : Text) : Prop :=
  Text.newline ∉ line ∧ ∃ l, Line.read line = .ok l ∧ l.record? = none

/-- Lines with these records in their order, and others anywhere between them. -/
inductive Lines : List Record → List Text → Prop
  | nil : Lines [] []
  | record {r : Record} {line ending : Text} {rs : List Record} {lines : List Text} :
      r.Written line → Line.IsEnding ending → Lines rs lines →
      Lines (r :: rs) ((line ++ ending) :: lines)
  | passed {line ending : Text} {rs : List Record} {lines : List Text} :
      Passed line → Line.IsEnding ending → Lines rs lines → Lines rs ((line ++ ending) :: lines)

theorem newline_notMem_append {line ending : Text} (h : Text.newline ∉ line)
    (he : Line.IsEnding ending) : Text.newline ∉ line ++ ending := by
  rw [List.mem_append, not_or]
  refine ⟨h, ?_⟩
  rcases he with rfl | rfl
  · exact List.not_mem_nil
  · decide

theorem Lines.newline_notMem {rs : List Record} {lines : List Text} (h : Lines rs lines) :
    ∀ line ∈ lines, Text.newline ∉ line := by
  induction h with
  | nil => exact fun line hl => by cases hl
  | record hr he _ ih =>
    exact List.forall_mem_cons.mpr ⟨newline_notMem_append hr.newline_notMem he, ih⟩
  | passed hp he _ ih => exact List.forall_mem_cons.mpr ⟨newline_notMem_append hp.1 he, ih⟩

theorem Lines.ofLines {rs : List Record} {lines : List Text} (h : Lines rs lines) :
    (ofLines lines).stop = none ∧ (ofLines lines).records = rs := by
  induction h with
  | nil => exact ⟨rfl, rfl⟩
  | record hr he _ ih =>
    simp only [Report.ofLines, Line.read_append_ending he, hr.read]
    exact ⟨ih.1, congrArg (_ :: ·) ih.2⟩
  | passed hp he _ ih =>
    obtain ⟨-, l, hread, hnone⟩ := hp
    simp only [Report.ofLines, Line.read_append_ending he, hread, records]
    rw [List.filterMap_cons_none hnone]
    exact ih

/-- Reading undoes writing. -/
theorem ofText_of_lines {rs : List Record} {lines : List Text} (h : Lines rs lines) :
    (ofText (List.intercalate [Text.newline] lines)).stop = none ∧
      (ofText (List.intercalate [Text.newline] lines)).records = rs := by
  cases lines with
  | nil =>
    cases h
    exact ⟨rfl, rfl⟩
  | cons line lines =>
    -- No line has a line feed in it, so the text comes apart where it was put together.
    rw [ofText, Text.splitOn_intercalate (List.cons_ne_nil line lines) h.newline_notMem]
    exact h.ofLines

/-- A message with a separator, a quote and a wide code point in its text, and a note below it. -/
def strayQuote : Message where
  level := "failure-note"
  message := [0x2028, Text.doubleQuote, 0x1F600]
  rendered := some [Text.newline]
  code := some ⟨"E0765", none⟩
  spans := [⟨"a.rs", 1, 1, 5, 9, 4, 8, true, some [0x85]⟩]
  children := [⟨"note", "here", none, none, [], []⟩]

theorem ofText_of_lines_between :
    Lines [.message strayQuote, .other none]
        ["test" ++ ['\r'.toNat], (Record.message strayQuote).toJson.dump ++ [],
          (Record.other none).toJson.dump ++ ['\r'.toNat], [] ++ []] ∧
      (ofText (List.intercalate [Text.newline]
          ["test" ++ ['\r'.toNat], (Record.message strayQuote).toJson.dump ++ [],
            (Record.other none).toJson.dump ++ ['\r'.toNat], [] ++ []])).records =
        [.message strayQuote, .other none] := by
  have hmessage : (Record.message strayQuote).Written (Record.message strayQuote).toJson.dump :=
    Record.written_dump (by decide +kernel) (by decide +kernel)
  have hother : (Record.other none).Written (Record.other none).toJson.dump :=
    Record.written_dump (by decide) (by decide)
  have hnoise : Passed "test" :=
    ⟨by decide, .skipped (.notJson .noValue ⟨1, 1, 0⟩), rfl, rfl⟩
  have hblank : Passed [] := ⟨by decide, .blank, rfl, rfl⟩
  have hlines : Lines [.message strayQuote, .other none]
      ["test" ++ ['\r'.toNat], (Record.message strayQuote).toJson.dump ++ [],
        (Record.other none).toJson.dump ++ ['\r'.toNat], [] ++ []] :=
    .passed hnoise (.inr rfl) (.record hmessage (.inl rfl) (.record hother (.inr rfl)
      (.passed hblank (.inl rfl) .nil)))
  exact ⟨hlines, (ofText_of_lines hlines).2⟩

end Report
end CargoReport
