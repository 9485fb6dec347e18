import CargoReport.Message.Worklist

namespace CargoReport

/-- What a line of a report says: a compiler message, or anything else with its reason. -/
inductive Record where
  | message (m : Message)
  | other (reason : Option Text)

inductive Skip where
  | notJson (problem : Json.Problem) (place : Json.Place)
  | tooDeep
  | notObject (kind : Json.Kind)
  | badMessage (issues : Nat)
  deriving DecidableEq, Repr

inductive Line where
  | blank
  | record (r : Record)
  | skipped (why : Skip)

structure Overlong where
  digits : Nat
  deriving DecidableEq, Repr

namespace Line

/-- The record that an object is: one with a message, or any other, of which the reason is kept if
it is a text. -/
def ofMembers (members : List (Text × Json)) : Line :=
  match Json.get? members "message" with
  | none =>
    match Json.get? members "reason" with
    | some (.str reason) => .record (.other (some reason))
    | _ => .record (.other none)
  | some v =>
    match Message.ofJson v with
    | .valid m => .record (.message m)
    | .invalid issues => .skipped (.badMessage issues.length)

/-- A line as it is understood, blanks at its ends left out. -/
def read (t : Text) : Except Overlong Line :=
  let t := t.strip
  if t = [] then .ok .blank
  else
    match Json.ofText t with
    | .ok (.obj members) => .ok (ofMembers members)
    | .ok v => .ok (.skipped (.notObject v.kind))
    | .error (.malformed problem place) => .ok (.skipped (.notJson problem place))
    | .error .tooDeep => .ok (.skipped .tooDeep)
    | .error (.overlong digits) => .error ⟨digits⟩

def record? : Line → Option Record
  | record r => some r
  | _ => none

def skip? : Line → Option Skip
  | skipped why => some why
  | _ => none

theorem read_of_ofText {t : Text} {members : List (Text × Json)}
    (h : Json.ofText t.strip = .ok (.obj members)) : read t = .ok (ofMembers members) := by
  have hne : t.strip ≠ [] := by
    intro hnil
    rw [hnil] at h
    cases h
  simp only [read, hne, if_false, h]

end Line

/-- The lines of a report, up to the one that could not be read. -/
structure Report where
  lines : List Line
  stop : Option Overlong

namespace Report

/-- The lines that are read until one fails. -/
def ofLines : List Text → Report
  | [] => ⟨[], none⟩
  | t :: rest =>
    match Line.read t with
    | .ok line =>
      let report := ofLines rest
      ⟨line :: report.lines, report.stop⟩
    | .error overlong => ⟨[], some overlong⟩

/-- A report as it was captured. Only line feeds end a line. -/
def ofText (t : Text) : Report := ofLines (t.splitOn Text.newline)

def records (r : Report) : List Record := r.lines.filterMap Line.record?

@[simp] theorem ofLines_nil : ofLines [] = ⟨[], none⟩ := rfl

end Report
end CargoReport
