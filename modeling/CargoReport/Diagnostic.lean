import CargoReport.Message.Basic
import CargoReport.Path

namespace CargoReport

inductive Severity where
  | error
  | warning
  | information
  | hint
  deriving DecidableEq, Repr

namespace Severity

/-- The severity of a level. Levels that are not known are errors. -/
def ofLevel (level : Text) : Severity :=
  if level = ("warning" : Text) then .warning
  else if level = ("note" : Text) then .information
  else if level = ("help" : Text) then .hint
  else .error

def toNat : Severity → Nat
  | .error => 0
  | .warning => 1
  | .information => 2
  | .hint => 3

def ofInt? : Int → Option Severity
  | 0 => some .error
  | 1 => some .warning
  | 2 => some .information
  | 3 => some .hint
  | _ => none

@[simp] theorem ofInt?_toNat (s : Severity) : ofInt? s.toNat = some s := by
  cases s <;> rfl

end Severity

/-- A place in a file, both parts from zero. -/
structure Position where
  line : Int
  character : Int
  deriving DecidableEq, Repr

structure Range where
  start : Position
  stop : Position
  deriving DecidableEq, Repr

namespace Range

/-- The stretch of a span, counted from zero. -/
def ofSpan (s : Span) : Range where
  start := ⟨s.lineStart - 1, s.columnStart - 1⟩
  stop := ⟨s.lineEnd - 1, s.columnEnd - 1⟩

/-- The four numbers of a range in the order in which they are written. -/
def coordinates (r : Range) : List Int :=
  [r.start.line, r.start.character, r.stop.line, r.stop.character]

def Printable (r : Range) : Prop := ∀ z ∈ r.coordinates, Decimal.Printable z

instance (r : Range) : Decidable r.Printable := inferInstanceAs (Decidable (∀ _ ∈ _, _))

def text (r : Range) : Text :=
  Text.ofString "(" ++ Decimal.ofInt r.start.line ++ Text.ofString ","
    ++ Decimal.ofInt r.start.character ++ Text.ofString ")-("
    ++ Decimal.ofInt r.stop.line ++ Text.ofString ","
    ++ Decimal.ofInt r.stop.character ++ Text.ofString ")"

def text? (r : Range) : Option Text := if r.Printable then some r.text else none

end Range

structure Diagnostic where
  path : Path
  range : Range
  message : Text
  severity : Severity
  code : Option Text
  source : Text
  deriving DecidableEq, Repr

namespace Diagnostic

/-- What tells diagnostics of one file apart. -/
structure Key where
  code : Option Text
  message : Text
  range : Range
  severity : Severity
  deriving DecidableEq, Repr

def key (d : Diagnostic) : Key := ⟨d.code, d.message, d.range, d.severity⟩

/-- The text that is shown for a message: its level and its own text, and on a second line the
label of the span unless that is empty. -/
def shownText (m : Message) (s : Span) : Text :=
  let text := m.level ++ Text.ofString ": " ++ m.message
  match s.label with
  | none | some [] => text
  | some label => text ++ Text.ofString "\nlabel: " ++ label

def ofMessage (path : Path) (range : Range) (span : Span) (m : Message) : Diagnostic where
  path := path
  range := range
  message := shownText m span
  severity := .ofLevel m.level
  code := m.code.map (·.code)
  source := "cargo"

end Diagnostic
end CargoReport
