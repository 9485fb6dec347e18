import CargoReport.Json.Reader

namespace CargoReport

inductive Step where
  | field (name : Text)
  | index (i : Nat)
  deriving DecidableEq, Repr

/-- What a check can find. -/
inductive Defect where
  | missing
  | notObject
  | notText
  | notList
  | notInteger
  | badInteger
  | hugeInteger
  | fractionalInteger
  | infiniteInteger
  | brokenText
  | notFlag
  | badFlag
  | badDocument
  | tooDeep
  deriving DecidableEq, Repr

structure Issue where
  location : List Step
  defect : Defect
  deriving DecidableEq, Repr

/-- A value that passed its check, or what was found instead. -/
inductive Checked (α : Type) where
  | valid (value : α)
  | invalid (issues : List Issue)
  deriving DecidableEq, Repr

namespace Checked

variable {α β : Type}

def map (f : α → β) : Checked α → Checked β
  | .valid a => .valid (f a)
  | .invalid issues => .invalid issues

/-- Both parts, or the issues of the first and then those of the second. -/
def both : Checked α → Checked β → Checked (α × β)
  | .valid a, .valid b => .valid (a, b)
  | .valid _, .invalid issues => .invalid issues
  | .invalid issues, .valid _ => .invalid issues
  | .invalid issues, .invalid more => .invalid (issues ++ more)

instance : Applicative Checked where
  pure := .valid
  map := map
  seq f a := (f.both (a ())).map fun (g, x) => g x

def reject (defect : Defect) : Checked α := .invalid [⟨[], defect⟩]

/-- The check of a part, its issues seen from the whole. -/
def within (step : Step) : Checked α → Checked α
  | .valid a => .valid a
  | .invalid issues => .invalid (issues.map fun i => { i with location := step :: i.location })

def toOption : Checked α → Option α
  | .valid a => some a
  | .invalid _ => none

def issues : Checked α → List Issue
  | .valid _ => []
  | .invalid issues => issues

/-- The elements of a list from the index `i` on, each with the issues at its index. -/
def collect (i : Nat) : List (Checked α) → Checked (List α)
  | [] => .valid []
  | c :: rest => ((c.within (.index i)).both (collect (i + 1) rest)).map fun (a, as) => a :: as

@[simp] theorem map_valid (f : α → β) (a : α) : (valid a).map f = valid (f a) := rfl

@[simp] theorem map_invalid (f : α → β) (is : List Issue) :
    (invalid is : Checked α).map f = invalid is := rfl

@[simp] theorem within_valid (step : Step) (a : α) : (valid a).within step = valid a := rfl

@[simp] theorem both_valid (a : α) (b : β) : (valid a).both (valid b) = valid (a, b) := rfl

@[simp] theorem collect_map_valid (i : Nat) (as : List α) :
    collect i (as.map valid) = valid as := by
  induction as generalizing i with
  | nil => rfl
  | cons a rest ih => simp [collect, ih]

def fault? : Checked α → Option (List Issue)
  | .valid _ => none
  | .invalid issues => some issues

@[simp] theorem fault?_valid (a : α) : (valid a).fault? = none := rfl

@[simp] theorem fault?_invalid (issues : List Issue) :
    (invalid issues : Checked α).fault? = some issues := rfl

theorem fault?_eq_some_iff {c : Checked α} {issues : List Issue} :
    c.fault? = some issues ↔ c = .invalid issues := by
  cases c with
  | valid a => simp
  | invalid issues => simp

@[simp] theorem fault?_map (f : α → β) (c : Checked α) : (f <$> c).fault? = c.fault? := by
  cases c <;> rfl

theorem fault?_seq {f f' : Checked (α → β)} {c c' : Checked α} (hf : f.fault? = f'.fault?)
    (hc : c.fault? = c'.fault?) : (f <*> c).fault? = (f' <*> c').fault? := by
  cases f <;> cases f' <;> cases c <;> cases c' <;> simp_all [Seq.seq, both, map]

theorem map_eq_valid_iff {f : α → β} {c : Checked α} {b : β} :
    f <$> c = .valid b ↔ ∃ a, c = .valid a ∧ f a = b := by
  cases c with
  | valid a => simp [Functor.map, map]
  | invalid issues => simp [Functor.map, map]

theorem seq_eq_valid_iff {f : Checked (α → β)} {c : Checked α} {b : β} :
    f <*> c = .valid b ↔ ∃ g a, f = .valid g ∧ c = .valid a ∧ g a = b := by
  cases f <;> cases c <;> simp [Seq.seq, both, map]

def text : Json → Checked Text
  | .str t => .valid t
  | _ => reject .notText

/-- Null or a value. -/
def optional (check : Json → Checked α) : Json → Checked (Option α)
  | .null => .valid none
  | v => (check v).map some

def list (check : Json → Checked α) : Json → Checked (List α)
  | .arr vs => collect 0 (vs.map check)
  | _ => reject .notList

/-- The integer that a double is, short of 64 bits. -/
def shortInt? (x : Double) : Option Int := do
  let z ← x.toInt?
  if z.natAbs < Nat.pow 2 63 then some z else none

def integerOfDouble (x : Double) : Checked Int :=
  match x, x.toInt? with
  | .finite .., some z => if z.natAbs < Nat.pow 2 63 then .valid z else reject .hugeInteger
  | .finite .., none => reject .fractionalInteger
  | _, _ => reject .infiniteInteger

def integerOfText (signCounts : Bool) (t : Text) : Checked Int :=
  if t.any Text.isSurrogate then reject .brokenText
  else if Decimal.beginsOverlong signCounts t then reject .hugeInteger
  else
    match Decimal.ofLoose? signCounts t with
    | some z => .valid z
    | none => reject .badInteger

/-- An integer, or a flag, double or text that stands for one. -/
def integerWithin (limits : Json.Limits) : Json → Checked Int
  | .int z => .valid z
  | .bool b => .valid (if b then 1 else 0)
  | .float x => integerOfDouble x
  | .str t => integerOfText limits.signCounts t
  | _ => reject .notInteger

/-- An integer by the strict limits, where no host says others. -/
def integer : Json → Checked Int := integerWithin .strict

def trueWords : List Text := ["1", "on", "t", "true", "y", "yes"]

def falseWords : List Text := ["0", "off", "f", "false", "n", "no"]

def flagOfInt (z : Int) : Checked Bool :=
  if z = 0 then .valid false else if z = 1 then .valid true else reject .badFlag

def flag : Json → Checked Bool
  | .bool b => .valid b
  | .int z => if -Int.pow 2 63 ≤ z ∧ z < Int.pow 2 63 then flagOfInt z else reject .notFlag
  | .float x =>
    match shortInt? x with
    | some z => flagOfInt z
    | none => reject .notFlag
  | .str t =>
    if t.any Text.isSurrogate then reject .brokenText
    else if t.lowerAscii ∈ trueWords then .valid true
    else if t.lowerAscii ∈ falseWords then .valid false
    else reject .badFlag
  | _ => reject .notFlag

def object (check : List (Text × Json) → Checked α) : Json → Checked α
  | .obj members => check members
  | _ => reject .notObject

/-- A member that has to be there. -/
def required (members : List (Text × Json)) (name : Text)
    (check : Json → Checked α) : Checked α :=
  match Json.get? members name with
  | some v => (check v).within (.field name)
  | none => (reject .missing).within (.field name)

/-- A member with a value to take if it is absent. -/
def withDefault (members : List (Text × Json)) (name : Text) (default : α)
    (check : Json → Checked α) : Checked α :=
  match Json.get? members name with
  | some v => (check v).within (.field name)
  | none => .valid default

/-- A member that may be absent or null. -/
def possible (members : List (Text × Json)) (name : Text)
    (check : Json → Checked α) : Checked (Option α) :=
  withDefault members name none (optional check)

theorem required_eq {members : List (Text × Json)} {name : Text}
    {check : Json → Checked α} {v : Json} (h : Json.get? members name = some v) :
    required members name check = (check v).within (.field name) := by
  simp [required, h]

def document (limits : Json.Limits) (check : Json → Checked α) (t : Text) : Checked α :=
  match Json.read limits t with
  | .ok v => check v
  | .error _ => reject .badDocument

end Checked
end CargoReport
