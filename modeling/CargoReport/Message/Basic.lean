import CargoReport.Checked

namespace CargoReport

structure Code where
  code : Text
  explanation : Option Text
  deriving DecidableEq, Repr

/-- A stretch of a source file. Lines and columns count from one, bytes from zero. -/
structure Span where
  fileName : Text
  lineStart : Int
  lineEnd : Int
  columnStart : Int
  columnEnd : Int
  byteStart : Int
  byteEnd : Int
  isPrimary : Bool
  label : Option Text
  deriving DecidableEq, Repr

/-- A message. Its level is kept as it was given: compilers use more than four. -/
structure Message where
  level : Text
  message : Text
  rendered : Option Text
  code : Option Code
  spans : List Span
  children : List Message
  deriving Repr

def Code.check : Json → Checked Code :=
  Checked.object fun o =>
    Code.mk <$> Checked.required o "code" Checked.text
      <*> Checked.possible o "explanation" Checked.text

def Span.check : Json → Checked Span :=
  Checked.object fun o =>
    Span.mk <$> Checked.required o "file_name" Checked.text
      <*> Checked.required o "line_start" Checked.integer
      <*> Checked.required o "line_end" Checked.integer
      <*> Checked.required o "column_start" Checked.integer
      <*> Checked.required o "column_end" Checked.integer
      <*> Checked.required o "byte_start" Checked.integer
      <*> Checked.required o "byte_end" Checked.integer
      <*> Checked.required o "is_primary" Checked.flag
      <*> Checked.possible o "label" Checked.text

namespace Message

/-- A message from the members of an object and the check of its children. -/
def ofMembers (o : List (Text × Json)) (children : Json → Checked (List Message)) :
    Checked Message :=
  mk <$> Checked.required o "level" Checked.text
    <*> Checked.required o "message" Checked.text
    <*> Checked.possible o "rendered" Checked.text
    <*> Checked.possible o "code" Code.check
    <*> Checked.withDefault o "spans" [] (Checked.list Span.check)
    <*> Checked.withDefault o "children" [] children

/-- A message with at most `levels` messages in one another; the issues of a child stand at its
place. -/
def checkWithin : (levels : Nat) → Json → Checked Message
  | 0, _ => Checked.reject .tooDeep
  | levels + 1, v => Checked.object (fun o => ofMembers o (Checked.list (checkWithin levels))) v

/-- How many messages may stand in one another. -/
def maxLevels : Nat := 255

def check (v : Json) : Checked Message := checkWithin maxLevels v

mutual

/-- The message and all below it, each before its children and these in order. -/
def preorder : Message → List Message
  | m@⟨_, _, _, _, _, children⟩ => m :: preorderAll children

def preorderAll : List Message → List Message
  | [] => []
  | m :: rest => preorder m ++ preorderAll rest

end

mutual

def size : Message → Nat
  | ⟨_, _, _, _, _, children⟩ => 1 + sizeAll children

def sizeAll : List Message → Nat
  | [] => 0
  | m :: rest => size m + sizeAll rest

end

def turn : List Message → List Message
  | [] => []
  | m :: stack => m.children ++ stack

/-- The messages that are visited from a stack on, in at most `fuel` turns. -/
def visit : (fuel : Nat) → List Message → List Message
  | 0, _ => []
  | _, [] => []
  | fuel + 1, m :: stack => m :: visit fuel (turn (m :: stack))

/-- The messages of a tree in the order of the walk. A tree takes one turn for each of its
messages. -/
def walk (m : Message) : List Message := visit m.size [m]

mutual

theorem length_preorder : ∀ m : Message, m.preorder.length = m.size
  | ⟨_, _, _, _, _, children⟩ => by
    simp [preorder, size, length_preorderAll children, Nat.add_comm]

theorem length_preorderAll : ∀ ms : List Message, (preorderAll ms).length = sizeAll ms
  | [] => rfl
  | m :: rest => by simp [preorderAll, sizeAll, length_preorder m, length_preorderAll rest]

end

theorem preorderAll_append (xs ys : List Message) :
    preorderAll (xs ++ ys) = preorderAll xs ++ preorderAll ys := by
  induction xs with
  | nil => rfl
  | cons m rest ih => simp [preorderAll, ih]

theorem preorder_eq (m : Message) : m.preorder = m :: preorderAll m.children := by
  obtain ⟨_, _, _, _, _, children⟩ := m
  rfl

theorem preorderAll_cons (m : Message) (stack : List Message) :
    preorderAll (m :: stack) = m :: preorderAll (turn (m :: stack)) := by
  rw [turn, preorderAll, preorder_eq, preorderAll_append, List.cons_append]

/-- The messages still to be visited are those of the trees on the stack, from the top down. -/
theorem visit_eq_take (fuel : Nat) (stack : List Message) :
    visit fuel stack = (preorderAll stack).take fuel := by
  induction fuel generalizing stack with
  | zero => simp [visit]
  | succ fuel ih =>
    cases stack with
    | nil => simp [visit, preorderAll]
    | cons m rest => rw [visit, ih, preorderAll_cons, List.take_succ_cons]

theorem walk_eq_preorder (m : Message) : m.walk = m.preorder := by
  rw [walk, visit_eq_take, ← length_preorder]
  simp [preorderAll]

end Message
end CargoReport
