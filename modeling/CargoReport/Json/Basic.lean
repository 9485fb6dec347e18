import CargoReport.Double
import CargoReport.Text.Quoted

namespace CargoReport

inductive Json where
  | null
  | bool (value : Bool)
  | int (value : Int)
  | float (value : Double)
  | str (value : Text)
  | arr (elements : List Json)
  | obj (members : List (Text × Json))

namespace Json

inductive Kind where
  | null
  | bool
  | int
  | float
  | string
  | array
  | object
  deriving DecidableEq, Repr

def Kind.name : Kind → Text
  | .null => "NoneType"
  | .bool => "bool"
  | .int => "int"
  | .float => "float"
  | .string => "str"
  | .array => "list"
  | .object => "dict"

def kind : Json → Kind
  | .null => .null
  | .bool _ => .bool
  | .int _ => .int
  | .float _ => .float
  | .str _ => .string
  | .arr _ => .array
  | .obj _ => .object

/-- The value of the last member with a name. -/
def get? : List (Text × Json) → Text → Option Json
  | [], _ => none
  | (key, value) :: rest, name =>
    match get? rest name with
    | some later => some later
    | none => if key = name then some value else none

/-- The names of an object, each at its first place. -/
def names : List (Text × Json) → List Text
  | [] => []
  | (key, _) :: rest => key :: (names rest).filter (· ≠ key)

/-- How many values a value is made of, itself included. -/
def size : Json → Nat
  | .arr elements => 1 + sizeElements elements
  | .obj members => 1 + sizeMembers members
  | _ => 1
where
  sizeElements : List Json → Nat
    | [] => 0
    | v :: rest => size v + sizeElements rest
  sizeMembers : List (Text × Json) → Nat
    | [] => 0
    | (_, v) :: rest => size v + sizeMembers rest

mutual

/-- A value inside another one: texts stand in quotes. -/
def shownInside : Json → Text
  | .null => "None"
  | .bool b => if b then "True" else "False"
  | .int z => Decimal.ofInt z
  | .float x => x.shown
  | .str t => t.quoted
  | .arr vs => Text.ofString "[" ++ shownElements vs ++ Text.ofString "]"
  | .obj members => Text.ofString "\x7b" ++ shownMembers members ++ Text.ofString "\x7d"

def shownElements : List Json → Text
  | [] => []
  | [v] => shownInside v
  | v :: rest => shownInside v ++ Text.ofString ", " ++ shownElements rest

def shownMembers : List (Text × Json) → Text
  | [] => []
  | [(name, v)] => name.quoted ++ Text.ofString ": " ++ shownInside v
  | (name, v) :: rest =>
    name.quoted ++ Text.ofString ": " ++ shownInside v ++ Text.ofString ", " ++ shownMembers rest

end

/-- A value on its own: a text stands as it is. -/
def shown : Json → Text
  | .str t => t
  | v => shownInside v

inductive Problem where
  | byteOrderMark
  | noValue
  | noName
  | noColon
  | noComma
  | moreData
  | openString
  | controlCharacter
  | badEscape
  | badCodeUnit
  deriving DecidableEq, Repr

def Problem.message : Problem → Text
  | .byteOrderMark => "Unexpected UTF-8 BOM (decode using utf-8-sig)"
  | .noValue => "Expecting value"
  | .noName => "Expecting property name enclosed in double quotes"
  | .noColon => "Expecting ':' delimiter"
  | .noComma => "Expecting ',' delimiter"
  | .moreData => "Extra data"
  | .openString => "Unterminated string starting at"
  | .controlCharacter => "Invalid control character at"
  | .badEscape => "Invalid \\escape"
  | .badCodeUnit => "Invalid \\uXXXX escape"

/-- A place in a text: its line and column from one, and its offset from zero. -/
structure Place where
  line : Nat
  column : Nat
  offset : Nat
  deriving DecidableEq, Repr

def Place.afterText (front : Text) : Place where
  line := 1 + front.count Text.newline
  column := 1 + (front.reverse.takeWhile (· ≠ Text.newline)).length
  offset := front.length

inductive Failure where
  | malformed (problem : Problem) (place : Place)
  | tooDeep
  /-- An integer with more digits than a reader takes. -/
  | overlong (digits : Nat)
  deriving DecidableEq, Repr

def Problem.at (problem : Problem) (place : Place) : Text :=
  problem.message ++ Text.ofString ": line " ++ Decimal.ofNat place.line
    ++ Text.ofString " column " ++ Decimal.ofNat place.column
    ++ Text.ofString " (char " ++ Decimal.ofNat place.offset ++ Text.ofString ")"

end Json
end CargoReport
