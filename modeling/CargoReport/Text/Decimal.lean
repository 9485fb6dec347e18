import CargoReport.Text.Basic

namespace CargoReport.Decimal

/-- The most decimal digits of an integer that is read or printed. -/
def maxDigits : Nat := 4300

def isDigit (c : CodePoint) : Bool := '0'.toNat ≤ c && c ≤ '9'.toNat

/-- A digit that a number of several digits may begin with. -/
def isLeadingDigit (c : CodePoint) : Bool := '1'.toNat ≤ c && c ≤ '9'.toNat

def ofNat (n : Nat) : Text := (Nat.toDigits 10 n).map Char.toNat

def ofInt : Int → Text
  | .ofNat n => ofNat n
  | .negSucc n => '-'.toNat :: ofNat (n + 1)

def toNat (digits : Text) : Nat := digits.foldl (fun n c => 10 * n + (c - '0'.toNat)) 0

def splitMinus : Text → Bool × Text
  | [] => (false, [])
  | c :: rest => if c = '-'.toNat then (true, rest) else (false, c :: rest)

def toNat? (digits : Text) : Option Nat :=
  if digits.all isDigit ∧ (digits.head?.any isLeadingDigit ∨ digits = ("0" : Text)) then
    some (toNat digits)
  else none

/-- The length that is held against `maxDigits`, in which a minus sign may count. -/
def counted (signCounts negative : Bool) (digits : Text) : Nat :=
  digits.length + (signCounts && negative).toNat

@[simp] theorem counted_false (negative : Bool) (digits : Text) :
    counted false negative digits = digits.length := rfl

def toInt? (signCounts : Bool) (t : Text) : Option Int :=
  let (negative, digits) := splitMinus t
  if maxDigits < counted signCounts negative digits then none
  else (toNat? digits).map fun n => if negative then -n else n

/-- Whether an integer with too many digits stands in front, whatever follows it. -/
def beginsOverlong (signCounts : Bool) (t : Text) : Bool :=
  let (negative, rest) := splitMinus t
  let digits := rest.takeWhile isDigit
  digits.head?.any isLeadingDigit && maxDigits < counted signCounts negative digits

/-- How many digits an integer has, without its sign. -/
def digitCount (z : Int) : Nat := (ofNat z.natAbs).length

def Printable (z : Int) : Prop := digitCount z ≤ maxDigits

instance (z : Int) : Decidable (Printable z) := inferInstanceAs (Decidable (_ ≤ _))

theorem ofNat_ne_nil (n : Nat) : ofNat n ≠ [] := by
  simp [ofNat, Nat.toDigits_ne_nil]

def underscore : CodePoint := '_'.toNat

/-- The text without a plus sign in front, which no minus sign may follow. -/
def dropPlus? : Text → Option Text
  | [] => some []
  | c :: rest =>
    if c ≠ '+'.toNat then some (c :: rest)
    else if rest.head? = some '-'.toNat then none
    else some rest

/-- The text without a fraction of zeros; one with other digits stays. -/
def dropZeroFraction (t : Text) : Text :=
  let zeros := (t.dropWhile (· ≠ '.'.toNat)).drop 1
  if zeros ≠ [] ∧ zeros.all (· = '0'.toNat) then t.takeWhile (· ≠ '.'.toNat) else t

/-- The text without zeros in front and the underscores after the first of them. What is left has
to begin with a digit or a minus sign; if nothing is left, the last one dropped stays. -/
def dropZeros? : Text → Option Text
  | [] => none
  | c :: rest =>
    let left :=
      if c = '0'.toNat then rest.dropWhile fun d => d = '0'.toNat ∨ d = underscore
      else c :: rest
    match left with
    | [] => some [(c :: rest).getLast (List.cons_ne_nil c rest)]
    | d :: more => if isLeadingDigit d ∨ d = '-'.toNat then some (d :: more) else none

/-- The text without underscores, if each stands alone between other code points. -/
def dropUnderscores (t : Text) : Text :=
  if (t.splitOn underscore).all (· ≠ []) then t.filter (· ≠ underscore) else t

/-- The plain form of a text, if it has one; else none, or a text that is not in plain form. -/
def plain? (t : Text) : Option Text := do
  let unsigned ← dropPlus? (t.trim Text.isWhiteSpace)
  let (negative, digits) := splitMinus (dropZeroFraction unsigned)
  let digits ← dropZeros? digits
  return dropUnderscores (if negative then '-'.toNat :: digits else digits)

def ofLoose? (signCounts : Bool) (t : Text) : Option Int := (plain? t).bind (toInt? signCounts)

end CargoReport.Decimal
