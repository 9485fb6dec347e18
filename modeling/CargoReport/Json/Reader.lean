import CargoReport.Json.Basic

namespace CargoReport.Json

/-- What a reader accepts beyond the grammar. -/
structure Limits where
  /-- How deep arrays and objects may stand in one another. -/
  depth : Nat
  /-- Whether an array or object with nothing in it takes a level. -/
  emptyLevels : Bool
  /-- Whether a minus sign counts among the digits after it. -/
  signCounts : Bool
  /-- Whether an escape may name half of a surrogate pair. -/
  loneSurrogates : Bool
  /-- Whether a double may have more digits before its point than an integer. -/
  longDoubles : Bool
  deriving DecidableEq, Repr

/-- The limits for lines of a report and answers from the network. Their depth stands for the limit
of the runtime on nested calls, less the calls that led to the reader: these are not known here, so
a text of nearly that depth may go either way. -/
def Limits.lenient : Limits where
  depth := 990
  emptyLevels := true
  signCounts := false
  loneSurrogates := true
  longDoubles := true

/-- The limits for documents that are checked while they are read. There are releases of the checker
in which the sign counts, so a host has limits of its own. -/
def Limits.strict : Limits where
  depth := 200
  emptyLevels := false
  signCounts := false
  loneSurrogates := false
  longDoubles := false

/-- Why a reader stopped: a problem at the start of `rest`, or a limit. -/
inductive Stop where
  | malformed (problem : Problem) (rest : Text)
  | tooDeep
  | overlong (digits : Nat)
  deriving DecidableEq, Repr

def isGap (c : CodePoint) : Bool := c == 0x20 || c == 0x09 || c == 0x0A || c == 0x0D

def skipGap (s : Text) : Text := s.dropWhile isGap

def hexValue? (c : CodePoint) : Option Nat :=
  if '0'.toNat ≤ c ∧ c ≤ '9'.toNat then some (c - '0'.toNat)
  else if 'a'.toNat ≤ c ∧ c ≤ 'f'.toNat then some (c - 'a'.toNat + 10)
  else if 'A'.toNat ≤ c ∧ c ≤ 'F'.toNat then some (c - 'A'.toNat + 10)
  else none

def codeUnit? (h₁ h₂ h₃ h₄ : CodePoint) : Option Nat := do
  let d₁ ← hexValue? h₁
  let d₂ ← hexValue? h₂
  let d₃ ← hexValue? h₃
  let d₄ ← hexValue? h₄
  return ((d₁ * 16 + d₂) * 16 + d₃) * 16 + d₄

def shortEscape? (c : CodePoint) : Option CodePoint :=
  if c = Text.doubleQuote ∨ c = Text.backslash ∨ c = '/'.toNat then some c
  else if c = 'b'.toNat then some 0x08
  else if c = 'f'.toNat then some 0x0C
  else if c = 'n'.toNat then some 0x0A
  else if c = 'r'.toNat then some 0x0D
  else if c = 't'.toNat then some 0x09
  else none

inductive Piece where
  | plain (c : CodePoint)
  /-- A code unit named by its number. -/
  | unit (u : Nat)
  deriving DecidableEq, Repr

/-- The parts up to the closing quote. A string left open is reported at its opening quote; a
numbered escape needs a code point after its four digits. -/
def readPieces (opening : Text) : Text → Except Stop (List Piece × Text)
  | [] => .error (.malformed .openString opening)
  | c :: rest => do
    if c = Text.doubleQuote then return ([], rest)
    else if c = Text.backslash then
      match rest with
      | [] => throw (.malformed .openString opening)
      | e :: tail =>
        if e = 'u'.toNat then
          match tail with
          | h₁ :: h₂ :: h₃ :: h₄ :: next :: tail =>
            let some u := codeUnit? h₁ h₂ h₃ h₄ | throw (.malformed .badCodeUnit rest)
            let (pieces, s) ← readPieces opening (next :: tail)
            return (.unit u :: pieces, s)
          | _ => throw (.malformed .badCodeUnit rest)
        else
          let some plain := shortEscape? e | throw (.malformed .badEscape (c :: rest))
          let (pieces, s) ← readPieces opening tail
          return (.plain plain :: pieces, s)
    else if c < 0x20 then throw (.malformed .controlCharacter (c :: rest))
    else
      let (pieces, s) ← readPieces opening rest
      return (.plain c :: pieces, s)

theorem readPieces_quote (opening rest : Text) :
    readPieces opening (Text.doubleQuote :: rest) = .ok ([], rest) := by
  rw [readPieces.eq_def]
  simp
  rfl

theorem readPieces_plain (opening rest : Text) {c : CodePoint} (hq : c ≠ Text.doubleQuote)
    (hb : c ≠ Text.backslash) (hc : 0x20 ≤ c) :
    readPieces opening (c :: rest) =
      (readPieces opening rest).map fun r => (.plain c :: r.1, r.2) := by
  rw [readPieces.eq_def]
  simp only [hq, hb, Nat.not_lt.mpr hc, if_false]
  cases readPieces opening rest <;> rfl

theorem readPieces_short (opening rest : Text) {e c : CodePoint} (he : e ≠ 'u'.toNat)
    (h : shortEscape? e = some c) :
    readPieces opening (Text.backslash :: e :: rest) =
      (readPieces opening rest).map fun r => (.plain c :: r.1, r.2) := by
  have hne : Text.backslash ≠ Text.doubleQuote := by decide
  rw [readPieces.eq_def]
  simp only [hne, he, h, if_true, if_false]
  cases readPieces opening rest <;> rfl

theorem readPieces_unit (opening : Text) {rest : Text} {h₁ h₂ h₃ h₄ : CodePoint} {u : Nat}
    (h : codeUnit? h₁ h₂ h₃ h₄ = some u) (hr : rest ≠ []) :
    readPieces opening (Text.backslash :: 'u'.toNat :: h₁ :: h₂ :: h₃ :: h₄ :: rest) =
      (readPieces opening rest).map fun r => (.unit u :: r.1, r.2) := by
  have hne : Text.backslash ≠ Text.doubleQuote := by decide
  obtain ⟨next, tail, rfl⟩ := List.exists_cons_of_ne_nil hr
  rw [readPieces.eq_def]
  simp only [hne, h, if_true, if_false]
  cases readPieces opening (next :: tail) <;> rfl

/-- The code points of the parts: a high surrogate and a low one right after it, both named by
number, are one code point. -/
def joinPieces : List Piece → Text
  | [] => []
  | .plain c :: rest => c :: joinPieces rest
  | .unit high :: .unit low :: rest =>
    if Text.isHighSurrogate high ∧ Text.isLowSurrogate low then
      Text.joinSurrogates high low :: joinPieces rest
    else high :: joinPieces (.unit low :: rest)
  | .unit u :: rest => u :: joinPieces rest

def readString (limits : Limits) (opening s : Text) : Except Stop (Text × Text) := do
  let (pieces, rest) ← readPieces opening s
  let text := joinPieces pieces
  if !limits.loneSurrogates && text.any Text.isSurrogate then
    throw (.malformed .badCodeUnit opening)
  return (text, rest)

structure Numeral where
  negative : Bool
  whole : Text
  fraction : Option Text
  exponent : Option Int
  deriving DecidableEq, Repr

/-- The digits before the point, where nothing follows a leading zero. -/
def readLeading : Text → Option (Text × Text)
  | [] => none
  | c :: rest =>
    if c = '0'.toNat then some ([c], rest)
    else if Decimal.isDigit c then
      some (c :: rest.takeWhile Decimal.isDigit, rest.dropWhile Decimal.isDigit)
    else none

def readFraction : Text → Option Text × Text
  | [] => (none, [])
  | c :: rest =>
    let digits := rest.takeWhile Decimal.isDigit
    if c = '.'.toNat ∧ digits ≠ [] then (some digits, rest.dropWhile Decimal.isDigit)
    else (none, c :: rest)

/-- The sign of an exponent, plus if none is written. -/
def readSign : Text → Bool × Text
  | [] => (false, [])
  | c :: rest =>
    if c = '-'.toNat then (true, rest) else if c = '+'.toNat then (false, rest)
    else (false, c :: rest)

def readExponent : Text → Option Int × Text
  | [] => (none, [])
  | c :: rest =>
    let (negative, tail) := readSign rest
    let digits := tail.takeWhile Decimal.isDigit
    if (c = 'e'.toNat ∨ c = 'E'.toNat) ∧ digits ≠ [] then
      let n : Int := Decimal.toNat digits
      (some (if negative then -n else n), tail.dropWhile Decimal.isDigit)
    else (none, c :: rest)

def readNumeral (s : Text) : Option (Numeral × Text) := do
  let negative := s.head? = some '-'.toNat
  let (whole, s) ← readLeading (if negative then s.drop 1 else s)
  let (fraction, s) := readFraction s
  let (exponent, s) := readExponent s
  return (⟨negative, whole, fraction, exponent⟩, s)

def Numeral.isInteger (n : Numeral) : Bool := n.fraction.isNone && n.exponent.isNone

def Numeral.wholeLength (limits : Limits) (n : Numeral) : Nat :=
  Decimal.counted limits.signCounts n.negative n.whole

@[simp] theorem Numeral.wholeLength_lenient (n : Numeral) :
    n.wholeLength .lenient = n.whole.length := rfl

/-- An integer, or else the double nearest to a number. -/
def Numeral.toJson (limits : Limits) (n : Numeral) : Except Stop Json :=
  if Decimal.maxDigits < n.wholeLength limits ∧ (n.isInteger ∨ !limits.longDoubles) then
    .error (.overlong (n.wholeLength limits))
  else if n.isInteger then
    let z : Int := Decimal.toNat n.whole
    .ok (.int (if n.negative then -z else z))
  else
    let digits := n.fraction.getD []
    .ok (.float (.ofDecimal n.negative (Decimal.toNat (n.whole ++ digits))
      (n.exponent.getD 0 - digits.length)))

def words : List (Text × Json) :=
  [("null", .null), ("true", .bool true), ("false", .bool false), ("NaN", .float .nan),
    ("Infinity", .float (.infinite false)), ("-Infinity", .float (.infinite true))]

/-- A value that is no string and holds no other value. -/
def readAtom (limits : Limits) (s : Text) : Except Stop (Json × Text) :=
  match words.findSome? fun (word, value) => (Text.after? word s).map (value, ·) with
  | some found => .ok found
  | none =>
    match readNumeral s with
    | some (numeral, rest) => (numeral.toJson limits).map (·, rest)
    | none => .error (.malformed .noValue s)

/-- The elements of an array from the first on, with at most as many turns as `fuel` says. -/
def readElements (item : Text → Except Stop (Json × Text)) :
    (fuel : Nat) → Text → Except Stop (List Json × Text)
  | 0, s => .error (.malformed .noValue s)
  | fuel + 1, s => do
    let (value, s) ← item s
    match skipGap s with
    | [] => throw (.malformed .noComma [])
    | c :: rest =>
      if c = ']'.toNat then return ([value], rest)
      else if c = ','.toNat then
        let (values, s) ← readElements item fuel (skipGap rest)
        return (value :: values, s)
      else throw (.malformed .noComma (c :: rest))

def readName (limits : Limits) : Text → Except Stop (Text × Text)
  | [] => .error (.malformed .noName [])
  | c :: rest => do
    if c ≠ Text.doubleQuote then throw (.malformed .noName (c :: rest))
    let (name, s) ← readString limits (c :: rest) rest
    match skipGap s with
    | [] => throw (.malformed .noColon [])
    | c :: rest =>
      if c = ':'.toNat then return (name, skipGap rest)
      else throw (.malformed .noColon (c :: rest))

/-- The members of an object from the first on, with at most as many turns as `fuel` says. -/
def readMembers (limits : Limits) (item : Text → Except Stop (Json × Text)) :
    (fuel : Nat) → Text → Except Stop (List (Text × Json) × Text)
  | 0, s => .error (.malformed .noName s)
  | fuel + 1, s => do
    let (name, s) ← readName limits s
    let (value, s) ← item s
    match skipGap s with
    | [] => throw (.malformed .noComma [])
    | c :: rest =>
      if c = closeBrace then return ([(name, value)], rest)
      else if c = ','.toNat then
        let (members, s) ← readMembers limits item fuel (skipGap rest)
        return ((name, value) :: members, s)
      else throw (.malformed .noComma (c :: rest))
where
  closeBrace : CodePoint := 0x7D

/-- An array after its bracket. Each element takes at least one code point, so the length of the
text bounds the turns. -/
def readArray (item : Text → Except Stop (Json × Text)) (s : Text) :
    Except Stop (Json × Text) :=
  match Text.after? "]" (skipGap s) with
  | some rest => .ok (.arr [], rest)
  | none => do
    let (values, rest) ← readElements item (s.length + 1) (skipGap s)
    return (.arr values, rest)

def readObject (limits : Limits) (item : Text → Except Stop (Json × Text)) (s : Text) :
    Except Stop (Json × Text) :=
  match Text.after? "\x7d" (skipGap s) with
  | some rest => .ok (.obj [], rest)
  | none => do
    let (members, rest) ← readMembers limits item (s.length + 1) (skipGap s)
    return (.obj members, rest)

/-- In place of an item that is one level too deep. -/
def noItem (_ : Text) : Except Stop (Json × Text) := .error .tooDeep

/-- A value with at most `depth` arrays and objects in one another, and an empty one within these
if it takes no level. -/
def readValue (limits : Limits) : (depth : Nat) → Text → Except Stop (Json × Text)
  | _, [] => .error (.malformed .noValue [])
  | depth, c :: rest =>
    if c = Text.doubleQuote then
      (readString limits (c :: rest) rest).map fun (text, s) => (.str text, s)
    else if c = '['.toNat then
      match depth with
      | 0 => if limits.emptyLevels then .error .tooDeep else readArray noItem rest
      | depth + 1 => readArray (readValue limits depth) rest
    else if c = openBrace then
      match depth with
      | 0 => if limits.emptyLevels then .error .tooDeep else readObject limits noItem rest
      | depth + 1 => readObject limits (readValue limits depth) rest
    else readAtom limits (c :: rest)
where
  openBrace : CodePoint := 0x7B

/-- One value with nothing but blanks around it. -/
def readAlone (limits : Limits) (s : Text) : Except Stop Json := do
  let (value, rest) ← readValue limits limits.depth (skipGap s)
  match skipGap rest with
  | [] => return value
  | more => throw (.malformed .moreData more)

/-- The fault in terms of the whole text: a problem stands where its rest begins. -/
def Stop.toFailure (s : Text) : Stop → Failure
  | .malformed problem rest =>
    .malformed problem (Place.afterText (s.take (s.length - rest.length)))
  | .tooDeep => .tooDeep
  | .overlong digits => .overlong digits

def read (limits : Limits) (s : Text) : Except Failure Json :=
  (readAlone limits s).mapError (Stop.toFailure s)

/-- The value that a text holds; a byte order mark is no part of a text. -/
def ofText (s : Text) : Except Failure Json :=
  if s.head? = some 0xFEFF then .error (.malformed .byteOrderMark ⟨1, 1, 0⟩)
  else read .lenient s

end CargoReport.Json
