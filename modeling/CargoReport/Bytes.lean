import CargoReport.Text.Basic

namespace CargoReport.Utf8

def encodePoint (c : CodePoint) : List UInt8 :=
  if c < 0x80 then [.ofNat c]
  else if c < 0x800 then [.ofNat (0xC0 + c / 0x40), .ofNat (0x80 + c % 0x40)]
  else if c < 0x10000 then
    [.ofNat (0xE0 + c / 0x1000), .ofNat (0x80 + c / 0x40 % 0x40), .ofNat (0x80 + c % 0x40)]
  else
    [.ofNat (0xF0 + c / 0x40000), .ofNat (0x80 + c / 0x1000 % 0x40),
      .ofNat (0x80 + c / 0x40 % 0x40), .ofNat (0x80 + c % 0x40)]

def encode (t : Text) : List UInt8 := t.flatMap encodePoint

/-- A character that was begun: its bits so far, how many bytes follow the next one, and the least
and the greatest that the next one may be, which is never a character of its own. -/
structure Begun where
  bits : Nat
  later : Nat
  least : Nat := 0x80
  greatest : Nat := 0xBF
  ascii_lt_least : 0x7F < least := by decide
  deriving DecidableEq, Repr

/-- What a byte between characters does: it is one, begins one, or belongs to none. -/
inductive First where
  | point (c : CodePoint)
  | begun (b : Begun)
  | stray
  deriving DecidableEq, Repr

/-- The meaning of a first byte. Surrogates have no bytes of their own unless they are let
through. -/
def first (surrogates : Bool) (b : Nat) : First :=
  if b < 0x80 then .point b
  else if b < 0xC2 then .stray
  else if b < 0xE0 then .begun { bits := b - 0xC0, later := 0 }
  else if b = 0xE0 then .begun { bits := 0, later := 1, least := 0xA0 }
  else if b = 0xED ∧ surrogates = false then .begun { bits := 0xD, later := 1, greatest := 0x9F }
  else if b < 0xF0 then .begun { bits := b - 0xE0, later := 1 }
  else if b = 0xF0 then .begun { bits := 0, later := 2, least := 0x90 }
  else if b < 0xF4 then .begun { bits := b - 0xF0, later := 2 }
  else if b = 0xF4 then .begun { bits := 4, later := 2, greatest := 0x8F }
  else .stray

def start (surrogates : Bool) (b : Nat) : List (Option CodePoint) × Option Begun :=
  match first surrogates b with
  | .point c => ([some c], none)
  | .begun begun => ([], some begun)
  | .stray => ([none], none)

/-- One byte: what it gives, and the character that goes on after it. A byte that cannot go on
with the character ends it with a mark and is taken as a first byte. -/
def step (surrogates : Bool) (pending : Option Begun) (b : Nat) :
    List (Option CodePoint) × Option Begun :=
  match pending with
  | none => start surrogates b
  | some begun =>
    if begun.least ≤ b ∧ b ≤ begun.greatest then
      let bits := begun.bits * 0x40 + b % 0x40
      match begun.later with
      | 0 => ([some bits], none)
      | later + 1 => ([], some { bits, later })
    else
      let (given, next) := start surrogates b
      (none :: given, next)

/-- The characters of bytes, and `none` for each run that is none. -/
def scan (surrogates : Bool) : Option Begun → List UInt8 → List (Option CodePoint)
  | none, [] => []
  | some _, [] => [none]
  | pending, b :: rest =>
    let (given, next) := step surrogates pending b.toNat
    given ++ scan surrogates next rest

def replacement : CodePoint := 0xFFFD

def decodeLossy (bytes : List UInt8) : Text :=
  (scan false none bytes).map (·.getD replacement)

/-- The text of bytes that are all characters or encoded surrogates. -/
def decode? (bytes : List UInt8) : Option Text := (scan true none bytes).mapM id

theorem start_ascii (surrogates : Bool) {b : Nat} (h : b < 0x80) :
    start surrogates b = ([some b], none) := by
  simp [start, first, h]

/-- An ASCII byte ends whatever was begun and stands for itself. -/
theorem step_ascii (surrogates : Bool) (pending : Option Begun) {b : Nat} (h : b < 0x80) :
    step surrogates pending b = (pending.toList.map (fun _ => none) ++ [some b], none) := by
  cases pending with
  | none => simp [step, start_ascii surrogates h]
  | some begun =>
    have hl : ¬(begun.least ≤ b ∧ b ≤ begun.greatest) := by
      have := begun.ascii_lt_least
      omega
    simp [step, hl, start_ascii surrogates h]

/-- What stands before an ASCII byte and what stands after it are read each for itself. -/
theorem scan_append_ascii (surrogates : Bool) (pending : Option Begun) (xs ys : List UInt8)
    {b : UInt8} (h : b.toNat < 0x80) :
    scan surrogates pending (xs ++ b :: ys) =
      scan surrogates pending xs ++ some b.toNat :: scan surrogates none ys := by
  induction xs generalizing pending with
  | nil => cases pending <;> simp [scan, step_ascii _ _ h]
  | cons x rest ih => simp [scan, ih]

end CargoReport.Utf8

namespace CargoReport.Capture

/-- A carriage return, with a line feed after it or alone, becomes a line feed. -/
def foldLineEnds : Text → Text
  | [] => []
  | [c] => [if c = 0x0D then 0x0A else c]
  | c :: d :: rest =>
    if c = 0x0D then
      if d = 0x0A then 0x0A :: foldLineEnds rest else 0x0A :: foldLineEnds (d :: rest)
    else c :: foldLineEnds (d :: rest)

def text (bytes : List UInt8) : Text := foldLineEnds (Utf8.decodeLossy bytes)

end CargoReport.Capture

namespace CargoReport

inductive ByteOrder where
  | big
  | little
  deriving DecidableEq, Repr

inductive Encoding where
  | utf8
  | utf16 (order : ByteOrder)
  | utf32 (order : ByteOrder)
  deriving DecidableEq, Repr

namespace Encoding

/-- The marks that can stand at the start; the longer ones come first. -/
def marks : List (List UInt8 × Encoding) :=
  [([0x00, 0x00, 0xFE, 0xFF], .utf32 .big), ([0xFF, 0xFE, 0x00, 0x00], .utf32 .little),
    ([0xFE, 0xFF], .utf16 .big), ([0xFF, 0xFE], .utf16 .little), ([0xEF, 0xBB, 0xBF], .utf8)]

/-- The encoding that the first bytes of a document without a mark show: it starts with two ASCII
characters, or is one. -/
def ofZeros : List UInt8 → Encoding
  | [a, b] => if a = 0 then .utf16 .big else if b = 0 then .utf16 .little else .utf8
  | a :: b :: c :: d :: _ =>
    if a = 0 then (if b = 0 then .utf32 .big else .utf16 .big)
    else if b = 0 then (if c = 0 ∧ d = 0 then .utf32 .little else .utf16 .little)
    else .utf8
  | _ => .utf8

def detect (bytes : List UInt8) : Encoding × List UInt8 :=
  match marks.find? fun mark => mark.1.isPrefixOf bytes with
  | some mark => (mark.2, bytes.drop mark.1.length)
  | none => (ofZeros bytes, bytes)

def pair (order : ByteOrder) (a b : UInt8) : Nat :=
  match order with
  | .big => a.toNat * 0x100 + b.toNat
  | .little => b.toNat * 0x100 + a.toNat

/-- The numbers that pairs of bytes are; a byte that is left over is no text. -/
def units16? (order : ByteOrder) : List UInt8 → Option (List Nat)
  | [] => some []
  | [_] => none
  | a :: b :: rest => (units16? order rest).map (pair order a b :: ·)

/-- Code points from units of 16 bits: a high and a low surrogate are one, any other surrogate is
let through. -/
def joinUnits : List Nat → Text
  | [] => []
  | [u] => [u]
  | high :: low :: rest =>
    if Text.isHighSurrogate high ∧ Text.isLowSurrogate low then
      Text.joinSurrogates high low :: joinUnits rest
    else high :: joinUnits (low :: rest)

/-- Code points from units of 32 bits, none of them beyond the last code point. -/
def points32? (order : ByteOrder) : List UInt8 → Option Text
  | [] => some []
  | a :: b :: c :: d :: rest => do
    let point :=
      match order with
      | .big => pair .big a b * 0x10000 + pair .big c d
      | .little => pair .little c d * 0x10000 + pair .little a b
    if point ≤ 0x10FFFF then return point :: (← points32? order rest) else none
  | _ => none

def decode? : Encoding → List UInt8 → Option Text
  | .utf8, bytes => Utf8.decode? bytes
  | .utf16 order, bytes => (units16? order bytes).map joinUnits
  | .utf32 order, bytes => points32? order bytes

end Encoding

def documentText? (bytes : List UInt8) : Option Text :=
  let (encoding, content) := Encoding.detect bytes
  encoding.decode? content

end CargoReport
