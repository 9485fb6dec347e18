import CargoReport.Text.Decimal

namespace CargoReport

/-- A double. A finite one is `mantissa * 2 ^ exponent` with the sign before it. -/
inductive Double where
  | nan
  | infinite (negative : Bool)
  | finite (negative : Bool) (mantissa : Nat) (exponent : Int)
  deriving DecidableEq, Repr

namespace Double

/-- The quotient rounded to the nearest number, a half to the even one. -/
def roundDiv (num den : Nat) : Nat :=
  let q := num / den
  let r := num % den
  if 2 * r < den ∨ (2 * r = den ∧ q % 2 = 0) then q else q + 1

/-- The greatest `e` with `2 ^ e ≤ num / den`, for positive numbers. -/
def log2Div (num den : Nat) : Int :=
  let k : Int := (num.log2 : Int) - den.log2
  if num * Nat.pow 2 (-k).toNat < den * Nat.pow 2 k.toNat then k - 1 else k

/-- The double nearest to a positive fraction. Its mantissa has 53 bits, fewer only where the
exponent is least; a value of `2 ^ 1024` or more after rounding is infinite. -/
def ofFraction (negative : Bool) (num den : Nat) : Double :=
  let exponent := max (-1074) (log2Div num den - 52)
  let mantissa := roundDiv (num * Nat.pow 2 (-exponent).toNat) (den * Nat.pow 2 exponent.toNat)
  let (mantissa, exponent) :=
    if mantissa = Nat.pow 2 53 then (Nat.pow 2 52, exponent + 1) else (mantissa, exponent)
  if 971 < exponent then .infinite negative else .finite negative mantissa exponent

/-- The double nearest to `digits * 10 ^ exponent`. Values beyond the range of all doubles are
told from the count of digits, so that no huge power is computed. -/
def ofDecimal (negative : Bool) (digits : Nat) (exponent : Int) : Double :=
  let magnitude : Int := (Decimal.ofNat digits).length + exponent
  if digits = 0 ∨ magnitude < -400 then .finite negative 0 (-1074)
  else if 400 < magnitude then .infinite negative
  else ofFraction negative (digits * Nat.pow 10 exponent.toNat) (Nat.pow 10 (-exponent).toNat)

def toInt? : Double → Option Int
  | .finite negative mantissa exponent =>
    let scaled := mantissa * Nat.pow 2 exponent.toNat
    let unit := Nat.pow 2 (-exponent).toNat
    if scaled % unit = 0 then
      some (if negative then -(scaled / unit : Nat) else (scaled / unit : Nat))
    else none
  | _ => none

/-- How many digits stand before the point of a positive fraction; below one tenth, less than
none. -/
def pointPlace (num den : Nat) : Int :=
  let d : Int := (Decimal.ofNat num).length - (Decimal.ofNat den).length
  if num * Nat.pow 10 (-d).toNat < den * Nat.pow 10 d.toNat then d else d + 1

/-- Of the two multiples of `10 ^ unit` next to a positive fraction, the nearest of those that
read back as `x`; of two as near, the even one. -/
def candidate? (x : Double) (num den : Nat) (unit : Int) : Option Nat :=
  let num := num * Nat.pow 10 (-unit).toNat
  let den := den * Nat.pow 10 unit.toNat
  let nearest := roundDiv num den
  let other := if nearest = num / den then nearest + 1 else nearest - 1
  [nearest, other].find? fun n => ofDecimal false n unit = x

/-- The fewest digits that read back as a positive double, from `count` digits on, and the place
of the point in them. Seventeen are always enough. -/
def shortest (x : Double) (num den : Nat) : (more count : Nat) → Text × Int
  | 0, count =>
    let unit := pointPlace num den - count
    let digits := Decimal.ofNat
      (roundDiv (num * Nat.pow 10 (-unit).toNat) (den * Nat.pow 10 unit.toNat))
    (digits, unit + digits.length)
  | more + 1, count =>
    let unit := pointPlace num den - count
    match candidate? x num den unit with
    | some n =>
      let digits := Decimal.ofNat n
      ((digits.reverse.dropWhile (· = '0'.toNat)).reverse, unit + digits.length)
    | none => shortest x num den more (count + 1)

def zeros (n : Nat) : Text := List.replicate n '0'.toNat

/-- Digits with the point at a place: written out from a ten-thousandth up to sixteen digits,
with a power of ten of at least two digits else. -/
def layOut (digits : Text) (place : Int) : Text :=
  if -4 < place ∧ place ≤ 16 then
    if place ≤ 0 then Text.ofString "0." ++ zeros (-place).toNat ++ digits
    else
      let before := place.toNat
      digits.take before ++ zeros (before - digits.length) ++ Text.ofString "."
        ++ if digits.length ≤ before then Text.ofString "0" else digits.drop before
  else
    let power := place - 1
    let written := Decimal.ofNat power.natAbs
    digits.take 1 ++ (if digits.length ≤ 1 then [] else Text.ofString "." ++ digits.drop 1)
      ++ Text.ofString "e" ++ Text.ofString (if power < 0 then "-" else "+")
      ++ zeros (2 - written.length) ++ written

def shown : Double → Text
  | .nan => "nan"
  | .infinite negative => if negative then "-inf" else "inf"
  | .finite negative mantissa exponent =>
    let sign := Text.ofString (if negative then "-" else "")
    if mantissa = 0 then sign ++ Text.ofString "0.0"
    else
      let (digits, place) := shortest (.finite false mantissa exponent)
        (mantissa * Nat.pow 2 exponent.toNat) (Nat.pow 2 (-exponent).toNat) 17 1
      sign ++ layOut digits place

end Double
end CargoReport
