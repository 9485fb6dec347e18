import CargoReport.Action
import CargoReport.Bytes

namespace CargoReport

structure Crate where
  name : Text
  description : Option Text
  maxVersion : Text
  downloads : Int
  recentDownloads : Option Int
  deriving DecidableEq, Repr

open Checked in
def Crate.check (limits : Json.Limits) : Json → Checked Crate :=
  object fun o =>
    mk <$> required o "name" text <*> possible o "description" text
      <*> required o "max_version" text
      <*> withDefault o "downloads" 0 (integerWithin limits)
      <*> possible o "recent_downloads" (integerWithin limits)

structure Search where
  name : Text
  perPage : Int
  timeout : Seconds
  deriving DecidableEq, Repr

namespace Search

def defaultPerPage : Int := 20

def defaultTimeout : Seconds := .whole 30

def endpoint : Text := "https://crates.io/api/v1/crates"

/-- The capital hexadecimal digit of a number below sixteen. -/
def hexDigit (n : Nat) : CodePoint := if n < 10 then '0'.toNat + n else 'A'.toNat + (n - 10)

def isUnreserved (b : Nat) : Bool :=
  ('A'.toNat ≤ b && b ≤ 'Z'.toNat) || ('a'.toNat ≤ b && b ≤ 'z'.toNat)
    || ('0'.toNat ≤ b && b ≤ '9'.toNat) || b == '_'.toNat || b == '.'.toNat || b == '-'.toNat
    || b == '~'.toNat

/-- A byte in a query: a space is a plus, and what does not stand for itself is a percent sign with
two digits. -/
def encodeByte (b : UInt8) : Text :=
  let n := b.toNat
  if isUnreserved n then [n]
  else if n = ' '.toNat then ['+'.toNat]
  else ['%'.toNat, hexDigit (n / 16), hexDigit (n % 16)]

def encode (t : Text) : Text := (Utf8.encode t).flatMap encodeByte

def query (fields : List (Text × Text)) : Text :=
  List.intercalate ['&'.toNat]
    (fields.map fun (name, value) => encode name ++ '='.toNat :: encode value)

def url (s : Search) : Text :=
  endpoint ++ '?'.toNat :: query [("per_page", Decimal.ofInt s.perPage), ("q", s.name)]

def request (s : Search) : Request := ⟨s.url, [("User-agent", "cargodiag")], s.timeout⟩

/-- The crates of values, each of which has to be one; the first that is none is told of. -/
def crates (limits : Json.Limits) : List Json → Except (List Issue) (List Crate)
  | [] => .ok []
  | v :: rest => do
    match Crate.check limits v with
    | .valid crate => return crate :: (← crates limits rest)
    | .invalid issues => throw issues

/-- What the crates of an answer are taken from. Texts and objects can be gone through as well, by
their characters and names. -/
def found : Json → Except Fault (List Json)
  | .arr vs => .ok vs
  | .str t => .ok (t.map fun c => .str [c])
  | .obj members => .ok ((Json.names members).map .str)
  | v => .error (.notIterable v.kind)

/-- The crates that an answer lists, none if it has no list of them. -/
def cratesOf (s : Search) (limits : Json.Limits) : Json → Except Fault (List Crate)
  | .obj members => do
    let values ← found ((Json.get? members "crates").getD (.arr []))
    (crates limits values).mapError fun issues => .searchFailed s.name (.badCrate issues)
  | v => .error (.searchFailed s.name (.notObject v.kind))

def document (s : Search) (bytes : List UInt8) : Except Fault Json :=
  match documentText? bytes with
  | none => .error .undecodable
  | some t =>
    (Json.read .lenient t).mapError fun failure =>
      match failure with
      | .malformed problem place => .searchFailed s.name (.notJson problem place)
      | .tooDeep => .tooDeep
      | .overlong digits => .overlong ⟨digits⟩

/-- What is said of a text that has no bytes: the first surrogates in it and where they stand. -/
def unencodable? (t : Text) : Option Raised :=
  let start := (t.takeWhile (!Text.isSurrogate ·)).length
  match (t.dropWhile (!Text.isSurrogate ·)).takeWhile Text.isSurrogate with
  | [] => none
  | [c] =>
    some (failure (Text.ofString "character '\\u" ++ Text.hex 4 c ++ Text.ofString "' in position "
      ++ Decimal.ofNat start))
  | surrogates =>
    some (failure (Text.ofString "characters in position " ++ Decimal.ofNat start
      ++ Text.ofString "-" ++ Decimal.ofNat (start + surrogates.length - 1)))
where
  failure (what : Text) : Raised :=
    ⟨"UnicodeEncodeError", false, .plain (Text.ofString "'utf-8' codec can't encode " ++ what
      ++ Text.ofString ": surrogates not allowed"), []⟩

/-- Why the address cannot be written, if it cannot. The size of a page is written first. -/
def unwritable? (s : Search) : Option Fault :=
  if Decimal.Printable s.perPage then (unencodable? s.name).map .raised else some .unprintable

def send (s : Search) (h : Host) : Action Unit (List Crate) := do
  match ← Action.call (.request s.request) (h.fetch · s.request) with
  | .ok bytes => Action.ofExcept (s.document bytes >>= s.cratesOf h.limits)
  | .error cause =>
    if cause.isSystem then Action.stop (.searchFailed s.name (.unreachable cause))
    else Action.stop (.raised cause)

def run (s : Search) (h : Host) : Action Unit (List Crate) :=
  match s.unwritable? with
  | some fault => Action.stop fault
  | none => s.send h

end Search
end CargoReport
