import CargoReport.Report

namespace CargoReport

inductive Wording where
  | plain (text : Text)
  | numbered (number : Int) (text : Text)
  | numberedFile (number : Int) (text file : Text)
  | unreachable (reason : Text)
  | status (code : Int) (text : Text)
  deriving DecidableEq, Repr

def Wording.text : Wording → Text
  | .plain text => text
  | .numbered number text =>
    Text.ofString "[Errno " ++ Decimal.ofInt number ++ Text.ofString "] " ++ text
  | .numberedFile number text file =>
    Text.ofString "[Errno " ++ Decimal.ofInt number ++ Text.ofString "] " ++ text
      ++ Text.ofString ": " ++ file.quoted
  | .unreachable reason => Text.ofString "<urlopen error " ++ reason ++ Text.ofString ">"
  | .status code text =>
    Text.ofString "HTTP Error " ++ Decimal.ofInt code ++ Text.ofString ": " ++ text

/-- A failure from outside: of the system or the network, or of a callback. -/
structure Raised where
  kind : Text
  /-- Whether it comes from the system or the network. -/
  isSystem : Bool
  wording : Wording
  stderr : Text
  deriving DecidableEq, Repr

/-- A failure as it is passed on by a command that it ended: a time-out names no file. -/
def Raised.passedOn (cause : Raised) : Raised :=
  match cause.wording with
  | .numberedFile number text _ =>
    if cause.kind = timeOut then { cause with wording := .numbered number text } else cause
  | _ => cause
where
  timeOut : Text := "TimeoutError"

inductive SearchFailure where
  | unreachable (cause : Raised)
  | notJson (problem : Json.Problem) (place : Json.Place)
  | notObject (kind : Json.Kind)
  | badCrate (issues : List Issue)
  deriving DecidableEq, Repr

inductive Fault where
  /-- No binary was named or found; the advice says what to do. -/
  | cargoMissing (advice : Text)
  | cargoNotStarted (cause : Raised)
  | cargoFailed (command : Text) (exitCode : Int) (stderr : Text)
  | badMetadata (issues : List Issue) (stderr : Text)
  | changeFailed (command : Text) (stderr : Text)
  | searchFailed (name : Text) (why : SearchFailure)
  /-- A collection that takes no more writes. -/
  | disposed (collection : Text)
  /-- A document that does not have the shape of its model. -/
  | invalid (model : Text) (issues : List Issue)
  | notIterable (kind : Json.Kind)
  | unknownSeverity (number : Int)
  /-- An integer too long to be read. -/
  | overlong (integer : Overlong)
  /-- An integer too long to be printed. -/
  | unprintable
  | tooDeep
  | undecodable
  | raised (cause : Raised)
  deriving DecidableEq, Repr

def SearchFailure.message (name : Text) : SearchFailure → Text
  | .unreachable cause => failed ++ cause.wording.text
  | .notJson problem place => failed ++ problem.at place
  | .notObject kind =>
    unexpected ++ Text.ofString "'" ++ kind.name ++ Text.ofString "' object has no attribute 'get'"
  | .badCrate _ => unexpected
where
  failed : Text := Text.ofString "Failed to search crates.io for '" ++ name ++ Text.ofString "': "
  unexpected : Text :=
    Text.ofString "Unexpected crates.io response for '" ++ name ++ Text.ofString "': "

namespace Fault

def installAdvice : Text := "Install with: curl https://sh.rustup.rs -sSf | sh"

def digitLimit : Text :=
  Text.ofString "Exceeds the limit (" ++ Decimal.ofNat Decimal.maxDigits
    ++ Text.ofString " digits) for integer string conversion"

def digitAdvice : Text := "; use sys.set_int_max_str_digits() to increase the limit"

/-- The sentence that tells of a fault. Of a document with issues it is the beginning, which the
issues follow. -/
def message : Fault → Text
  | cargoMissing advice =>
    Text.ofString "cargo not found on PATH" ++
      if advice = [] then [] else Text.ofString ". " ++ advice
  | cargoNotStarted cause => Text.ofString "Failed to execute cargo: " ++ cause.wording.text
  | cargoFailed command exitCode stderr =>
    Text.ofString "cargo " ++ command ++ Text.ofString " failed with exit code "
      ++ Decimal.ofInt exitCode ++ Text.ofString ": " ++ stderr.strip
  | badMetadata _ _ => "Failed to parse cargo metadata: "
  | changeFailed command _ =>
    Text.ofString "`cargo " ++ command ++ Text.ofString "` returned with non-zero exit code"
  | searchFailed name why => why.message name
  | disposed collection =>
    Text.ofString "Diagnostic collection '" ++ collection ++ Text.ofString "' has been disposed"
  | invalid model _ => model
  | notIterable kind =>
    Text.ofString "'" ++ kind.name ++ Text.ofString "' object is not iterable"
  | unknownSeverity number =>
    Decimal.ofInt number ++ Text.ofString " is not a valid Severity"
  | overlong integer =>
    digitLimit ++ Text.ofString ": value has " ++ Decimal.ofNat integer.digits
      ++ Text.ofString " digits" ++ digitAdvice
  | unprintable => digitLimit ++ digitAdvice
  | tooDeep => []
  | undecodable => []
  | raised cause => cause.wording.text

end Fault

end CargoReport
