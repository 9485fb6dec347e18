import CargoReport.Action

namespace CargoReport

structure Settings where
  /-- Whether to check after a file was saved or a dependency changed. -/
  automaticCheck : Bool
  cargoPath : Option Text
  /-- What a check is told beside its own words. -/
  checkArgs : List Text
  collectionName : Text
  deriving DecidableEq, Repr

/-- What an environment says: texts, or other values that a caller put there. -/
abbrev Environment := List (Text × Json)

namespace Settings

def defaultCheckArgs : List Text := ["--all-targets"]

open Checked in
def check : Json → Checked Settings :=
  object fun o =>
    mk <$> withDefault o "automatic_check" true flag <*> possible o "cargo_path" text
      <*> withDefault o "check_args" defaultCheckArgs (list text)
      <*> withDefault o "collection_name" "cargo" text

def yesWords : List Text := ["true", "1", "yes"]

/-- Whether a text says yes, in capitals or not. No letter beyond ASCII has one of the letters of
these words as its small form. -/
def isYes (t : Text) : Bool := yesWords.contains t.lowerAscii

/-- The arguments that a text with commas lists, without blanks around them. -/
def splitArgs (t : Text) : List Text :=
  ((t.splitOn ','.toNat).map Text.strip).filter (· ≠ [])

/-- The settings that can be overridden, each with its variable and what it makes of a text. -/
def overridable : List (Text × Text × (Text → Json)) :=
  [("automatic_check", "CARGODIAG_AUTOMATIC_CHECK", fun t => .bool (isYes t)),
    ("cargo_path", "CARGODIAG_CARGO_PATH", .str),
    ("check_args", "CARGODIAG_CHECK_ARGS", fun t => .arr ((splitArgs t).map .str)),
    ("collection_name", "CARGODIAG_COLLECTION_NAME", .str)]

/-- The settings that an environment overrides, in their own order. -/
def overrides (environment : Environment) : List (Text × Json) :=
  overridable.filterMap fun (setting, name, ofText) =>
    (environment.lookup name).map fun value =>
      (setting,
        match value with
        | .str t => ofText t
        | other => other)

def load (environment : Environment) : Action Unit Settings := do
  let changed := overrides environment
  forM changed fun (setting, value) => Action.note (.overridden setting value.shown)
  match check (.obj changed) with
  | .valid settings => return settings
  | .invalid issues => Action.stop (.invalid "Settings" issues)

end Settings
end CargoReport
