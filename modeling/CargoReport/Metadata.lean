import CargoReport.Checked

namespace CargoReport

structure Dependency where
  name : Text
  source : Option Text
  req : Option Text
  kind : Option Text
  deriving DecidableEq, Repr

structure Package where
  id : Text
  name : Text
  version : Text
  description : Option Text
  source : Option Text
  dependencies : List Dependency
  deriving DecidableEq, Repr

structure GraphNode where
  id : Text
  dependencies : List Text
  features : List Text
  deriving DecidableEq, Repr

structure Resolve where
  nodes : List GraphNode
  root : Option Text
  deriving DecidableEq, Repr

/-- A workspace as cargo tells of it. -/
structure Metadata where
  packages : List Package
  resolve : Option Resolve
  workspaceMembers : List Text
  targetDirectory : Text
  version : Int
  workspaceRoot : Text
  deriving DecidableEq, Repr

open Checked

def Dependency.check : Json → Checked Dependency :=
  object fun o =>
    mk <$> required o "name" text <*> possible o "source" text <*> possible o "req" text
      <*> possible o "kind" text

def Package.check : Json → Checked Package :=
  object fun o =>
    mk <$> required o "id" text <*> required o "name" text <*> required o "version" text
      <*> possible o "description" text <*> possible o "source" text
      <*> withDefault o "dependencies" [] (list Dependency.check)

def GraphNode.check : Json → Checked GraphNode :=
  object fun o =>
    mk <$> required o "id" text <*> withDefault o "dependencies" [] (list text)
      <*> withDefault o "features" [] (list text)

def Resolve.check : Json → Checked Resolve :=
  object fun o =>
    mk <$> withDefault o "nodes" [] (list GraphNode.check) <*> possible o "root" text

namespace Metadata

def check (limits : Json.Limits) : Json → Checked Metadata :=
  object fun o =>
    mk <$> withDefault o "packages" [] (list Package.check)
      <*> possible o "resolve" Resolve.check
      <*> withDefault o "workspace_members" [] (list text)
      <*> required o "target_directory" text
      <*> required o "version" (integerWithin limits)
      <*> required o "workspace_root" text

def ofText (limits : Json.Limits) (t : Text) : Checked Metadata :=
  document limits (check limits) t

end Metadata
end CargoReport
