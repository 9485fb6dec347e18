import CargoReport.Action
import CargoReport.Metadata
import CargoReport.Table

namespace CargoReport

/-- An item of the tree: a package of the workspace, or a dependency of one. -/
inductive TreeItem where
  | package (p : Package)
  | dependency (d : Dependency)
  deriving DecidableEq, Repr

namespace TreeItem

def label : TreeItem → Text
  | package p => p.name
  | dependency d => d.name

def description : TreeItem → Option Text
  | package p => some p.version
  | dependency d => d.kind

def tooltip : TreeItem → Option Text
  | package p => p.description
  | dependency d => d.source

def isCollapsible : TreeItem → Bool
  | package _ => true
  | dependency _ => false

end TreeItem

/-- One that is told of changes, and may fail each time it is. -/
structure Listener where
  name : Text
  answer : (earlier : List Call) → Option Raised

/-- The tree of a workspace. The packages of the metadata are kept by their ids as well. -/
structure Tree where
  metadata : Metadata
  packages : Table Text Package
  listeners : List Listener

namespace Tree

/-- Packages by their ids, the last one for each id. -/
def index (packages : List Package) : Table Text Package :=
  .ofList (packages.map fun p => (p.id, p))

def new (m : Metadata) : Tree := ⟨m, index m.packages, []⟩

/-- Takes metadata without telling anyone. -/
def load (m : Metadata) : Action Tree Unit :=
  Action.modify fun t => { t with metadata := m, packages := index m.packages }

def onChange (l : Listener) : Action Tree Unit :=
  Action.modify fun t => { t with listeners := t.listeners ++ [l] }

def tell (l : Listener) : Action Tree Unit := do
  if let some cause ← Action.call (.listener l.name) l.answer then Action.stop (.raised cause)

/-- Takes new metadata, or those that are there once more, and tells the listeners in the order in
which they came, up to one that fails. -/
def refresh (m : Option Metadata) : Action Tree Unit := do
  load (m.getD (← Action.state).metadata)
  forM (← Action.state).listeners tell

/-- The items at the top: the members of the workspace that there is a package for. -/
def roots : List Text → Table Text Package → Action Tree (List TreeItem)
  | [], _ => pure []
  | id :: rest, packages =>
    match packages.get? id with
    | some p => do return .package p :: (← roots rest packages)
    | none => do
      Action.note (.memberMissing id)
      roots rest packages

/-- The items below an item, or at the top. A package is looked up again by its id, and an item of
one that is gone shows what it had. -/
def children (item : Option TreeItem) : Action Tree (List TreeItem) := do
  let t ← Action.state
  match item with
  | none => roots t.metadata.workspaceMembers t.packages
  | some (.package p) => return ((t.packages.get? p.id).getD p).dependencies.map .dependency
  | some (.dependency _) => return []

end Tree
end CargoReport
