import CargoReport.Cargo
import CargoReport.Diagnosis
import CargoReport.Search
import CargoReport.Tree

namespace CargoReport

structure Workspace where
  host : Host
  directory : Path
  settings : Settings

/-- What a pass runs, under which name, and what it answers for the files that it published. -/
structure Pass (α : Type) where
  name : Text
  command : Action Unit (List Record)
  answer : Files → α

instance : Functor Pass where
  map f p := ⟨p.name, p.command, f ∘ p.answer⟩

inductive Job (α : Type) where
  /-- Work that waits for nothing. -/
  | atOnce (work : Action Collection α)
  | pass (p : Pass α)
  /-- Work beside the collection. It may be announced, and a pass may come after it. -/
  | outside (announcement : Option Notice) (work : Action Unit (α ⊕ Pass α))

instance : Functor Job where
  map f
    | .atOnce work => .atOnce (f <$> work)
    | .pass p => .pass (f <$> p)
    | .outside announcement work =>
      .outside announcement do return (← work).map f (f <$> ·)

def Job.announce (announcement : Option Notice) : Action Collection Unit :=
  forM announcement.toList Action.note

theorem Job.attempt_announce (announcement : Option Notice) :
    Action.attempt (announce announcement) = .ok <$> announce announcement := by
  cases announcement <;> rfl

namespace Workspace

def newCollection (w : Workspace) : Collection := .new w.settings.collectionName

def cargo (w : Workspace) : Cargo := ⟨w.host, w.settings.cargoPath, w.directory.text⟩

variable {α : Type}

/-- The first part of a pass: no diagnostics of earlier passes stay. -/
def begin : Action Collection Unit := do
  Collection.clear
  Action.note (.running "cargo metadata")

/-- The second part: the metadata tell where the files stand. -/
def readMetadata (w : Workspace) (p : Pass α) : Action Collection Metadata := do
  let m ← Action.beside w.cargo.metadata
  Action.note (.running p.name)
  return m

def base (w : Workspace) (m : Metadata) : Diagnosis.Base :=
  ⟨w.host.directory, .ofText m.workspaceRoot⟩

/-- The last part: the command reports, and the diagnostics are published. -/
def publish (w : Workspace) (p : Pass α) (m : Metadata) : Action Collection α := do
  let records ← Action.beside p.command
  Action.note .processing
  let files ← Action.beside (Diagnosis.aggregate (w.base m) records)
  Collection.publish files
  Action.note (.reported p.name files.size)
  return p.answer files

def run (w : Workspace) (p : Pass α) : Action Collection α := do
  begin
  w.publish p (← w.readMetadata p)

/-- A job, and no other at the same time. -/
def perform (w : Workspace) : Job α → Action Collection α
  | .atOnce work => work
  | .pass p => w.run p
  | .outside announcement work => do
    Job.announce announcement
    match ← Action.beside work with
    | .inl a => return a
    | .inr p => w.run p

def checkPass (w : Workspace) : Pass Files :=
  ⟨"cargo check", w.cargo.check (some w.settings.checkArgs), id⟩

def check (w : Workspace) : Job Files := .pass w.checkPass

def build (w : Workspace) : Job Files := .pass ⟨"cargo build", w.cargo.build none, id⟩

/-- A command that the caller brings along: it is called and gives records, or fails. -/
def custom (w : Workspace) (name : Text) (answer : List Call → Except Raised Report) :
    Job Files :=
  .pass ⟨name, command, id⟩
where
  command : Action Unit (List Record) := do
    match ← Action.call (.custom name w.directory.text) answer with
    | .ok report => report.toAction
    | .error cause => Action.stop (.raised cause.passedOn)

/-- A check after a file was saved, if checks are made then. -/
def onSave (w : Workspace) : Job (Option Files) :=
  if w.settings.automaticCheck then some <$> w.check else .atOnce (pure none)

/-- A change of a dependency, with a check after it if checks are made then. -/
def change (w : Workspace) (announcement : Notice) (work : Action Unit Unit) (done : Notice) :
    Job Unit :=
  .outside announcement do
    work
    Action.note done
    return if w.settings.automaticCheck then .inr ((fun _ => ()) <$> w.checkPass) else .inl ()

def addDependency (w : Workspace) (name : Text) : Job Unit :=
  w.change (.adding name) (w.cargo.add name) (.added name)

def removeDependency (w : Workspace) (name : Text) : Job Unit :=
  w.change (.removing name) (w.cargo.remove name) (.removed name)

def search (w : Workspace) (name : Text) : Job (List Crate) :=
  .outside none do
    return .inl (← Search.run ⟨name, Search.defaultPerPage, Search.defaultTimeout⟩ w.host)

/-- The tree of packages, and what a first look at it gives. -/
def lookAtTree (w : Workspace) (look : Action Tree α) : Job α :=
  .outside none do
    let t := Tree.new (← w.cargo.metadata)
    return .inl (← look.zoom (fun _ => t) (fun s _ => s))

def close : Job Unit := .atOnce Collection.dispose

end Workspace
end CargoReport
