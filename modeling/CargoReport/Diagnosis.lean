import CargoReport.Action
import CargoReport.Table

namespace CargoReport

/-- Files and the diagnostics in each, in the order in which the files came. -/
abbrev Files := Table Path (List Diagnostic)

/-- The published diagnostics under a name. -/
structure Collection where
  name : Text
  files : Files
  disposed : Bool

namespace Collection

def new (name : Text) : Collection := ⟨name, .empty, false⟩

def checkOpen : Action Collection Unit := do
  let c ← Action.state
  if c.disposed then Action.stop (.disposed c.name)

def set (path : Path) (diagnostics : List Diagnostic) : Action Collection Unit := do
  checkOpen
  Action.modify fun c => { c with files := c.files.insert path diagnostics }

def delete (path : Path) : Action Collection Unit := do
  checkOpen
  Action.modify fun c => { c with files := c.files.erase path }

def clear : Action Collection Unit := do
  checkOpen
  Action.modify fun c => { c with files := .empty }

/-- Empties the collection and closes it. -/
def dispose : Action Collection Unit :=
  Action.modify fun c => { c with files := .empty, disposed := true }

def get (c : Collection) (path : Path) : List Diagnostic := (c.files.get? path).getD []

def contains (c : Collection) (path : Path) : Bool := c.files.contains path

def size (c : Collection) : Nat := c.files.size

/-- Replaces the diagnostics of every file given; other files stay as they are. -/
def publish (files : Files) : Action Collection Unit := do
  forM files.entries fun (path, diagnostics) => set path diagnostics
  Action.note (.published files.size)

end Collection

/-- What was found so far: the files, and the keys that each has. -/
structure Diagnosis where
  files : Files
  seen : List (Path × Diagnostic.Key)

namespace Diagnosis

def empty : Diagnosis := ⟨.empty, []⟩

def get (d : Diagnosis) (path : Path) : List Diagnostic := (d.files.get? path).getD []

/-- Whether the file of a diagnostic has one with its key. -/
def Seen (d : Diagnosis) (x : Diagnostic) : Prop := (x.path, x.key) ∈ d.seen

instance (d : Diagnosis) (x : Diagnostic) : Decidable (d.Seen x) :=
  inferInstanceAs (Decidable (_ ∈ _))

def insert (d : Diagnosis) (x : Diagnostic) : Diagnosis where
  files := d.files.insert x.path (d.get x.path ++ [x])
  seen := (x.path, x.key) :: d.seen

/-- Adds a diagnostic unless one with its key is there, and says whether it did. The notice of a
dropped one names its range, so the numbers of that have to be printable. -/
def add (x : Diagnostic) : Action Diagnosis Bool := do
  let d ← Action.state
  if d.Seen x then
    if x.range.Printable then
      Action.note (.duplicate x.path x.range)
      return false
    else Action.stop .unprintable
  else
    Action.put (d.insert x)
    return true

/-- Adds every message of a tree with the file, the range and the label of one span. -/
def place (path : Path) (range : Range) (span : Span) (m : Message) : Action Diagnosis Unit :=
  forM m.walk fun node => do
    let _ ← add (.ofMessage path range span node)

/-- Where the files of a report stand: the directory that its file names are seen from, and the
one that this is seen from itself. -/
structure Base where
  current : Path
  root : Path
  deriving DecidableEq, Repr

def Base.resolve (b : Base) (fileName : Text) : Path := Path.resolve b.current b.root fileName

/-- Adds a message once for each of its spans; of a record without a message, nothing. -/
def addRecord (base : Base) : Record → Action Diagnosis Unit
  | .other _ => pure ()
  | .message m => forM m.spans fun span => place (base.resolve span.fileName) (.ofSpan span) span m

def addRecords (base : Base) (records : List Record) : Action Diagnosis Unit :=
  forM records (addRecord base)

/-- Adds the records of a report while it is read: what stands before a line that cannot be read
is added. -/
def addReport (base : Base) (report : Report) : Action Diagnosis Unit := do
  forM report.lines fun line =>
    match line with
    | .blank => pure ()
    | .skipped why => Action.note (.skipped why)
    | .record r => addRecord base r
  if let some overlong := report.stop then Action.stop (.overlong overlong)

def found (x : Action Diagnosis Unit) : Action Unit Files :=
  Action.zoom (fun _ => empty) (fun _ _ => ()) do
    x
    return (← Action.state).files

def aggregate (base : Base) (records : List Record) : Action Unit Files :=
  found (addRecords base records)

/-- The files of a pass over a report that is read while it goes on. -/
def aggregateReport (base : Base) (report : Report) : Action Unit Files :=
  found (addReport base report)

def finish (d : Diagnosis) : Action Collection Unit := Collection.publish d.files

theorem seen_insert (d : Diagnosis) (x y : Diagnostic) :
    (d.insert x).Seen y ↔ (y.path = x.path ∧ y.key = x.key) ∨ d.Seen y := by
  simp [Seen, insert]

end Diagnosis
end CargoReport
