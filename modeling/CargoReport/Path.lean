import CargoReport.Text.Basic

namespace CargoReport

/-- What a path starts from. Two slashes are a root of their own; three or more are one. -/
inductive Path.Root where
  | none
  | slash
  | twoSlashes
  deriving DecidableEq, Repr

structure Path where
  root : Path.Root
  names : List Text
  deriving DecidableEq, Repr

namespace Path

def slash : CodePoint := '/'.toNat

/-- The name that goes up. -/
def parent : Text := ".."

def Root.ofText (t : Text) : Root :=
  match (t.takeWhile (· = Path.slash)).length with
  | 0 => .none
  | 2 => .twoSlashes
  | _ => .slash

def Root.text : Root → Text
  | .none => []
  | .slash => "/"
  | .twoSlashes => "//"

def ofText (t : Text) : Path where
  root := .ofText t
  names := (t.splitOn slash).filter fun name => name ≠ [] ∧ name ≠ ("." : Text)

/-- The text of a path; one without root and names is a dot. -/
def text (p : Path) : Text :=
  if p.root = .none ∧ p.names = [] then "."
  else p.root.text ++ List.intercalate [slash] p.names

def IsAbsolute (p : Path) : Prop := p.root ≠ .none

instance (p : Path) : Decidable p.IsAbsolute := inferInstanceAs (Decidable (_ ≠ _))

def join (p q : Path) : Path :=
  if q.IsAbsolute then q else ⟨p.root, p.names ++ q.names⟩

/-- Puts a name on the stack of the names kept so far. Going up takes the last one back; where none
is left, it changes nothing at a root and is kept in a path without one. -/
def push (root : Root) (stack : List Text) (name : Text) : List Text :=
  if name ≠ parent then name :: stack
  else
    match stack with
    | [] => if root = .none then [parent] else []
    | top :: rest => if top = parent then parent :: top :: rest else rest

/-- The path without the names that are taken back. -/
def normal (p : Path) : Path :=
  ⟨p.root, (p.names.foldl (push p.root) []).reverse⟩

/-- Where a file stands: its name is seen from `root`, and `root` from `current`. -/
def resolve (current root : Path) (fileName : Text) : Path :=
  ((current.join root).join (ofText fileName)).normal

@[simp] theorem join_of_isAbsolute (p : Path) {q : Path} (h : q.IsAbsolute) : p.join q = q := by
  simp [join, h]

theorem root_join (p q : Path) (h : ¬q.IsAbsolute) : (p.join q).root = p.root := by
  simp [join, h]

@[simp] theorem root_normal (p : Path) : p.normal.root = p.root := rfl

end Path
end CargoReport
