namespace CargoReport

/-- A code point, surrogates included. -/
abbrev CodePoint := Nat

abbrev Text := List CodePoint

namespace Text

def apostrophe : CodePoint := 0x27

def doubleQuote : CodePoint := 0x22

def backslash : CodePoint := 0x5C

def newline : CodePoint := 0x0A

def ofString (s : String) : Text := s.toList.map Char.toNat

instance : Coe String Text := ⟨ofString⟩

/-- The pieces between the separators, one more than there are separators. -/
def splitOn (sep : CodePoint) : Text → List Text
  | [] => [[]]
  | c :: rest =>
    if c = sep then [] :: splitOn sep rest
    else
      match splitOn sep rest with
      | [] => [[c]]
      | piece :: pieces => (c :: piece) :: pieces

def trim (drop : CodePoint → Bool) (t : Text) : Text :=
  ((t.dropWhile drop).reverse.dropWhile drop).reverse

/-- What follows a word that the text begins with. -/
def after? (word : Text) (t : Text) : Option Text :=
  if word.isPrefixOf t then some (t.drop word.length) else none

/-- Capital ASCII letters become small. -/
def lowerAscii (t : Text) : Text :=
  t.map fun c => if 'A'.toNat ≤ c ∧ c ≤ 'Z'.toNat then c + 32 else c

def isHighSurrogate (c : CodePoint) : Bool := 0xD800 ≤ c && c ≤ 0xDBFF

def isLowSurrogate (c : CodePoint) : Bool := 0xDC00 ≤ c && c ≤ 0xDFFF

def isSurrogate (c : CodePoint) : Bool := 0xD800 ≤ c && c ≤ 0xDFFF

def joinSurrogates (high low : CodePoint) : CodePoint :=
  0x10000 + (high - 0xD800) * 0x400 + (low - 0xDC00)

@[simp] theorem splitOn_nil (sep : CodePoint) : splitOn sep [] = [[]] := rfl

theorem splitOn_ne_nil (sep : CodePoint) (t : Text) : splitOn sep t ≠ [] := by
  induction t with
  | nil => simp
  | cons c rest ih =>
    rw [splitOn]
    split
    · simp
    · split <;> simp

@[simp] theorem splitOn_cons_self (sep : CodePoint) (t : Text) :
    splitOn sep (sep :: t) = [] :: splitOn sep t := by
  rw [splitOn, if_pos rfl]

/-- A separator splits what is before it from what is after it. -/
theorem splitOn_append_cons (sep : CodePoint) (s t : Text) :
    splitOn sep (s ++ sep :: t) = splitOn sep s ++ splitOn sep t := by
  induction s with
  | nil => simp
  | cons c rest ih =>
    rw [List.cons_append, splitOn, splitOn, ih]
    split
    · simp
    · rcases h : splitOn sep rest with _ | ⟨piece, pieces⟩
      · exact absurd h (splitOn_ne_nil sep rest)
      · simp

/-- The Unicode property White_Space. -/
def isWhiteSpace (c : CodePoint) : Bool :=
  (0x09 ≤ c && c ≤ 0x0D) || c == 0x20 || c == 0x85 || c == 0xA0 || c == 0x1680
    || (0x2000 ≤ c && c ≤ 0x200A) || c == 0x2028 || c == 0x2029 || c == 0x202F || c == 0x205F
    || c == 0x3000

/-- White space or one of the four information separators. -/
def isBlank (c : CodePoint) : Bool := isWhiteSpace c || (0x1C ≤ c && c ≤ 0x1F)

def strip (t : Text) : Text := t.trim isBlank

end Text
end CargoReport
