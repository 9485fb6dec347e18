import CargoReport.Proofs.Json.Overlong

namespace CargoReport.Json

variable {α β : Type}

/-- A code point that an array or an object begins with. -/
def opens (c : CodePoint) : Bool := c = '['.toNat || c = readValue.openBrace

/-- How many brackets are opened in a text. -/
def openings (s : Text) : Nat := s.countP opens

theorem openings_le_of_suffix {s t : Text} (h : s <:+ t) : openings s ≤ openings t :=
  h.sublist.countP_le

theorem openings_cons {c : CodePoint} (h : opens c = true) (s : Text) :
    openings (c :: s) = openings s + 1 :=
  List.countP_cons_of_pos h

/-- A reader may stop, but not where values are too deep in one another. -/
def Shallow (x : Except Stop α) : Prop := x ≠ .error .tooDeep

theorem shallow_ok (a : α) : Shallow (.ok a) := by
  simp [Shallow]

theorem shallow_malformed (problem : Problem) (rest : Text) :
    Shallow (.error (.malformed problem rest) : Except Stop α) := by
  simp [Shallow]

theorem Shallow.bind {x : Except Stop α} {f : α → Except Stop β} (hx : Shallow x)
    (hf : ∀ a, Shallow (f a)) : Shallow (x >>= f) := by
  rcases x with stop | a
  · intro h
    cases h
    exact hx rfl
  · exact hf a

theorem Shallow.map {x : Except Stop α} (hx : Shallow x) (f : α → β) : Shallow (x.map f) := by
  rcases x with stop | a
  · intro h
    cases h
    exact hx rfl
  · exact shallow_ok _

theorem shallow_readPieces (opening s : Text) : Shallow (readPieces opening s) := by
  fun_induction readPieces opening s with
  | case2 => exact shallow_ok _
  | case4 h₁ h₂ h₃ h₄ next tail u hu hne ih => exact ih.bind fun _ => shallow_ok _
  | case7 e tail he plain hplain hne ih => exact ih.bind fun _ => shallow_ok _
  | case10 c rest hq hb hc ih => exact ih.bind fun _ => shallow_ok _
  | _ => exact shallow_malformed _ _

theorem shallow_readString (limits : Limits) (opening s : Text) :
    Shallow (readString limits opening s) := by
  apply (shallow_readPieces opening s).bind
  intro pieces
  dsimp only
  split
  · exact shallow_malformed _ _
  · exact shallow_ok _

theorem shallow_readAtom (limits : Limits) (s : Text) : Shallow (readAtom limits s) := by
  unfold readAtom
  split
  · exact shallow_ok _
  · split
    · apply Shallow.map
      unfold Numeral.toJson
      split
      · simp [Shallow]
      · split <;> exact shallow_ok _
    · exact shallow_malformed _ _

theorem shallow_readName (limits : Limits) (s : Text) : Shallow (readName limits s) := by
  cases s with
  | nil => exact shallow_malformed _ _
  | cons c rest =>
    by_cases hc : c = Text.doubleQuote
    · simp only [readName, hc, ne_eq, not_true_eq_false, if_false]
      apply (shallow_readString limits _ rest).bind
      intro name
      split
      · exact shallow_malformed _ _
      · split
        · exact shallow_ok _
        · exact shallow_malformed _ _
    · simp only [readName, hc, ne_eq, not_false_eq_true, if_true]
      exact shallow_malformed _ _

section Nested

variable {item : Text → Except Stop (Json × Text)}

/-- A reader stops where values are too deep in one another only if it stops there in an item. -/
def Within (item : Text → Except Stop (Json × Text)) (s : Text) (x : Except Stop α) : Prop :=
  x = .error .tooDeep → ∃ t, t <:+ s ∧ item t = .error .tooDeep

theorem Shallow.within {x : Except Stop α} (hx : Shallow x) (s : Text) : Within item s x :=
  fun h => absurd h hx

theorem within_item (s : Text) : Within item s (item s) := fun h => ⟨s, List.suffix_rfl, h⟩

theorem Within.of_suffix {s t : Text} {x : Except Stop α} (h : Within item s x) (hs : s <:+ t) :
    Within item t x := by
  intro hx
  obtain ⟨u, hu, hitem⟩ := h hx
  exact ⟨u, hu.trans hs, hitem⟩

theorem Within.bind {s : Text} {x : Except Stop α} {f : α → Except Stop β} (hx : Within item s x)
    (hf : ∀ a, x = .ok a → Within item s (f a)) : Within item s (x >>= f) := by
  rcases x with stop | a
  · intro h
    cases h
    exact hx rfl
  · exact hf a rfl

variable (hitem : ∀ s, Tracked s (item s))
include hitem

theorem suffix_of_item {s rest : Text} {v : Json} (h : item s = .ok (v, rest)) : rest <:+ s := by
  have htracked := hitem s
  rwa [h] at htracked

theorem within_readElements (fuel : Nat) (s : Text) : Within item s (readElements item fuel s) := by
  induction fuel generalizing s with
  | zero => exact (shallow_malformed _ _).within s
  | succ fuel ih =>
    apply (within_item s).bind
    rintro ⟨value, rest⟩ hvalue
    have hrest := suffix_of_item hitem hvalue
    have hgap := suffix_skipGap rest
    dsimp only
    split
    · exact (shallow_malformed _ _).within s
    · rename_i c tail hc
      have htail : tail <:+ s := (List.suffix_cons c tail).trans ((hc ▸ hgap).trans hrest)
      split
      · exact (shallow_ok _).within s
      · split
        · apply ((ih (skipGap tail)).of_suffix ((suffix_skipGap tail).trans htail)).bind
          exact fun _ _ => (shallow_ok _).within s
        · exact (shallow_malformed _ _).within s

theorem within_readArray (s : Text) : Within item s (readArray item s) := by
  unfold readArray
  split
  · exact (shallow_ok _).within s
  · apply ((within_readElements hitem _ _).of_suffix (suffix_skipGap s)).bind
    exact fun _ _ => (shallow_ok _).within s

theorem within_readMembers (limits : Limits) (fuel : Nat) (s : Text) :
    Within item s (readMembers limits item fuel s) := by
  induction fuel generalizing s with
  | zero => exact (shallow_malformed _ _).within s
  | succ fuel ih =>
    apply ((shallow_readName limits s).within s).bind
    rintro ⟨name, s'⟩ hname
    have hs' : s' <:+ s := by
      have htracked := tracked_readName limits s
      rwa [hname] at htracked
    apply ((within_item s').of_suffix hs').bind
    rintro ⟨value, rest⟩ hvalue
    have hrest := (suffix_of_item hitem hvalue).trans hs'
    have hgap := suffix_skipGap rest
    dsimp only
    split
    · exact (shallow_malformed _ _).within s
    · rename_i c tail hc
      have htail : tail <:+ s := (List.suffix_cons c tail).trans ((hc ▸ hgap).trans hrest)
      split
      · exact (shallow_ok _).within s
      · split
        · apply ((ih (skipGap tail)).of_suffix ((suffix_skipGap tail).trans htail)).bind
          exact fun _ _ => (shallow_ok _).within s
        · exact (shallow_malformed _ _).within s

theorem within_readObject (limits : Limits) (s : Text) :
    Within item s (readObject limits item s) := by
  unfold readObject
  split
  · exact (shallow_ok _).within s
  · apply ((within_readMembers hitem limits _ _).of_suffix (suffix_skipGap s)).bind
    exact fun _ _ => (shallow_ok _).within s

end Nested

/-- What is too deep within an item has one bracket less in front there. -/
theorem lt_openings_of_within {item : Text → Except Stop (Json × Text)} {depth : Nat}
    (hitem : ∀ t, item t = .error .tooDeep → depth < openings t) {c : CodePoint} {rest : Text}
    (hc : opens c = true) {x : Except Stop α} (hx : Within item rest x) (h : x = .error .tooDeep) :
    depth + 1 < openings (c :: rest) := by
  obtain ⟨t, ht, hdeep⟩ := hx h
  calc depth + 1 < openings t + 1 := Nat.succ_lt_succ (hitem t hdeep)
    _ ≤ openings rest + 1 := Nat.succ_le_succ (openings_le_of_suffix ht)
    _ = openings (c :: rest) := (openings_cons hc rest).symm

theorem lt_openings_of_readValue (limits : Limits) (hsign : limits.signCounts = false)
    {depth : Nat} {s : Text} (h : readValue limits depth s = .error .tooDeep) :
    depth < openings s := by
  induction depth generalizing s with
  | zero =>
    cases s with
    | nil => cases h
    | cons c rest =>
      have hc : opens c = true := by
        unfold readValue at h
        split at h
        · exact absurd h ((shallow_readString limits _ rest).map _)
        · split at h
          · rename_i hc
            simp [opens, hc]
          · split at h
            · rename_i hc
              simp [opens, hc]
            · exact absurd h (shallow_readAtom limits _)
      rw [openings_cons hc]
      exact Nat.succ_pos _
  | succ depth ih =>
    have htracked := tracked_readValue limits hsign depth
    cases s with
    | nil => cases h
    | cons c rest =>
      unfold readValue at h
      split at h
      · exact absurd h ((shallow_readString limits _ rest).map _)
      · split at h
        · rename_i hc
          exact lt_openings_of_within (fun _ => ih) (by simp [opens, hc])
            (within_readArray htracked rest) h
        · split at h
          · rename_i hc
            exact lt_openings_of_within (fun _ => ih) (by simp [opens, hc])
              (within_readObject htracked limits rest) h
          · exact absurd h (shallow_readAtom limits _)

/-- A document that is refused for its depth opens more brackets than there are levels. -/
theorem lt_openings_of_read {limits : Limits} (hsign : limits.signCounts = false) {s : Text}
    (h : read limits s = .error .tooDeep) : limits.depth < openings s := by
  unfold read readAlone at h
  rcases hv : readValue limits limits.depth (skipGap s) with stop | ⟨value, rest⟩
  · rw [hv] at h
    cases stop with
    | malformed => cases h
    | tooDeep =>
      calc limits.depth < openings (skipGap s) := lt_openings_of_readValue limits hsign hv
        _ ≤ openings s := openings_le_of_suffix (suffix_skipGap s)
    | overlong => cases h
  · simp only [hv, bind, Except.bind] at h
    split at h
    · cases h
    · cases h

/-- More brackets than levels need not be too deep: an empty array takes none of a checker's. -/
example :
    (read { Limits.strict with depth := 1 } "[[]]").isOk = true ∧
      read { Limits.strict with depth := 1 } "[[0]]" = .error .tooDeep ∧
      read { Limits.lenient with depth := 1 } "[[]]" = .error .tooDeep := by
  refine ⟨?_, ?_, ?_⟩ <;> rfl

end CargoReport.Json
