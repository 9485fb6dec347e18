import CargoReport.Path
import CargoReport.Proofs.Text

namespace CargoReport.Path

/-- A path whose names can each stand between two slashes. -/
structure Spelled (p : Path) : Prop where
  proper : ∀ name ∈ p.names, name ≠ [] ∧ name ≠ ("." : Text)
  apart : ∀ name ∈ p.names, slash ∉ name

theorem spelled_ofText (t : Text) : (ofText t).Spelled where
  proper := by
    intro name hname
    exact of_decide_eq_true (List.mem_filter.mp hname).2
  apart := by
    intro name hname
    exact Text.notMem_of_mem_splitOn (List.mem_filter.mp hname).1

theorem Spelled.join {p q : Path} (hp : p.Spelled) (hq : q.Spelled) : (p.join q).Spelled := by
  rw [Path.join]
  split
  · exact hq
  · exact ⟨List.forall_mem_append.mpr ⟨hp.proper, hq.proper⟩,
      List.forall_mem_append.mpr ⟨hp.apart, hq.apart⟩⟩

section Spelled

variable {p : Path} (h : p.Spelled)
include h

/-- Behind the slashes of its root, the text of a path has none at first. -/
theorem Spelled.head?_intercalate : (List.intercalate [slash] p.names).head? ≠ some slash := by
  rcases hnames : p.names with _ | ⟨name, rest⟩
  · simp
  · have hmem : name ∈ p.names := hnames ▸ List.mem_cons_self
    have hapart := h.apart name hmem
    obtain ⟨c, tail, rfl⟩ := List.exists_cons_of_ne_nil (h.proper name hmem).1
    have hc : c ≠ slash := fun he => hapart (he ▸ List.mem_cons_self)
    cases rest with
    | nil => simpa using hc
    | cons next more =>
      rw [List.intercalate_cons_cons]
      simpa using hc

theorem Spelled.takeWhile_intercalate :
    (List.intercalate [slash] p.names).takeWhile (· = slash) = [] := by
  have hhead := h.head?_intercalate
  generalize List.intercalate [slash] p.names = t at hhead ⊢
  cases t with
  | nil => rfl
  | cons c rest =>
    have hc : c ≠ slash := fun he => hhead (congrArg some he)
    exact List.takeWhile_cons_of_neg (by simpa using hc)

theorem Spelled.names_intercalate :
    (Text.splitOn slash (List.intercalate [slash] p.names)).filter
      (fun name => name ≠ [] ∧ name ≠ ("." : Text)) = p.names := by
  by_cases hnames : p.names = []
  · rw [hnames]
    rfl
  · rw [Text.splitOn_intercalate hnames h.apart, List.filter_eq_self]
    exact fun name hname => decide_eq_true (h.proper name hname)

/-- The text of a path names the path. -/
theorem Spelled.ofText_text : ofText p.text = p := by
  have hlead := h.takeWhile_intercalate
  have hnames := h.names_intercalate
  obtain ⟨root, names⟩ := p
  by_cases hnone : root = .none ∧ names = []
  · obtain ⟨rfl, rfl⟩ := hnone
    rfl
  · rw [text, if_neg hnone]
    cases root with
    | none =>
      rw [Root.text, List.nil_append, ofText, Root.ofText, hlead]
      exact congrArg (Path.mk .none) hnames
    | slash =>
      change ofText (slash :: List.intercalate [slash] names) = _
      rw [ofText, Root.ofText, List.takeWhile_cons_of_pos (by simp), hlead,
        Text.splitOn_cons_self]
      exact congrArg (Path.mk .slash) hnames
    | twoSlashes =>
      change ofText (slash :: slash :: List.intercalate [slash] names) = _
      rw [ofText, Root.ofText, List.takeWhile_cons_of_pos (by simp),
        List.takeWhile_cons_of_pos (by simp), hlead, Text.splitOn_cons_self,
        Text.splitOn_cons_self]
      exact congrArg (Path.mk .twoSlashes) hnames

end Spelled

/-- A text that starts at a root. -/
def Rooted (t : Text) : Prop := t.head? = some slash

instance (t : Text) : Decidable (Rooted t) := inferInstanceAs (Decidable (_ = _))

/-- The names kept so far and one more, the last one first. -/
def keep (kept : List Text) (name : Text) : List Text :=
  if name = [] ∨ name = ("." : Text) then kept
  else if name = parent then kept.tail
  else name :: kept

/-- The texts that lead to a file, the first of them from a root. -/
def route (current root fileName : Text) : List Text :=
  if Rooted fileName then [fileName]
  else if Rooted root then [root, fileName]
  else [current, root, fileName]

/-- The root that slashes at the start stand for: exactly two are a root of their own. -/
def leading (t : Text) : Root :=
  if (t.takeWhile (· = slash)).length = 2 then .twoSlashes else .slash

/-- Where a file name leads, seen from `root`, and `root` from `current`. -/
def lexical (current root fileName : Text) : Path where
  root := leading ((route current root fileName).headD [])
  names := (((route current root fileName).flatMap (Text.splitOn slash)).foldl keep []).reverse

/-- A path from a root on in which no name is left to be taken back or passed over. -/
structure Canonical (p : Path) : Prop where
  absolute : p.IsAbsolute
  proper : ∀ name ∈ p.names, name ≠ [] ∧ name ≠ ("." : Text) ∧ name ≠ parent
  apart : ∀ name ∈ p.names, slash ∉ name

theorem rooted_iff (t : Text) : Rooted t ↔ t.takeWhile (· = slash) ≠ [] := by
  cases t with
  | nil => simp [Rooted]
  | cons c rest => by_cases hc : c = slash <;> simp [Rooted, hc]

theorem root_ofText_of_rooted {t : Text} (h : Rooted t) : (ofText t).root = leading t := by
  have hne := List.length_pos_iff.mpr ((rooted_iff t).mp h)
  rw [ofText, Root.ofText, leading]
  generalize (t.takeWhile (· = slash)).length = n at hne ⊢
  rcases n with _ | _ | _ | n
  · exact absurd hne (Nat.lt_irrefl 0)
  all_goals simp

theorem isAbsolute_ofText_iff (t : Text) : (ofText t).IsAbsolute ↔ Rooted t := by
  constructor
  · intro h
    rw [rooted_iff]
    intro hnone
    exact h (by rw [ofText, Root.ofText, hnone]; rfl)
  · intro h
    rw [IsAbsolute, root_ofText_of_rooted h, leading]
    split <;> simp

theorem join_of_not_isAbsolute (p : Path) {q : Path} (h : ¬q.IsAbsolute) :
    p.join q = ⟨p.root, p.names ++ q.names⟩ := if_neg h

/-- The route of a file name joined: it starts at the root of the first text. -/
theorem join_join_ofText {current : Text} (h : Rooted current) (root fileName : Text) :
    ((ofText current).join (ofText root)).join (ofText fileName) =
      ⟨leading ((route current root fileName).headD []),
        (route current root fileName).flatMap fun t => (ofText t).names⟩ := by
  by_cases hname : Rooted fileName
  · rw [join_of_isAbsolute _ ((isAbsolute_ofText_iff _).mpr hname), route, if_pos hname,
      List.headD_cons, ← root_ofText_of_rooted hname, List.flatMap_singleton]
  · rw [join_of_not_isAbsolute _ (mt (isAbsolute_ofText_iff _).mp hname), route, if_neg hname]
    by_cases hroot : Rooted root
    · rw [join_of_isAbsolute _ ((isAbsolute_ofText_iff _).mpr hroot), if_pos hroot,
        List.headD_cons, ← root_ofText_of_rooted hroot]
      simp
    · rw [join_of_not_isAbsolute _ (mt (isAbsolute_ofText_iff _).mp hroot), if_neg hroot,
        List.headD_cons, ← root_ofText_of_rooted h]
      simp

theorem forall_keep {P : Text → Prop} {kept : List Text} {name : Text} (hkept : ∀ n ∈ kept, P n)
    (hname : name ≠ [] → name ≠ ("." : Text) → name ≠ parent → P name) :
    ∀ n ∈ keep kept name, P n := by
  rw [keep]
  split
  · exact hkept
  · rename_i hblank
    rw [not_or] at hblank
    split
    · exact fun n hn => hkept n (List.mem_of_mem_tail hn)
    · rename_i hparent
      exact List.forall_mem_cons.mpr ⟨hname hblank.1 hblank.2 hparent, hkept⟩

theorem forall_foldl_keep {P : Text → Prop} {kept names : List Text} (hkept : ∀ n ∈ kept, P n)
    (hnames : ∀ n ∈ names, n ≠ [] → n ≠ ("." : Text) → n ≠ parent → P n) :
    ∀ n ∈ names.foldl keep kept, P n := by
  induction names generalizing kept with
  | nil => exact hkept
  | cons name rest ih =>
    obtain ⟨hname, hrest⟩ := List.forall_mem_cons.mp hnames
    exact ih (forall_keep hkept hname) hrest

theorem push_of_ne {name : Text} (h : name ≠ parent) (root : Root) (kept : List Text) :
    push root kept name = name :: kept := by
  rw [push.eq_def, if_pos h]

/-- From a root on, nothing is kept of a name that goes up. -/
theorem push_parent {root : Root} (hroot : root ≠ .none) {kept : List Text}
    (hkept : parent ∉ kept) : push root kept parent = kept.tail := by
  rw [push.eq_def, if_neg (not_not_intro rfl)]
  cases kept with
  | nil => exact if_neg hroot
  | cons top rest =>
    have htop : top ≠ parent := fun he => hkept (he ▸ List.mem_cons_self)
    exact if_neg htop

theorem push_eq_keep {root : Root} (hroot : root ≠ .none) {kept : List Text}
    (hkept : parent ∉ kept) {name : Text} (hblank : ¬(name = [] ∨ name = ("." : Text))) :
    push root kept name = keep kept name := by
  rw [keep, if_neg hblank]
  by_cases hname : name = parent
  · rw [if_pos hname, hname, push_parent hroot hkept]
  · rw [if_neg hname, push_of_ne hname]

theorem foldl_push_of_proper (root : Root) (kept : List Text) {names : List Text}
    (h : ∀ name ∈ names, name ≠ parent) : names.foldl (push root) kept = names.reverse ++ kept := by
  induction names generalizing kept with
  | nil => rfl
  | cons name rest ih =>
    obtain ⟨hname, hrest⟩ := List.forall_mem_cons.mp h
    rw [List.foldl_cons, push_of_ne hname, ih _ hrest]
    simp

theorem foldl_push_eq {root : Root} (hroot : root ≠ .none) {kept : List Text}
    (hkept : parent ∉ kept) (names : List Text) :
    (names.filter fun name => name ≠ [] ∧ name ≠ ("." : Text)).foldl (push root) kept =
      names.foldl keep kept := by
  induction names generalizing kept with
  | nil => rfl
  | cons name rest ih =>
    by_cases hblank : name = [] ∨ name = ("." : Text)
    · have hsame : keep kept name = kept := if_pos hblank
      rw [List.filter_cons_of_neg (by simpa [Decidable.or_iff_not_imp_left] using hblank),
        List.foldl_cons, hsame, ih hkept]
    · have hnext : ∀ n ∈ keep kept name, n ≠ parent :=
        forall_keep (fun n hn he => hkept (he ▸ hn)) (fun _ _ hparent => hparent)
      rw [List.filter_cons_of_pos (by simpa [not_or] using hblank), List.foldl_cons,
        List.foldl_cons, push_eq_keep hroot hkept hblank, ih (fun hm => hnext _ hm rfl)]

theorem leading_ne_none (t : Text) : leading t ≠ .none := by
  rw [leading]
  split <;> simp

theorem resolve_ofText {current : Text} (h : Rooted current) (root fileName : Text) :
    resolve (ofText current) (ofText root) fileName = lexical current root fileName := by
  have hnames : ((route current root fileName).flatMap fun t => (ofText t).names) =
      ((route current root fileName).flatMap (Text.splitOn slash)).filter
        fun name => name ≠ [] ∧ name ≠ ("." : Text) := by
    rw [List.filter_flatMap]
    rfl
  rw [resolve, join_join_ofText h, normal, hnames,
    foldl_push_eq (leading_ne_none _) List.not_mem_nil, lexical]

theorem canonical_lexical (current root fileName : Text) :
    (lexical current root fileName).Canonical where
  absolute := leading_ne_none _
  proper := by
    intro name hname
    refine forall_foldl_keep (P := fun n => n ≠ [] ∧ n ≠ ("." : Text) ∧ n ≠ parent)
      (List.forall_mem_nil _) ?_ name (List.mem_reverse.mp hname)
    exact fun n _ hnil hdot hparent => ⟨hnil, hdot, hparent⟩
  apart := by
    intro name hname
    refine forall_foldl_keep (P := fun n => slash ∉ n) (List.forall_mem_nil _) ?_ name
      (List.mem_reverse.mp hname)
    intro n hn _ _ _
    obtain ⟨t, -, ht⟩ := List.mem_flatMap.mp hn
    exact Text.notMem_of_mem_splitOn ht

section Canonical

variable {p : Path} (h : p.Canonical)
include h

theorem Canonical.spelled : p.Spelled where
  proper := fun name hname => ⟨(h.proper name hname).1, (h.proper name hname).2.1⟩
  apart := h.apart

theorem Canonical.text_eq : p.text = p.root.text ++ List.intercalate [slash] p.names :=
  if_neg fun hnone => h.absolute hnone.1

theorem Canonical.takeWhile_text : p.text.takeWhile (· = slash) = p.root.text := by
  have hnone := h.spelled.takeWhile_intercalate
  rw [h.text_eq]
  cases hroot : p.root with
  | none => exact absurd hroot h.absolute
  | slash => simpa [Root.text, Text.ofString, slash] using hnone
  | twoSlashes => simpa [Root.text, Text.ofString, slash] using hnone

/-- The text of a canonical path names the path. -/
theorem Canonical.ofText_text : ofText p.text = p := h.spelled.ofText_text

theorem Canonical.normal_eq : p.normal = p := by
  rw [normal, foldl_push_of_proper p.root [] fun name hname => (h.proper name hname).2.2,
    List.append_nil, List.reverse_reverse]

/-- A canonical path is found again from anywhere. -/
theorem Canonical.resolve_text (current root : Path) : resolve current root p.text = p := by
  rw [resolve, h.ofText_text, join_of_isAbsolute _ h.absolute, h.normal_eq]

end Canonical

theorem join_assoc (p q r : Path) : (p.join q).join r = p.join (q.join r) := by
  by_cases hr : r.IsAbsolute
  · rw [join_of_isAbsolute _ hr, join_of_isAbsolute _ hr, join_of_isAbsolute _ hr]
  · rw [join_of_not_isAbsolute _ hr, join_of_not_isAbsolute q hr]
    by_cases hq : q.IsAbsolute
    · have hroot : (⟨q.root, q.names ++ r.names⟩ : Path).IsAbsolute := hq
      rw [join_of_isAbsolute _ hq, join_of_isAbsolute _ hroot]
    · have hroot : ¬(⟨q.root, q.names ++ r.names⟩ : Path).IsAbsolute := hq
      rw [join_of_not_isAbsolute _ hq, join_of_not_isAbsolute _ hroot, List.append_assoc]

theorem isAbsolute_join {p : Path} (h : p.IsAbsolute) (q : Path) : (p.join q).IsAbsolute := by
  by_cases hq : q.IsAbsolute
  · rwa [join_of_isAbsolute _ hq]
  · rwa [IsAbsolute, root_join p q hq]

/-- From a root on, no name that goes up is ever kept. -/
theorem parent_notMem_push {root : Root} (hroot : root ≠ .none) {kept : List Text}
    (hkept : parent ∉ kept) (name : Text) : parent ∉ push root kept name := by
  by_cases hname : name = parent
  · rw [hname, push_parent hroot hkept]
    exact fun hmem => hkept (List.mem_of_mem_tail hmem)
  · rw [push_of_ne hname, List.mem_cons, not_or]
    exact ⟨Ne.symm hname, hkept⟩

theorem parent_notMem_foldl_push {root : Root} (hroot : root ≠ .none) {kept : List Text}
    (hkept : parent ∉ kept) (names : List Text) : parent ∉ names.foldl (push root) kept := by
  induction names generalizing kept with
  | nil => exact hkept
  | cons name rest ih => exact ih (parent_notMem_push hroot hkept name)

/-- What is seen from a directory does not depend on whether names were taken back before. -/
theorem normal_join_normal {p : Path} (h : p.IsAbsolute) (q : Path) :
    (p.normal.join q).normal = (p.join q).normal := by
  by_cases hq : q.IsAbsolute
  · rw [join_of_isAbsolute _ hq, join_of_isAbsolute _ hq]
  · have hkept : parent ∉ p.names.foldl (push p.root) [] :=
      parent_notMem_foldl_push h List.not_mem_nil p.names
    -- Going through the names of the normal path rebuilds the stack that it was read off.
    have hagain : p.normal.names.foldl (push p.root) [] = p.names.foldl (push p.root) [] := by
      rw [normal, foldl_push_of_proper, List.reverse_reverse, List.append_nil]
      exact fun name hname he => hkept (he ▸ List.mem_reverse.mp hname)
    rw [join_of_not_isAbsolute _ hq, join_of_not_isAbsolute _ hq, normal, root_normal,
      List.foldl_append, hagain, ← List.foldl_append, normal]

/-- A name in a directory is found at the same place if the directory is resolved first, and if the
two names are joined and resolved from where the directory was, whatever `..` there is in them. -/
theorem resolve_resolve {current : Path} (h : current.IsAbsolute) (root : Path)
    (directory fileName : Text) :
    resolve current (resolve current root directory) fileName =
      resolve current root ((ofText directory).join (ofText fileName)).text := by
  have hplace : ((current.join root).join (ofText directory)).IsAbsolute :=
    isAbsolute_join (isAbsolute_join h root) _
  have hjoined : ((ofText directory).join (ofText fileName)).Spelled :=
    (spelled_ofText directory).join (spelled_ofText fileName)
  calc resolve current (resolve current root directory) fileName
      = (((current.join root).join (ofText directory)).normal.join (ofText fileName)).normal := by
        have habsolute : (resolve current root directory).IsAbsolute := hplace
        rw [resolve, join_of_isAbsolute _ habsolute, resolve]
    _ = (((current.join root).join (ofText directory)).join (ofText fileName)).normal :=
        normal_join_normal hplace _
    _ = resolve current root ((ofText directory).join (ofText fileName)).text := by
        rw [join_assoc, resolve, hjoined.ofText_text]

theorem resolve_resolve_climbing :
    let current := ofText "//home"
    let joined := ((ofText "../../../a/./b").join (ofText "..//../../c/")).text
    current.IsAbsolute ∧ joined = ("../../../a/b/../../../c" : Text) ∧
      resolve current (resolve current (ofText "ws") "../../../a/./b") "..//../../c/" =
        resolve current (ofText "ws") joined ∧
      resolve current (ofText "ws") joined = ofText "//c" := by
  intro current joined
  have habsolute : current.IsAbsolute := by decide
  have hjoined : joined = ("../../../a/b/../../../c" : Text) := by decide +kernel
  refine ⟨habsolute, hjoined, resolve_resolve habsolute _ _ _, ?_⟩
  rw [hjoined]
  decide +kernel

end CargoReport.Path
