import CargoReport.Message.Basic
import Mathlib.Data.List.Perm.Basic

namespace CargoReport

variable {α β : Type}

/-- Lists that are the same up to order and up to a relation between their elements. -/
inductive Reordered (R : α → α → Prop) : List α → List α → Prop
  | nil : Reordered R [] []
  | cons {a b : α} {l m : List α} : R a b → Reordered R l m → Reordered R (a :: l) (b :: m)
  | swap (a b : α) (l : List α) : Reordered R (a :: b :: l) (b :: a :: l)
  | trans {l m n : List α} : Reordered R l m → Reordered R m n → Reordered R l n

theorem Reordered.of_perm {R : α → α → Prop} (hR : ∀ a, R a a) {l m : List α} (h : l.Perm m) :
    Reordered R l m := by
  induction h with
  | nil => exact .nil
  | cons a _ ih => exact .cons (hR a) ih
  | swap a b l => exact .swap b a l
  | trans _ _ ih ih' => exact .trans ih ih'

theorem Reordered.perm_flatMap {R : α → α → Prop} {f : α → List β}
    (hf : ∀ a b, R a b → (f a).Perm (f b)) {l m : List α} (h : Reordered R l m) :
    (l.flatMap f).Perm (m.flatMap f) := by
  induction h with
  | nil => exact .refl _
  | cons hab _ ih =>
    rw [List.flatMap_cons, List.flatMap_cons]
    exact (hf _ _ hab).append ih
  | swap a b l =>
    simp only [List.flatMap_cons]
    exact List.perm_append_comm_assoc (f a) (f b) (l.flatMap f)
  | trans _ _ ih ih' => exact ih.trans ih'

theorem Reordered.forall_mem {R : α → α → Prop} {p : α → Prop} (hp : ∀ a b, R a b → p a → p b)
    {l m : List α} (h : Reordered R l m) (hl : ∀ a ∈ l, p a) : ∀ b ∈ m, p b := by
  induction h with
  | nil => exact hl
  | cons hab _ ih =>
    rw [List.forall_mem_cons] at hl ⊢
    exact ⟨hp _ _ hab hl.1, ih hl.2⟩
  | swap a b l =>
    simp only [List.forall_mem_cons] at hl ⊢
    exact ⟨hl.2.1, hl.1, hl.2.2⟩
  | trans _ _ ih ih' => exact ih' (ih hl)

namespace Message

/-- What is read off a message without its spans and its children. -/
def Own (f : Message → α) : Prop :=
  ∀ m spans children, f { m with spans := spans, children := children } = f m

mutual

/-- The tree without any spans. -/
def bare : Message → Message
  | ⟨level, message, rendered, code, _, children⟩ =>
    ⟨level, message, rendered, code, [], bareAll children⟩

def bareAll : List Message → List Message
  | [] => []
  | m :: rest => bare m :: bareAll rest

end

mutual

theorem map_preorder_bare {f : Message → α} (hf : Own f) :
    ∀ m : Message, m.bare.preorder.map f = m.preorder.map f
  | ⟨level, message, rendered, code, spans, children⟩ => by
    have hown : f ⟨level, message, rendered, code, [], bareAll children⟩ =
        f ⟨level, message, rendered, code, spans, children⟩ :=
      hf ⟨level, message, rendered, code, spans, children⟩ [] (bareAll children)
    rw [bare, preorder, preorder, List.map_cons, List.map_cons, hown,
      map_preorderAll_bare hf children]

theorem map_preorderAll_bare {f : Message → α} (hf : Own f) :
    ∀ ms : List Message, (preorderAll (bareAll ms)).map f = (preorderAll ms).map f
  | [] => rfl
  | m :: rest => by
    rw [bareAll, preorderAll, preorderAll, List.map_append, List.map_append,
      map_preorder_bare hf m, map_preorderAll_bare hf rest]

end

theorem map_preorder_of_bare_eq {f : Message → α} (hf : Own f) {m m' : Message}
    (h : m.bare = m'.bare) : m.preorder.map f = m'.preorder.map f := by
  rw [← map_preorder_bare hf m, h, map_preorder_bare hf m']

/-- Trees with the same messages in them, the spans of each and the children of each in any
order. -/
inductive Shuffled : Message → Message → Prop
  | node {level message : Text} {rendered : Option Text} {code : Option Code}
      {spans spans' : List Span} {children children' : List Message} :
      spans.Perm spans' → Reordered Shuffled children children' →
      Shuffled ⟨level, message, rendered, code, spans, children⟩
        ⟨level, message, rendered, code, spans', children'⟩

mutual

theorem Shuffled.refl : ∀ m : Message, m.Shuffled m
  | ⟨_, _, _, _, spans, children⟩ => .node (.refl spans) (reordered_refl children)

theorem reordered_refl : ∀ ms : List Message, Reordered Shuffled ms ms
  | [] => .nil
  | m :: rest => .cons (.refl m) (reordered_refl rest)

end

theorem Shuffled.spans {m m' : Message} (h : m.Shuffled m') : m.spans.Perm m'.spans := by
  cases h with
  | node hspans _ => exact hspans

mutual

theorem Shuffled.perm_map_preorder {f : Message → α} (hf : Own f) :
    ∀ {m m' : Message}, m.Shuffled m' → (m.preorder.map f).Perm (m'.preorder.map f)
  | ⟨level, message, rendered, code, spans, children⟩, ⟨_, _, _, _, spans', children'⟩,
      .node _ hchildren => by
    have hown : f ⟨level, message, rendered, code, spans', children'⟩ =
        f ⟨level, message, rendered, code, spans, children⟩ :=
      hf ⟨level, message, rendered, code, spans, children⟩ spans' children'
    rw [preorder, preorder, List.map_cons, List.map_cons, hown]
    exact (perm_map_preorderAll hf hchildren).cons _

theorem perm_map_preorderAll {f : Message → α} (hf : Own f) :
    ∀ {ms ms' : List Message}, Reordered Shuffled ms ms' →
      ((preorderAll ms).map f).Perm ((preorderAll ms').map f)
  | _, _, .nil => .refl _
  | _, _, .cons hm hrest => by
    rw [preorderAll, preorderAll, List.map_append, List.map_append]
    exact (hm.perm_map_preorder hf).append (perm_map_preorderAll hf hrest)
  | _, _, .swap a b ms => by
    simp only [preorderAll, List.map_append]
    exact List.perm_append_comm_assoc _ _ _
  | _, _, .trans h h' => (perm_map_preorderAll hf h).trans (perm_map_preorderAll hf h')

end

end Message
end CargoReport
