import Mathlib.Data.List.Basic
import Mathlib.Data.List.Nodup

/-!
# Linked cells

`Linked next head l`: from `head`, the links `next` lead through the cells of `l` one after
the other, and end there. An edit of a linked list changes one or two links at an end of it;
each lemma names the links that it keeps.
-/

universe u

variable {κ : Type u}

def Linked (next : κ → Option κ) : Option κ → List κ → Prop
  | head, [] => head = none
  | head, a :: l => head = some a ∧ Linked next (next a) l

namespace Linked

variable {next next' : κ → Option κ} {head : Option κ} {l : List κ} {a t : κ}

@[simp] theorem nil_iff : Linked next head [] ↔ head = none := Iff.rfl

@[simp] theorem cons_iff : Linked next head (a :: l) ↔ head = some a ∧ Linked next (next a) l := Iff.rfl

/-- The head of the list is its first cell. -/
theorem head_eq (h : Linked next head l) : head = l.head? := by
  cases l with
  | nil => exact h
  | cons a l => exact h.1

/-- A list depends on the links of its cells only. -/
theorem congr (h : Linked next head l) (hkeep : ∀ x ∈ l, next' x = next x) : Linked next' head l := by
  induction l generalizing head with
  | nil => exact h
  | cons a l ih =>
      refine ⟨h.1, ?_⟩
      rw [hkeep a List.mem_cons_self]
      exact ih h.2 fun x hx => hkeep x (List.mem_cons_of_mem a hx)

/-- The links leave no choice. -/
theorem unique {l' : List κ} (h : Linked next head l) (h' : Linked next head l') : l = l' := by
  induction l generalizing head l' with
  | nil =>
      cases l' with
      | nil => rfl
      | cons b l' =>
          have hhead := h.symm.trans h'.1
          cases hhead
  | cons a l ih =>
      cases l' with
      | nil =>
          have hhead := h.1.symm.trans h'
          cases hhead
      | cons b l' =>
          have hab : a = b := Option.some.inj (h.1.symm.trans h'.1)
          subst hab
          rw [ih h.2 h'.2]

/-- What follows a cell of the list is a list from its link. -/
theorem of_append {l₁ l₂ : List κ} (h : Linked next head (l₁ ++ a :: l₂)) : Linked next (next a) l₂ := by
  induction l₁ generalizing head with
  | nil => exact h.2
  | cons b l₁ ih => exact ih h.2

/-- A list that ends comes to no cell twice. -/
theorem nodup (h : Linked next head l) : l.Nodup := by
  induction l generalizing head with
  | nil => exact List.nodup_nil
  | cons a l ih =>
      refine List.nodup_cons.2 ⟨fun ha => ?_, ih h.2⟩
      obtain ⟨l₁, l₂, rfl⟩ := List.append_of_mem ha
      have heq := congrArg List.length (h.2.unique (of_append h.2))
      simp at heq
      omega

/-- A new cell behind the last one. -/
theorem snoc (h : Linked next head (l ++ [t])) (hkeep : ∀ x ∈ l, next' x = next x)
    (ht : next' t = some a) (ha : next' a = none) : Linked next' head (l ++ [t, a]) := by
  induction l generalizing head with
  | nil => exact ⟨h.1, ht, ha⟩
  | cons b l ih =>
      refine ⟨h.1, ?_⟩
      rw [hkeep b List.mem_cons_self]
      exact ih h.2 fun x hx => hkeep x (List.mem_cons_of_mem b hx)

/-- The list without its last cell. -/
theorem dropLast (h : Linked next head (l ++ [t, a])) (hkeep : ∀ x ∈ l, next' x = next x)
    (ht : next' t = none) : Linked next' head (l ++ [t]) := by
  induction l generalizing head with
  | nil => exact ⟨h.1, ht⟩
  | cons b l ih =>
      refine ⟨h.1, ?_⟩
      rw [hkeep b List.mem_cons_self]
      exact ih h.2 fun x hx => hkeep x (List.mem_cons_of_mem b hx)

/-- A link between two cells of the list says that they follow one another. -/
theorem next_eq_some_iff {b : κ} (h : Linked next head l) (ha : a ∈ l) :
    next a = some b ↔ ∃ l₁ l₂, l = l₁ ++ a :: b :: l₂ := by
  constructor
  · intro hab
    obtain ⟨l₁, l₂, rfl⟩ := List.append_of_mem ha
    have hrest := of_append h
    rw [hab] at hrest
    cases l₂ with
    | nil => cases hrest
    | cons c l₂ =>
        obtain rfl : b = c := Option.some.inj hrest.1
        exact ⟨l₁, l₂, rfl⟩
  · rintro ⟨l₁, l₂, rfl⟩
    exact (of_append h).1

/-- A list and its reverse are linked by inverse links. -/
theorem inverse {last : Option κ} {prev : κ → Option κ} {b : κ} (h : Linked next head l)
    (h' : Linked prev last l.reverse) (ha : a ∈ l) (hb : b ∈ l) : next a = some b ↔ prev b = some a := by
  rw [next_eq_some_iff h ha, next_eq_some_iff h' (List.mem_reverse.2 hb)]
  constructor
  · rintro ⟨l₁, l₂, rfl⟩
    exact ⟨l₂.reverse, l₁.reverse, by simp⟩
  · rintro ⟨l₁, l₂, heq⟩
    refine ⟨l₂.reverse, l₁.reverse, ?_⟩
    rw [← List.reverse_reverse l, heq]
    simp

end Linked
