import Mathlib.Algebra.BigOperators.Fin
import Mathlib.Algebra.BigOperators.Finprod
import Mathlib.Algebra.Order.BigOperators.Group.Finset

/-!
# Tallies over a finite family

`tally w f` adds the weight `w (f a)` over a finite index type. A family that
changes in one place changes its tally by the two weights of that place
(`tally_update`); for weights of at most one, the tally counts the places of
weight one, so a tally below the number of places leaves a place of weight zero
(`exists_of_tally_lt`).
-/

open Finset

variable {A β : Type*} [Fintype A]

/-- The sum of the weights of the family's members. -/
def tally (w : β → ℕ) (f : A → β) : ℕ := ∑ a, w (f a)

theorem tally_update [DecidableEq A] (w : β → ℕ) (f : A → β) (i : A) (b : β) :
    tally w (Function.update f i b) + w (f i) = tally w f + w b := by
  have split (g : A → β) : tally w g = w (g i) + ∑ a ∈ univ.erase i, w (g a) :=
    (add_sum_erase univ (fun a => w (g a)) (mem_univ i)).symm
  have same : ∑ a ∈ univ.erase i, w (Function.update f i b a) = ∑ a ∈ univ.erase i, w (f a) :=
    sum_congr rfl fun a ha => by rw [Function.update_of_ne (ne_of_mem_erase ha)]
  rw [split f, split (Function.update f i b), same, Function.update_self]
  omega

theorem tally_eq_zero {w : β → ℕ} {f : A → β} (h : ∀ a, w (f a) = 0) : tally w f = 0 :=
  sum_eq_zero fun a _ => h a

theorem le_tally (w : β → ℕ) (f : A → β) (a : A) : w (f a) ≤ tally w f :=
  single_le_sum (f := fun a => w (f a)) (fun _ _ => Nat.zero_le _) (mem_univ a)

theorem zero_of_tally_eq_zero {w : β → ℕ} {f : A → β} (h : tally w f = 0) (a : A) : w (f a) = 0 :=
  Nat.le_zero.1 (h ▸ le_tally w f a)

/-- Two places of positive weight are both in the tally. -/
theorem add_le_tally (w : β → ℕ) (f : A → β) {a b : A} (hne : a ≠ b) :
    w (f a) + w (f b) ≤ tally w f := by
  classical
  rw [← sum_pair (f := fun a => w (f a)) hne]
  exact sum_le_sum_of_subset (subset_univ _)

section Count

variable {w : β → ℕ} (hw : ∀ b, w b ≤ 1)
include hw

/-- A count below the number of places misses one. -/
theorem exists_of_tally_lt {f : A → β} (h : tally w f < Fintype.card A) : ∃ a, w (f a) = 0 := by
  by_contra hno
  simp only [not_exists] at hno
  have hone : ∀ a, w (f a) = 1 := fun a => by have := hw (f a); have := hno a; omega
  have : tally w f = Fintype.card A := by simp [tally, hone]
  omega

/-- The places counted and the places missed are all the places. -/
theorem tally_add_missed (f : A → β) : tally w f + tally (fun b => 1 - w b) f = Fintype.card A := by
  rw [tally, tally, ← sum_add_distrib, sum_congr rfl fun a _ => by
    rw [show w (f a) + (1 - w (f a)) = 1 by have := hw (f a); omega]]
  simp

/-- A count that misses one place has every other place. -/
theorem one_of_tally_add_one {f : A → β} (h : tally w f + 1 = Fintype.card A) {i : A}
    (hi : w (f i) = 0) {a : A} (ha : a ≠ i) : w (f a) = 1 := by
  have hmissed := tally_add_missed hw f
  have htwo := add_le_tally (fun b => 1 - w b) f ha
  have := hw (f a)
  simp only [hi] at htwo
  omega

end Count

section Crowd

variable {A β : Type*} {w : β → ℕ} {f : A → β}

/-- The sum of the weights of a family of any size; it counts where finitely many members have
a weight. -/
noncomputable def crowd (w : β → ℕ) (f : A → β) : ℕ := ∑ᶠ a, w (f a)

theorem crowd_eq_sum {s : Finset A} (hs : ∀ a ∉ s, w (f a) = 0) : crowd w f = ∑ a ∈ s, w (f a) := by
  apply finsum_eq_sum_of_support_subset
  intro a ha
  by_contra hno
  exact ha (hs a hno)

theorem crowd_update [DecidableEq A] {s : Set A} (hs : s.Finite) (hw : ∀ a ∉ s, w (f a) = 0) (i : A) (b : β) :
    crowd w (Function.update f i b) + w (f i) = crowd w f + w b := by
  have hin : i ∈ insert i hs.toFinset := mem_insert_self i _
  rw [crowd_eq_sum (s := insert i hs.toFinset), crowd_eq_sum (s := insert i hs.toFinset),
    ← add_sum_erase _ _ hin, ← add_sum_erase _ (fun a => w (f a)) hin,
    sum_congr rfl fun a ha => by rw [Function.update_of_ne (ne_of_mem_erase ha)], Function.update_self]
  · omega
  · intro a ha
    exact hw a fun hmem => ha (mem_insert_of_mem (hs.mem_toFinset.2 hmem))
  · intro a ha
    rw [mem_insert, not_or, hs.mem_toFinset] at ha
    rw [Function.update_of_ne ha.1]
    exact hw a ha.2

theorem le_crowd {s : Set A} (hs : s.Finite) (hw : ∀ a ∉ s, w (f a) = 0) (a : A) : w (f a) ≤ crowd w f := by
  by_cases ha : a ∈ s
  · rw [crowd_eq_sum (s := hs.toFinset) fun b hb => hw b fun hmem => hb (hs.mem_toFinset.2 hmem)]
    exact single_le_sum (f := fun a => w (f a)) (fun _ _ => Nat.zero_le _) (hs.mem_toFinset.2 ha)
  · rw [hw a ha]
    apply Nat.zero_le

/-- A member has all the weight where no other has any. -/
theorem crowd_eq_self_iff [DecidableEq A] {s : Set A} (hs : s.Finite) (hw : ∀ a ∉ s, w (f a) = 0) (a : A) :
    crowd w f = w (f a) ↔ ∀ b, b ≠ a → w (f b) = 0 := by
  have hsum : crowd w f = w (f a) + ∑ b ∈ (insert a hs.toFinset).erase a, w (f b) := by
    rw [add_sum_erase _ (fun b => w (f b)) (mem_insert_self a _)]
    apply crowd_eq_sum
    intro b hb
    exact hw b fun hmem => hb (mem_insert_of_mem (hs.mem_toFinset.2 hmem))
  have hzero : crowd w f = w (f a) ↔ ∑ b ∈ (insert a hs.toFinset).erase a, w (f b) = 0 := by omega
  rw [hzero, sum_eq_zero_iff]
  constructor
  · intro hothers b hba
    by_cases hb : b ∈ s
    · exact hothers b (mem_erase.2 ⟨hba, mem_insert_of_mem (hs.mem_toFinset.2 hb)⟩)
    · exact hw b hb
  · exact fun hothers b hb => hothers b (ne_of_mem_erase hb)

end Crowd
