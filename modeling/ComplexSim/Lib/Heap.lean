import Mathlib.Data.Finset.Card
import Mathlib.Data.List.Nodup
import Mathlib.Logic.Function.Basic

/-!
# A heap that counts its frees

Addresses are given out once, in order. To free an address that is not allocated is a fault, as is
any access to it; an operation that faults has no result. So a computation that has a result has
freed nothing twice and has read nothing freed, and `freed` lists what it has freed.
-/

universe u

/-- The allocated cells, the first address never given, and the addresses freed, oldest first. -/
structure Heap (β : Type u) where
  cells : Nat → Option β
  brk : Nat
  freed : List Nat

namespace Heap

variable {β : Type u}

def empty (β : Type u) : Heap β where
  cells := fun _ => none
  brk := 0
  freed := []

/-- A new cell, and its address. -/
def alloc (h : Heap β) (x : β) : Heap β × Nat :=
  ({ h with cells := Function.update h.cells h.brk (some x), brk := h.brk + 1 }, h.brk)

/-- Change an allocated cell. -/
def write (h : Heap β) (a : Nat) (x : β) : Option (Heap β) :=
  if (h.cells a).isSome then some { h with cells := Function.update h.cells a (some x) } else none

def free (h : Heap β) (a : Nat) : Option (Heap β) :=
  if (h.cells a).isSome then some { h with cells := Function.update h.cells a none, freed := h.freed ++ [a] } else none

/-- The heap without the cells at `l`. -/
def without (h : Heap β) (l : List Nat) : Heap β :=
  { h with cells := fun a => if a ∈ l then none else h.cells a, freed := h.freed ++ l }

/-- What is not given yet is not allocated, and what is freed is freed once and for all. -/
structure Sound (h : Heap β) : Prop where
  fresh : ∀ a, h.brk ≤ a → h.cells a = none
  freed : ∀ a ∈ h.freed, a < h.brk ∧ h.cells a = none
  nodup : h.freed.Nodup

variable {h h' : Heap β} {a c : Nat} {x : β} {l m : List Nat}

@[simp] theorem alloc_snd : (h.alloc x).2 = h.brk := rfl

@[simp] theorem alloc_brk : (h.alloc x).1.brk = h.brk + 1 := rfl

@[simp] theorem alloc_freed : (h.alloc x).1.freed = h.freed := rfl

@[simp] theorem alloc_cells_self : (h.alloc x).1.cells h.brk = some x := Function.update_self ..

theorem alloc_cells_of_ne (hne : a ≠ h.brk) : (h.alloc x).1.cells a = h.cells a := Function.update_of_ne hne _ _

@[simp] theorem without_brk : (h.without l).brk = h.brk := rfl

@[simp] theorem without_freed : (h.without l).freed = h.freed ++ l := rfl

theorem without_cells_of_mem (ha : a ∈ l) : (h.without l).cells a = none := if_pos ha

theorem without_cells_of_notMem (ha : a ∉ l) : (h.without l).cells a = h.cells a := if_neg ha

@[simp] theorem without_nil : h.without [] = h := by simp [without]

theorem without_append : (h.without l).without m = h.without (l ++ m) := by
  unfold without
  simp only [List.append_assoc, Heap.mk.injEq, and_true]
  funext a
  by_cases hl : a ∈ l <;> by_cases hm : a ∈ m <;> simp [hl, hm]

/-- A write changes one cell. -/
theorem write_spec (hw : h.write a x = some h') :
    h'.cells a = some x ∧ (∀ c, c ≠ a → h'.cells c = h.cells c) ∧ h'.brk = h.brk ∧ h'.freed = h.freed := by
  unfold write at hw
  split at hw <;> cases hw
  exact ⟨Function.update_self .., fun c hc => Function.update_of_ne hc _ _, rfl, rfl⟩

/-- Of two writes to a cell the last one counts. -/
theorem write_write {y : β} (hw : h.write a x = some h') : h'.write a y = h.write a y := by
  unfold write at hw ⊢
  split at hw
  · rename_i ha
    cases hw
    rw [if_pos ha, if_pos (by simp)]
    simp
  · cases hw

/-- To free an allocated address takes its cell away. -/
theorem free_eq (ha : (h.cells a).isSome = true) : h.free a = some (h.without [a]) := by
  unfold free without
  rw [if_pos ha]
  congr
  funext c
  by_cases hc : c = a <;> simp [hc]

theorem free_eq_none (ha : h.cells a = none) : h.free a = none := by simp [free, ha]

/-- An address freed is not freed again. -/
theorem free_twice (ha : a ∈ l) : (h.without l).free a = none := free_eq_none (without_cells_of_mem ha)

theorem empty_sound : (empty β).Sound := ⟨fun _ _ => rfl, nofun, List.nodup_nil⟩

theorem Sound.lt (hs : h.Sound) (ha : (h.cells a).isSome = true) : a < h.brk := by
  by_contra hlt
  rw [hs.fresh a (Nat.le_of_not_lt hlt)] at ha
  cases ha

/-- There are no more allocated addresses than addresses given. -/
theorem Sound.length_le (hs : h.Sound) (hl : l.Nodup) (ha : ∀ a ∈ l, (h.cells a).isSome = true) :
    l.length ≤ h.brk := by
  rw [← List.toFinset_card_of_nodup hl, ← Finset.card_range h.brk]
  apply Finset.card_le_card
  intro a hmem
  exact Finset.mem_range.2 (hs.lt (ha a (List.mem_toFinset.1 hmem)))

theorem Sound.alloc (hs : h.Sound) : (h.alloc x).1.Sound where
  fresh := fun a ha => by
    rw [alloc_brk] at ha
    rw [alloc_cells_of_ne (by omega)]
    exact hs.fresh a (by omega)
  freed := fun a ha => by
    obtain ⟨hlt, hnone⟩ := hs.freed a ha
    rw [alloc_brk, alloc_cells_of_ne (by omega)]
    exact ⟨by omega, hnone⟩
  nodup := hs.nodup

theorem Sound.write (hs : h.Sound) (hw : h.write a x = some h') : h'.Sound := by
  obtain ⟨-, hother, hbrk, hfreed⟩ := write_spec hw
  have ha : (h.cells a).isSome = true := by
    unfold Heap.write at hw
    split at hw
    · assumption
    · cases hw
  have hnone : ∀ c, h.cells c = none → h'.cells c = none := by
    intro c hc
    have hca : c ≠ a := by
      rintro rfl
      rw [hc] at ha
      cases ha
    rw [hother c hca]
    exact hc
  refine ⟨fun c hc => hnone c (hs.fresh c (hbrk ▸ hc)), fun c hc => ?_, hfreed ▸ hs.nodup⟩
  rw [hfreed] at hc
  obtain ⟨hlt, hfree⟩ := hs.freed c hc
  exact ⟨hbrk.symm ▸ hlt, hnone c hfree⟩

/-- Different allocated addresses have not been freed before. -/
theorem Sound.without (hs : h.Sound) (hl : l.Nodup) (ha : ∀ a ∈ l, (h.cells a).isSome = true) :
    (h.without l).Sound := by
  have hcell : ∀ a, h.cells a = none → (h.without l).cells a = none := by
    intro a hnone
    by_cases hmem : a ∈ l
    · exact without_cells_of_mem hmem
    · rw [without_cells_of_notMem hmem]
      exact hnone
  refine ⟨fun a hle => hcell a (hs.fresh a hle), fun a hmem => ?_, ?_⟩
  · rcases List.mem_append.1 hmem with hold | hnew
    · obtain ⟨hlt, hnone⟩ := hs.freed a hold
      exact ⟨hlt, hcell a hnone⟩
    · exact ⟨hs.lt (ha a hnew), without_cells_of_mem hnew⟩
  · rw [without_freed, List.nodup_append]
    refine ⟨hs.nodup, hl, fun a hold c hnew hac => ?_⟩
    have hnone := (hs.freed a hold).2
    rw [hac] at hnone
    have hsome := ha c hnew
    rw [hnone] at hsome
    cases hsome

/-- As many frees as addresses given: each of them is freed, once. -/
theorem Sound.freed_perm (hs : h.Sound) (hlen : h.brk ≤ h.freed.length) : h.freed.Perm (List.range h.brk) := by
  have hsub : h.freed ⊆ List.range h.brk := fun a ha => List.mem_range.2 (hs.freed a ha).1
  apply (List.subperm_of_subset hs.nodup hsub).perm_of_length_le
  rwa [List.length_range]

section Owned

/-- Each address that has been given is freed, or is one of `l`. -/
structure Owned (h : Heap β) (l : List Nat) : Prop where
  sound : h.Sound
  nodup : l.Nodup
  allocated : ∀ a ∈ l, (h.cells a).isSome = true
  accounted : h.brk = h.freed.length + l.length

theorem owned_empty : (empty β).Owned [] := ⟨empty_sound, List.nodup_nil, nofun, rfl⟩

theorem Owned.lt (ho : h.Owned l) (ha : a ∈ l) : a < h.brk := ho.sound.lt (ho.allocated a ha)

theorem Owned.perm (ho : h.Owned l) (hperm : l.Perm m) : h.Owned m where
  sound := ho.sound
  nodup := hperm.nodup_iff.1 ho.nodup
  allocated := fun a ha => ho.allocated a (hperm.mem_iff.2 ha)
  accounted := by rw [ho.accounted, hperm.length_eq]

theorem Owned.alloc (ho : h.Owned l) (x : β) : (h.alloc x).1.Owned (h.brk :: l) where
  sound := ho.sound.alloc
  nodup := List.nodup_cons.2 ⟨fun hmem => Nat.lt_irrefl _ (ho.lt hmem), ho.nodup⟩
  allocated := fun a ha => by
    rcases List.mem_cons.1 ha with rfl | ha
    · rw [alloc_cells_self]
      rfl
    · rw [alloc_cells_of_ne (Nat.ne_of_lt (ho.lt ha))]
      exact ho.allocated a ha
  accounted := by
    have haccounted := ho.accounted
    rw [alloc_brk, alloc_freed, List.length_cons]
    omega

theorem Owned.write (ho : h.Owned l) (hw : h.write a x = some h') : h'.Owned l := by
  obtain ⟨hself, hother, hbrk, hfreed⟩ := write_spec hw
  refine ⟨ho.sound.write hw, ho.nodup, fun c hc => ?_, ?_⟩
  · by_cases hca : c = a
    · rw [hca, hself]
      rfl
    · rw [hother c hca]
      exact ho.allocated c hc
  · rw [hbrk, hfreed]
    exact ho.accounted

/-- What is owned can be written to. -/
theorem Owned.exists_write (ho : h.Owned l) (ha : a ∈ l) (x : β) : ∃ h', h.write a x = some h' :=
  ⟨_, if_pos (ho.allocated a ha)⟩

/-- What is owned can be freed. -/
theorem Owned.free (ho : h.Owned (a :: l)) : h.free a = some (h.without [a]) ∧ (h.without [a]).Owned l := by
  obtain ⟨hfresh, hnodup⟩ := List.nodup_cons.1 ho.nodup
  have ha := ho.allocated a List.mem_cons_self
  refine ⟨free_eq ha, ho.sound.without (List.nodup_singleton a) (by simpa using ha), hnodup, fun c hc => ?_, ?_⟩
  · rw [without_cells_of_notMem]
    · exact ho.allocated c (List.mem_cons_of_mem a hc)
    · intro hca
      exact hfresh (List.mem_singleton.1 hca ▸ hc)
  · have haccounted := ho.accounted
    rw [List.length_cons] at haccounted
    rw [without_brk, without_freed, List.length_append, List.length_singleton]
    omega

/-- What is not freed is owned, once. -/
theorem Owned.freed_perm (ho : h.Owned l) : (h.freed ++ l).Perm (List.range h.brk) := by
  have hnodup : (h.freed ++ l).Nodup := by
    refine List.nodup_append.2 ⟨ho.sound.nodup, ho.nodup, fun a ha c hc hac => ?_⟩
    have hsome := ho.allocated c hc
    rw [← hac, (ho.sound.freed a ha).2] at hsome
    cases hsome
  have hsub : h.freed ++ l ⊆ List.range h.brk := by
    intro a ha
    rw [List.mem_range]
    rcases List.mem_append.1 ha with ha | ha
    · exact (ho.sound.freed a ha).1
    · exact ho.lt ha
  apply (List.subperm_of_subset hnodup hsub).perm_of_length_le
  rw [List.length_range, List.length_append, ho.accounted]

end Owned

end Heap
