import ComplexSim.Lib.OrdTable
import ComplexSim.Lib.RedBlackPath

/-!
# Search trees

A tree whose labels are in the strict order of their keys is an ordered table. The walk for a
key (`locate`) ends at the label with that key, or at the empty place between the smaller and the
greater keys; so what is done at the end of its path is what the table's operation does.
-/

universe u v

namespace RedBlack

open RbTree

variable {α : Type u} {κ : Type v} [LinearOrder κ] {key : α → κ}

/-- The walk down to the label with key `k`, or to the place for it. -/
def locate (key : α → κ) (k : κ) : RbTree α → Path α → RbTree α × Path α
  | .nil, p => (.nil, p)
  | .node c l x r, p =>
      if k < key x then locate key k l (⟨false, c, x, r⟩ :: p)
      else if key x < k then locate key k r (⟨true, c, x, l⟩ :: p)
      else (.node c l x r, p)

/-- The labels in the strict order of their keys. -/
def Sorted (key : α → κ) (l : List α) : Prop := l.Pairwise fun x y => key x < key y

/-- The smaller keys are before the hole and the greater ones after it. -/
def Path.Apart (key : α → κ) (k : κ) (p : Path α) : Prop :=
  (∀ x ∈ Path.before p, key x < k) ∧ ∀ x ∈ Path.after p, k < key x

section Locate

variable {k : κ} {t : RbTree α} {p : Path α}

theorem locate_of_lt {c : Color} {l r : RbTree α} {x : α} (h : k < key x) :
    locate key k (.node c l x r) p = locate key k l (⟨false, c, x, r⟩ :: p) := by rw [locate, if_pos h]

theorem locate_of_gt {c : Color} {l r : RbTree α} {x : α} (h : key x < k) :
    locate key k (.node c l x r) p = locate key k r (⟨true, c, x, l⟩ :: p) := by
  rw [locate, if_neg (lt_asymm h), if_pos h]

theorem locate_of_eq {c : Color} {l r : RbTree α} {x : α} (h : key x = k) :
    locate key k (.node c l x r) p = (.node c l x r, p) := by
  rw [locate, if_neg (by rw [h]; exact lt_irrefl k), if_neg (by rw [h]; exact lt_irrefl k)]

theorem plug_locate (key : α → κ) (k : κ) (t : RbTree α) (p : Path α) :
    plug (locate key k t p).1 (locate key k t p).2 = plug t p := by
  induction t generalizing p with
  | nil => rfl
  | node c l x r ihl ihr =>
      unfold locate
      split
      · exact ihl (⟨false, c, x, r⟩ :: p)
      · split
        · exact ihr (⟨true, c, x, l⟩ :: p)
        · rfl

/-- The walk ends at the empty tree, or at a label with the key. -/
theorem locate_end (key : α → κ) (k : κ) (t : RbTree α) (p : Path α) :
    (locate key k t p).1 = .nil ∨ ∃ c l x r, (locate key k t p).1 = .node c l x r ∧ key x = k := by
  induction t generalizing p with
  | nil => exact Or.inl rfl
  | node c l x r ihl ihr =>
      unfold locate
      split
      · exact ihl _
      · split
        · exact ihr _
        · exact Or.inr ⟨c, l, x, r, rfl, le_antisymm (not_lt.1 ‹_›) (not_lt.1 ‹_›)⟩

/-- The walk turns left at the greater labels and right at the smaller ones. -/
theorem locate_apart (hs : Sorted key (plug t p).toList) (hp : p.Apart key k) : (locate key k t p).2.Apart key k := by
  induction t generalizing p with
  | nil => exact hp
  | node c l x r ihl ihr =>
      have hsort := hs
      rw [Sorted, toList_plug] at hsort
      obtain ⟨hl, -⟩ := List.pairwise_append.1 hsort
      obtain ⟨-, ht, -⟩ := List.pairwise_append.1 hl
      obtain ⟨-, hr, hlr⟩ := List.pairwise_append.1 ht
      unfold locate
      split
      · rename_i hlt
        apply ihl (p := ⟨false, c, x, r⟩ :: p) hs
        refine ⟨by simpa [Path.before] using hp.1, fun y hy => ?_⟩
        simp only [Path.after, Bool.false_eq_true, if_false, List.cons_append, List.mem_cons, List.mem_append] at hy
        rcases hy with rfl | hy | hy
        · exact hlt
        · exact lt_trans hlt ((List.pairwise_cons.1 hr).1 y hy)
        · exact hp.2 y hy
      · split
        · rename_i hgt
          apply ihr (p := ⟨true, c, x, l⟩ :: p) hs
          refine ⟨fun y hy => ?_, by simpa [Path.after] using hp.2⟩
          simp only [Path.before, if_true, List.mem_append, List.mem_singleton] at hy
          rcases hy with hy | hy | rfl
          · exact hp.1 y hy
          · exact lt_trans (hlr y hy x List.mem_cons_self) hgt
          · exact hgt
        · exact hp

/-- The walk stays within the height of the tree. -/
theorem locate_length (key : α → κ) (k : κ) (t : RbTree α) (p : Path α) :
    (locate key k t p).2.length + (locate key k t p).1.height ≤ p.length + t.height := by
  induction t generalizing p with
  | nil => exact le_rfl
  | node c l x r ihl ihr =>
      unfold locate
      simp only [height]
      split
      · refine (ihl _).trans ?_
        simp only [List.length_cons]
        omega
      · split
        · refine (ihr _).trans ?_
          simp only [List.length_cons]
          omega
        · exact le_rfl

theorem length_le_locate (key : α → κ) (k : κ) (t : RbTree α) (p : Path α) :
    p.length ≤ (locate key k t p).2.length := by
  induction t generalizing p with
  | nil => exact le_rfl
  | node c l x r ihl ihr =>
      unfold locate
      split
      · exact (Nat.le_succ _).trans (ihl (⟨false, c, x, r⟩ :: p))
      · split
        · exact (Nat.le_succ _).trans (ihr (⟨true, c, x, l⟩ :: p))
        · exact le_rfl

end Locate

section Tables

variable {k : κ} {x y : α} {a b : List α}

/-- An insertion between the smaller and the greater keys. -/
theorem insertList_between (hb : ∀ y ∈ b, key y < key x) (ha : ∀ y ∈ a, key x < key y) :
    OrdTable.insertList key x (b ++ a) = b ++ x :: a := by
  induction b with
  | nil =>
      cases a with
      | nil => rfl
      | cons y a => exact if_pos (ha y List.mem_cons_self)
  | cons y b ih =>
      have hy := hb y List.mem_cons_self
      rw [List.cons_append, OrdTable.insertList, if_neg (lt_asymm hy), if_neg (ne_of_gt hy),
        ih fun z hz => hb z (List.mem_cons_of_mem y hz)]
      rfl

/-- An insertion where the key is taken. -/
theorem insertList_taken (hx : key y = key x) (hb : ∀ z ∈ b, key z < key x) :
    OrdTable.insertList key x (b ++ y :: a) = b ++ y :: a := by
  induction b with
  | nil =>
      have hlt : ¬ key x < key y := by
        rw [hx]
        exact lt_irrefl _
      rw [List.nil_append, OrdTable.insertList, if_neg hlt, if_pos hx.symm]
  | cons z b ih =>
      have hz := hb z List.mem_cons_self
      rw [List.cons_append, OrdTable.insertList, if_neg (lt_asymm hz), if_neg (ne_of_gt hz),
        ih fun w hw => hb w (List.mem_cons_of_mem z hw)]

/-- A deletion between the smaller and the greater keys. -/
theorem filter_between (hx : key x = k) (hb : ∀ y ∈ b, key y < k) (ha : ∀ y ∈ a, k < key y) :
    (b ++ x :: a).filter (fun y => key y ≠ k) = b ++ a := by
  rw [List.filter_append, List.filter_cons_of_neg (by simpa using hx), List.filter_eq_self.2, List.filter_eq_self.2]
  · exact fun y hy => by simpa using ne_of_gt (ha y hy)
  · exact fun y hy => by simpa using ne_of_lt (hb y hy)

theorem sorted_between : Sorted key (b ++ x :: a) ↔
    Sorted key b ∧ Sorted key a ∧ (∀ y ∈ b, key y < key x) ∧ (∀ y ∈ a, key x < key y) ∧ ∀ y ∈ b, ∀ z ∈ a, key y < key z := by
  simp only [Sorted, List.pairwise_append, List.pairwise_cons, List.mem_cons]
  constructor
  · rintro ⟨hb, ⟨hxa, ha⟩, hba⟩
    exact ⟨hb, ha, fun y hy => hba y hy x (Or.inl rfl), hxa, fun y hy z hz => hba y hy z (Or.inr hz)⟩
  · rintro ⟨hb, ha, hbx, hxa, hba⟩
    refine ⟨hb, ⟨hxa, ha⟩, fun y hy z hz => ?_⟩
    rcases hz with rfl | hz
    · exact hbx y hy
    · exact hba y hy z hz

end Tables

end RedBlack
