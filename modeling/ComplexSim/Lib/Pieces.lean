import Mathlib.Data.List.Nodup
import Mathlib.Data.List.Perm.Basic

/-!
# A list in pieces

A family of lists over a list of places, concatenated. One place with more in it gives a
concatenation with more in it (`flatMap_perm_of_mem`); the members of a list, sorted by
the place that each of them bears, give the list back (`flatMap_filter_perm`).
-/

variable {α β γ : Type*}

/-- The pieces of a family, where one of them is longer. -/
theorem flatMap_perm_of_mem [DecidableEq γ] {l : List γ} (hl : l.Nodup) {f g : γ → List β} {x : List β}
    {c : γ} (hc : c ∈ l) (hf : f c = x ++ g c) (hne : ∀ d, d ≠ c → f d = g d) :
    (l.flatMap f).Perm (x ++ l.flatMap g) := by
  have hperm := List.perm_cons_erase hc
  refine (hperm.flatMap_right f).trans (List.Perm.trans ?_ ((hperm.flatMap_right g).append_left x).symm)
  have heq : (l.erase c).flatMap f = (l.erase c).flatMap g :=
    List.flatMap_congr fun d hd => hne d (hl.mem_erase_iff.1 hd).1
  rw [List.flatMap_cons, List.flatMap_cons, heq, hf, List.append_assoc]

/-- The members of a list, sorted by an index that they bear. -/
theorem flatMap_filter_perm {key : α → ℕ} {l : List α} {n : ℕ} (hkey : ∀ x ∈ l, key x < n)
    (f : α → List β) :
    ((List.range n).flatMap fun c => (l.filter (key · = c)).flatMap f).Perm (l.flatMap f) := by
  induction l with
  | nil => simp
  | cons x l ih =>
      rw [List.flatMap_cons]
      refine List.Perm.trans ?_ ((ih fun y hy => hkey y (List.mem_cons_of_mem x hy)).append_left _)
      refine flatMap_perm_of_mem List.nodup_range (List.mem_range.2 (hkey x List.mem_cons_self))
        (by simp) fun d hd => ?_
      simp [Ne.symm hd]

/-- The places of a list, and none behind its end. -/
theorem flatMap_finRange_getElem? {l : List α} {n : ℕ} (h : l.length ≤ n) (f : α → List β) :
    ((List.finRange n).flatMap fun i => (l[i.val]?).elim [] f) = l.flatMap f := by
  induction l generalizing n with
  | nil => simp
  | cons x l ih =>
      obtain ⟨m, rfl⟩ := Nat.exists_eq_succ_of_ne_zero (Nat.ne_of_gt (Nat.lt_of_lt_of_le (Nat.succ_pos _) h))
      rw [List.finRange_succ, List.flatMap_cons, List.flatMap_cons, List.flatMap_map]
      exact congrArg (f x ++ ·) (ih (Nat.le_of_succ_le_succ h))

/-- Only one member bears its index, where all are different. -/
theorem filter_key_eq {key : α → ℕ} {l : List α} {x : α}
    (hl : l.Pairwise fun x y => key x ≠ key y) (hx : x ∈ l) : l.filter (key · = key x) = [x] := by
  induction l with
  | nil => simp at hx
  | cons y l ih =>
      obtain ⟨hy, hl⟩ := List.pairwise_cons.1 hl
      rcases List.mem_cons.1 hx with rfl | hx
      · have hnone : l.filter (key · = key x) = [] :=
          List.filter_eq_nil_iff.2 fun z hz => by simpa using (hy z hz).symm
        simp [hnone]
      · simp [hy x hx, ih hl hx]
