import Mathlib.Data.List.Perm.Basic
import Mathlib.Order.Basic

/-!
# Effects that commute

An effect acts on a state and puts something out. A list of effects acts in its order
(`Effect.run`). Where any two of them commute, the order does not matter: the state is the same in
the end, and so is all that was put out (`Effect.run_perm`).

Where the effects of a list have grades that do not decrease, the list is cut at a grade by its
filters (`filter_lt_succ`).
-/

namespace ComplexSim

universe u v w

variable {α : Type u} {σ : Type v} {β : Type w}

namespace Effect

/-- The effects of a list, in its order: the state in the end, and what all have put out. -/
def run (f : α → σ → σ × List β) : List α → σ → σ × List β
  | [], s => (s, [])
  | a :: l, s => ((run f l (f a s).1).1, (f a s).2 ++ (run f l (f a s).1).2)

/-- In either order two effects lead to the same state and put out the same. -/
def Commutes (f : α → σ → σ × List β) (a b : α) : Prop :=
  ∀ s, (f b (f a s).1).1 = (f a (f b s).1).1 ∧
    ((f a s).2 ++ (f b (f a s).1).2).Perm ((f b s).2 ++ (f a (f b s).1).2)

variable {f : α → σ → σ × List β}

@[simp] theorem run_nil (s : σ) : run f [] s = (s, []) := rfl

theorem run_append (l m : List α) (s : σ) :
    run f (l ++ m) s = ((run f m (run f l s).1).1, (run f l s).2 ++ (run f m (run f l s).1).2) := by
  induction l generalizing s with
  | nil => rfl
  | cons a l ih =>
      rw [List.cons_append, run, run, ih]
      simp

theorem run_concat (l : List α) (a : α) (s : σ) :
    run f (l ++ [a]) s = ((f a (run f l s).1).1, (run f l s).2 ++ (f a (run f l s).1).2) := by
  rw [run_append]
  simp [run]

/-- What is put out is put out by one of the effects. -/
theorem exists_of_mem_run {l : List α} {s : σ} {y : β} (h : y ∈ (run f l s).2) :
    ∃ a ∈ l, ∃ t, y ∈ (f a t).2 := by
  induction l generalizing s with
  | nil => simp at h
  | cons a l ih =>
      rcases List.mem_append.1 h with h | h
      · exact ⟨a, List.mem_cons_self, s, h⟩
      · obtain ⟨b, hb, t, hy⟩ := ih h
        exact ⟨b, List.mem_cons_of_mem a hb, t, hy⟩

/-- **The order of effects that commute does not matter.** -/
theorem run_perm {l m : List α} (h : l.Perm m) (hc : ∀ a ∈ l, ∀ b ∈ l, Commutes f a b) (s : σ) :
    (run f l s).1 = (run f m s).1 ∧ (run f l s).2.Perm (run f m s).2 := by
  induction h generalizing s with
  | nil => exact ⟨rfl, .refl _⟩
  | cons a _ ih =>
      obtain ⟨hstate, hout⟩ := ih (fun b hb c hmem => hc b (List.mem_cons_of_mem a hb) c (List.mem_cons_of_mem a hmem))
        (f a s).1
      exact ⟨hstate, hout.append_left _⟩
  | swap a b l =>
      obtain ⟨hstate, hout⟩ := hc b (by simp) a (by simp) s
      simp only [run, hstate]
      refine ⟨trivial, ?_⟩
      rw [← List.append_assoc, ← List.append_assoc]
      exact hout.append_right _
  | trans h₁ _ ih₁ ih₂ =>
      obtain ⟨hstate₁, hout₁⟩ := ih₁ hc s
      obtain ⟨hstate₂, hout₂⟩ := ih₂ (fun a ha b hb => hc a (h₁.symm.subset ha) b (h₁.symm.subset hb)) s
      exact ⟨hstate₁.trans hstate₂, hout₁.trans hout₂⟩

end Effect

section Grades

variable {g : α → Int} {l : List α}

/-- A list whose grades do not decrease is cut at a grade. -/
theorem filter_lt_append (h : l.Pairwise fun a b => g a ≤ g b) (k : Int) :
    l = l.filter (g · < k) ++ l.filter (k ≤ g ·) := by
  induction l with
  | nil => rfl
  | cons a l ih =>
      obtain ⟨ha, hl⟩ := List.pairwise_cons.1 h
      have hih := ih hl
      by_cases hlt : g a < k
      · have hle : ¬ k ≤ g a := by omega
        simp only [List.filter_cons, hlt, hle, decide_true, decide_false, if_true, List.cons_append]
        exact congrArg (a :: ·) hih
      · have hnone : l.filter (g · < k) = [] := by
          rw [List.filter_eq_nil_iff]
          intro b hb
          have hle := ha b hb
          simpa using (by omega : k ≤ g b)
        have hle : k ≤ g a := by omega
        rw [hnone, List.nil_append] at hih
        simp only [List.filter_cons, hlt, hle, decide_true, decide_false, if_true, hnone]
        exact congrArg (a :: ·) hih

/-- What is below `k + 1` is below `k`, and then of grade `k`. -/
theorem filter_lt_succ (h : l.Pairwise fun a b => g a ≤ g b) (k : Int) :
    l.filter (g · < k + 1) = l.filter (g · < k) ++ l.filter (g · = k) := by
  have hcut := filter_lt_append (h.filter (g · < k + 1)) k
  have hlow : (l.filter (g · < k + 1)).filter (g · < k) = l.filter (g · < k) := by
    rw [List.filter_filter]
    refine List.filter_congr fun a _ => ?_
    rw [← Bool.decide_and, decide_eq_decide]
    omega
  have hhigh : (l.filter (g · < k + 1)).filter (k ≤ g ·) = l.filter (g · = k) := by
    rw [List.filter_filter]
    refine List.filter_congr fun a _ => ?_
    rw [← Bool.decide_and, decide_eq_decide]
    omega
  rwa [hlow, hhigh] at hcut

end Grades

end ComplexSim
