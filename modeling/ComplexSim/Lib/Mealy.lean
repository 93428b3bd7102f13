import Mathlib.Data.List.Forall2

/-!
# Machines that answer

A machine takes inputs one after the other and answers each, or cannot take it. A run ends
at the first input that cannot be taken. Two machines are compared by a relation of their
states and one of their answers, which the inputs of a condition keep.
-/

namespace Mealy

universe u v w x y

variable {σ : Type u} {τ : Type v} {ι : Type w} {ω : Type x} {ψ : Type y}

/-- The answers to a sequence of inputs, and the state after them. -/
def run (f : σ → ι → Option (σ × ω)) (s : σ) : List ι → List ω × σ
  | [] => ([], s)
  | i :: is => match f s i with
      | none => ([], s)
      | some (t, o) => (o :: (run f t is).1, (run f t is).2)

/-- Every input that a run takes meets the condition where it is taken. -/
def Along (ok : τ → ι → Prop) (g : τ → ι → Option (τ × ψ)) (m : τ) : List ι → Prop
  | [] => True
  | i :: is => ok m i ∧ match g m i with
      | none => True
      | some (m', _) => Along ok g m' is

instance decidableAlong (ok : τ → ι → Prop) [∀ m i, Decidable (ok m i)] (g : τ → ι → Option (τ × ψ)) :
    ∀ (m : τ) (is : List ι), Decidable (Along ok g m is)
  | _, [] => .isTrue trivial
  | m, i :: is =>
      have : Decidable (match g m i with
          | none => True
          | some (m', _) => Along ok g m' is) :=
        match g m i with
        | none => .isTrue trivial
        | some (m', _) => decidableAlong ok g m' is
      inferInstanceAs (Decidable (ok m i ∧ _))

/-- Two machines do the same with an input: neither takes it, or their answers are related and
the states stay so. -/
inductive Agree (R : σ → τ → Prop) (A : ω → ψ → Prop) : Option (σ × ω) → Option (τ × ψ) → Prop where
  | none : Agree R A none none
  | some {s : σ} {m : τ} {o : ω} {p : ψ} (ho : A o p) (h : R s m) : Agree R A (some (s, o)) (some (m, p))

variable {f : σ → ι → Option (σ × ω)} {g : τ → ι → Option (τ × ψ)} {R : σ → τ → Prop}
  {A : ω → ψ → Prop} {ok : τ → ι → Prop}

theorem Agree.inv {a : Option (σ × ω)} {b : Option (τ × ψ)} (h : Agree R A a b) :
    (a = .none ∧ b = .none) ∨ ∃ s m o p, a = .some (s, o) ∧ b = .some (m, p) ∧ A o p ∧ R s m := by
  cases h with
  | none => exact Or.inl ⟨rfl, rfl⟩
  | some ho h => exact Or.inr ⟨_, _, _, _, rfl, rfl, ho, h⟩

/-- Machines that agree on the inputs of a condition agree on the runs of such inputs. -/
theorem run_agree (hok : ∀ s m i, R s m → ok m i → Agree R A (f s i) (g m i)) {is : List ι} {s : σ} {m : τ}
    (h : R s m) (halong : Along ok g m is) :
    List.Forall₂ A (run f s is).1 (run g m is).1 ∧ R (run f s is).2 (run g m is).2 := by
  induction is generalizing s m with
  | nil => exact ⟨.nil, h⟩
  | cons i is ih =>
      obtain ⟨hi, hrest⟩ := halong
      rcases (hok s m i h hi).inv with ⟨hf, hg⟩ | ⟨s', m', o, p, hf, hg, ho, h'⟩
      · simp only [run, hf, hg]
        exact ⟨.nil, h⟩
      · simp only [hg] at hrest
        obtain ⟨hanswers, hfinal⟩ := ih h' hrest
        simp only [run, hf, hg]
        exact ⟨.cons ho hanswers, hfinal⟩

/-- A machine that takes every input answers each. -/
theorem run_length (hf : ∀ s i, (f s i).isSome = true) (s : σ) (is : List ι) : (run f s is).1.length = is.length := by
  induction is generalizing s with
  | nil => rfl
  | cons i is ih =>
      obtain ⟨⟨t, o⟩, hstep⟩ := Option.isSome_iff_exists.1 (hf s i)
      simp only [run, hstep, List.length_cons, ih t]

theorem along_true (m : τ) (is : List ι) : Along (fun _ _ => True) g m is := by
  induction is generalizing m with
  | nil => trivial
  | cons i is ih =>
      refine ⟨trivial, ?_⟩
      split
      · trivial
      · apply ih

/-- If an input outside the condition gets unrelated answers, the condition is necessary. -/
theorem run_agree_iff (hok : ∀ s m i, R s m → ok m i → Agree R A (f s i) (g m i))
    (hbad : ∀ s m i, R s m → ¬ ok m i →
      ∃ s' o m' p, f s i = some (s', o) ∧ g m i = some (m', p) ∧ ¬ A o p)
    {s : σ} {m : τ} (h : R s m) (is : List ι) :
    (List.Forall₂ A (run f s is).1 (run g m is).1 ∧ R (run f s is).2 (run g m is).2) ↔ Along ok g m is := by
  refine ⟨fun hsame => ?_, run_agree hok h⟩
  induction is generalizing s m with
  | nil => trivial
  | cons i is ih =>
      by_cases hi : ok m i
      · refine ⟨hi, ?_⟩
        rcases (hok s m i h hi).inv with ⟨hf, hg⟩ | ⟨s', m', o, p, hf, hg, ho, h'⟩
        · simp only [hg]
        · simp only [run, hf, hg] at hsame ⊢
          obtain ⟨hanswers, hfinal⟩ := hsame
          exact ih h' ⟨(List.forall₂_cons.1 hanswers).2, hfinal⟩
      · obtain ⟨s', o, m', p, hf, hg, ho⟩ := hbad s m i h hi
        simp only [run, hf, hg] at hsame
        exact absurd (List.forall₂_cons.1 hsame.1).1 ho

end Mealy
