import ComplexSim.Lib.Effects
import ComplexSim.Lib.Pieces
import ComplexSim.Lib.Transition

/-!
# Effects on several threads

Each thread has a list of effects. It begins its next effect, which acts on the state that the threads share, and
puts out one by one, between the steps of the others, what the effect has left it to put out. Where the effects
commute, every run to the end comes to what one thread comes to that runs all the lists, one after the other
(`Threads.ended_run`).
-/

namespace ComplexSim.Effect

universe u v w x

/-- Threads in a run; `done` records the effects begun, and no step reads it. -/
structure Threads (ι : Type x) (α : Type u) (σ : Type v) (β : Type w) where
  state : σ
  done : List α
  out : List β
  /-- the effects that a thread has not begun -/
  rest : ι → List α
  /-- what the effect of a thread has still to put out -/
  todo : ι → List β

namespace Threads

variable {ι : Type x} {α : Type u} {σ : Type v} {β : Type w}

def start (rest : ι → List α) (s : σ) : Threads ι α σ β where
  state := s
  done := []
  out := []
  rest := rest
  todo := fun _ => []

/-- Every thread has done all that it had to do. -/
def Ended (t : Threads ι α σ β) : Prop := ∀ i, t.rest i = [] ∧ t.todo i = []

variable [DecidableEq ι]

/-- A step of the thread `i`. -/
def step (f : α → σ → σ × List β) (t : Threads ι α σ β) (i : ι) : Option (Threads ι α σ β) :=
  match t.todo i, t.rest i with
  | y :: ys, _ => some { t with out := t.out ++ [y], todo := Function.update t.todo i ys }
  | [], a :: as =>
      some { t with
        state := (f a t.state).1
        done := t.done ++ [a]
        rest := Function.update t.rest i as
        todo := Function.update t.todo i (f a t.state).2 }
  | [], [] => none

def system (f : α → σ → σ × List β) (t₀ : Threads ι α σ β) : Lts.System (Threads ι α σ β) ι :=
  .ofFn (· = t₀) (step f)

variable {f : α → σ → σ × List β} {t t' : Threads ι α σ β} {i : ι}

theorem step_put {y : β} {ys : List β} (h : t.todo i = y :: ys) :
    step f t i = some { t with out := t.out ++ [y], todo := Function.update t.todo i ys } := by
  simp [step, h]

theorem step_begin {a : α} {as : List α} (htodo : t.todo i = []) (hrest : t.rest i = a :: as) :
    step f t i = some { t with
      state := (f a t.state).1
      done := t.done ++ [a]
      rest := Function.update t.rest i as
      todo := Function.update t.todo i (f a t.state).2 } := by
  simp [step, htodo, hrest]

/-- A thread puts something out, or begins an effect. -/
theorem step_cases (h : step f t i = some t') :
    (∃ y ys, t.todo i = y :: ys ∧ t' = { t with out := t.out ++ [y], todo := Function.update t.todo i ys }) ∨
    ∃ a as, t.todo i = [] ∧ t.rest i = a :: as ∧ t' = { t with
      state := (f a t.state).1
      done := t.done ++ [a]
      rest := Function.update t.rest i as
      todo := Function.update t.todo i (f a t.state).2 } := by
  cases htodo : t.todo i with
  | cons y ys =>
      rw [step_put htodo] at h
      exact Or.inl ⟨y, ys, rfl, (Option.some.inj h).symm⟩
  | nil =>
      cases hrest : t.rest i with
      | nil => simp [step, htodo, hrest] at h
      | cons a as =>
          rw [step_begin htodo hrest] at h
          exact Or.inr ⟨a, as, rfl, rfl, (Option.some.inj h).symm⟩

/-- The books of the threads on `places`, which have the effects `l` to do from `s₀` on. -/
structure Books (f : α → σ → σ × List β) (places : List ι) (l : List α) (s₀ : σ) (t : Threads ι α σ β) : Prop where
  state : t.state = (run f t.done s₀).1
  done : (t.done ++ places.flatMap t.rest).Perm l
  out : (t.out ++ places.flatMap t.todo).Perm (run f t.done s₀).2

variable {places : List ι} {l : List α} {s₀ : σ}

omit [DecidableEq ι] in
theorem Books.start (rest : ι → List α) (s : σ) :
    Books f places (places.flatMap rest) s (start rest s : Threads ι α σ β) where
  state := rfl
  done := .refl _
  out := by simp [Threads.start]

/-- **One step** keeps the books. -/
theorem Books.step (hplaces : places.Nodup) (hall : ∀ i, i ∈ places) (hb : Books f places l s₀ t)
    (h : step f t i = some t') : Books f places l s₀ t' := by
  rcases step_cases h with ⟨y, ys, htodo, rfl⟩ | ⟨a, as, htodo, hrest, rfl⟩
  · refine ⟨hb.state, hb.done, ?_⟩
    have hput : (places.flatMap t.todo).Perm ([y] ++ places.flatMap (Function.update t.todo i ys)) :=
      flatMap_perm_of_mem hplaces (hall i) (by simp [htodo]) fun d hd => by rw [Function.update_of_ne hd]
    show (t.out ++ [y] ++ _).Perm _
    rw [List.append_assoc]
    exact (hput.symm.append_left _).trans hb.out
  · have hbegin : (places.flatMap t.rest).Perm ([a] ++ places.flatMap (Function.update t.rest i as)) :=
      flatMap_perm_of_mem hplaces (hall i) (by simp [hrest]) fun d hd => by rw [Function.update_of_ne hd]
    have hput : (places.flatMap (Function.update t.todo i (f a t.state).2)).Perm
        ((f a t.state).2 ++ places.flatMap t.todo) :=
      flatMap_perm_of_mem hplaces (hall i) (by simp [htodo]) fun d hd => by rw [Function.update_of_ne hd]
    refine ⟨?_, ?_, ?_⟩
    · show (f a t.state).1 = _
      rw [run_concat, hb.state]
    · show (t.done ++ [a] ++ _).Perm l
      rw [List.append_assoc]
      exact (hbegin.symm.append_left _).trans hb.done
    · show (t.out ++ _).Perm _
      rw [run_concat, ← hb.state]
      -- what the effect puts out goes behind what the others have left
      refine (hput.append_left _).trans ((List.perm_append_comm.append_left _).trans ?_)
      rw [← List.append_assoc]
      exact hb.out.append_right _

/-- **However the threads take turns**, effects that commute come to what they come to one list after the other. -/
theorem ended_run (hplaces : places.Nodup) (hall : ∀ i, i ∈ places) (rest : ι → List α)
    (hc : ∀ a ∈ places.flatMap rest, ∀ b ∈ places.flatMap rest, Commutes f a b)
    (h : Lts.Reachable (system f (start rest s₀)) t) (hend : t.Ended) :
    t.done.Perm (places.flatMap rest) ∧ t.state = (run f (places.flatMap rest) s₀).1 ∧
      t.out.Perm (run f (places.flatMap rest) s₀).2 := by
  have hb : Books f places (places.flatMap rest) s₀ t := by
    refine h.invariant (I := Books f places (places.flatMap rest) s₀) ?_ fun _ _ _ hi _ hs =>
      hi.step hplaces hall hs
    rintro _ rfl
    exact .start rest s₀
  have hrest : places.flatMap t.rest = [] := List.flatMap_eq_nil_iff.2 fun i _ => (hend i).1
  have htodo : places.flatMap t.todo = [] := List.flatMap_eq_nil_iff.2 fun i _ => (hend i).2
  have hdone := hb.done
  have hout := hb.out
  rw [hrest, List.append_nil] at hdone
  rw [htodo, List.append_nil] at hout
  obtain ⟨hstate, hrun⟩ := run_perm hdone.symm hc s₀
  exact ⟨hdone, hb.state.trans hstate.symm, hout.trans hrun.symm⟩

end Threads

end ComplexSim.Effect
