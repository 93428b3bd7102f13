import ComplexSim.Workerpool.Steps
import Mathlib.Data.List.Nodup

/-!
# Where each task is

A task goes from its enqueuer to the queue, to the controller's hand, to a worker
that has been given it, through that worker's `tsk_code`, and past its completion.
`TskInv` says that its history tells which of these places holds it, and that no
other does: each place holds exactly the tasks whose history ends there. It speaks
of the places only (the chain of the queue, the controller's hand, what each worker
has been given and at which stage of a task it is), so that the steps of a pool that
move no task leave it alone.
-/

namespace ComplexSim.Workerpool

variable {n : Nat} {α : Type}

/-- The history of a task in the queue. -/
abbrev inQueue (n : Nat) : List (TskEvent n) := [.inserted]

/-- The history of a task in the controller's hand. -/
abbrev inHand (n : Nat) : List (TskEvent n) := [.inserted, .dequeued]

/-- The history of a task given to `w`. -/
abbrev givenTo (w : Fin n) : List (TskEvent n) := [.inserted, .dequeued, .assigned w]

/-- The history of a task that `w` performs. -/
abbrev runBy (w : Fin n) : List (TskEvent n) := [.inserted, .dequeued, .assigned w, .started w]

/-- The history of a task that `w` has performed. -/
abbrev overBy (w : Fin n) : List (TskEvent n) :=
  [.inserted, .dequeued, .assigned w, .started w, .returned w]

/-- The task in the controller's hand. -/
def ControllerPc.hand : ControllerPc n → Option TskId
  | .poolSem t | .scan t _ | .assign t _ => some t
  | _ => none

/-- How far a worker is with a task. -/
inductive Stage where
  | performing
  | release
  | setDone
  | signalEnd
  deriving DecidableEq, Repr

/-- The task at which a worker works, and how far it is. -/
def WorkerPc.stage : WorkerPc → Option (Stage × TskId)
  | .performing t => some (.performing, t)
  | .release t => some (.release, t)
  | .setDone t => some (.setDone, t)
  | .signalEnd t => some (.signalEnd, t)
  | _ => none

/-- The task a worker has been given and not taken. -/
def Worker.given (d : Worker) : Option TskId :=
  if d.status = .tskAssigned then d.assignedTsk else none

/-- The histories a task can have. -/
inductive Past : List (TskEvent n) → Prop where
  | fresh : Past []
  | queued : Past (inQueue n)
  | hand : Past (inHand n)
  | given (w : Fin n) : Past (givenTo w)
  | run (w : Fin n) : Past (runBy w)
  | performed (w : Fin n) : Past (overBy w)

/-- The places that hold tasks: the chain of the queue, the controller's hand, what each
worker has been given and at which stage of which task it is. -/
structure Places (n : Nat) where
  elems : List TskId
  hand : Option TskId
  given : Fin n → Option TskId
  stage : Fin n → Option (Stage × TskId)

/-- The places of a pool. -/
def Pool.places (s : Pool n α) : Places n where
  elems := s.tskQ.elems
  hand := s.ctl.hand
  given w := (s.workers w).given
  stage w := (s.workers w).pc.stage

/-- The record `d` of task `t` agrees with the places. -/
structure TskAt (p : Places n) (t : TskId) (d : Tsk n α) : Prop where
  past : Past d.hist
  queued : t ∈ p.elems ↔ d.hist = inQueue n
  hand : p.hand = some t ↔ d.hist = inHand n
  given : ∀ w, p.given w = some t ↔ d.hist = givenTo w
  run : ∀ w, p.stage w = some (.performing, t) ↔ d.hist = runBy w
  release : ∀ w, p.stage w = some (.release, t) → d.hist = overBy w
  setDone : ∀ w, p.stage w = some (.setDone, t) → d.hist = overBy w
  signalEnd : ∀ w, p.stage w = some (.signalEnd, t) → d.hist = overBy w ∧ d.status = .done
  ending : ∀ w, d.hist = overBy w →
    d.status = .done ∨ p.stage w = some (.release, t) ∨ p.stage w = some (.setDone, t)
  done : d.status = .done → ∃ w, d.hist = overBy w
  sem : 0 < d.taskSem → d.status = .done

/-- No place holds `t` differently. -/
def Places.SameFor (p p' : Places n) (t : TskId) : Prop :=
  (t ∈ p'.elems ↔ t ∈ p.elems) ∧ (p'.hand = some t ↔ p.hand = some t) ∧
  (∀ w, p'.given w = some t ↔ p.given w = some t) ∧
  ∀ w st, p'.stage w = some (st, t) ↔ p.stage w = some (st, t)

theorem TskAt.congr {p p' : Places n} {t : TskId} {d : Tsk n α} (h : TskAt p t d)
    (hsame : p.SameFor p' t) : TskAt p' t d := by
  obtain ⟨hq, hh, hg, hs⟩ := hsame
  exact {
    past := h.past
    queued := hq.trans h.queued
    hand := hh.trans h.hand
    given := fun w => (hg w).trans (h.given w)
    run := fun w => (hs w _).trans (h.run w)
    release := fun w hw => h.release w ((hs w _).1 hw)
    setDone := fun w hw => h.setDone w ((hs w _).1 hw)
    signalEnd := fun w hw => h.signalEnd w ((hs w _).1 hw)
    ending := fun w hw => by rw [hs, hs]; exact h.ending w hw
    done := h.done
    sem := h.sem }

structure TskInv (p : Places n) (tsk : TskId → Tsk n α) : Prop where
  nodup : p.elems.Nodup
  tsk : ∀ t, TskAt p t (tsk t)

namespace TskInv

variable {p p' : Places n} {tsk : TskId → Tsk n α}

/-- Only task `t` moves. -/
theorem move (h : TskInv p tsk) (t : TskId) {d : Tsk n α} (hnodup : p'.elems.Nodup)
    (hothers : ∀ u, u ≠ t → p.SameFor p' u) (hmoved : TskAt p' t d) :
    TskInv p' (Function.update tsk t d) where
  nodup := hnodup
  tsk := fun u => by
    by_cases hu : u = t
    · subst hu; rwa [Function.update_self]
    · rw [Function.update_of_ne hu]; exact (h.tsk u).congr (hothers u hu)

/-- An enqueuer appends a new task to the queue. -/
theorem append (h : TskInv p tsk) {t : TskId} (hnew : (tsk t).hist = []) :
    TskInv { p with elems := p.elems ++ [t] }
      (Function.update tsk t { tsk t with hist := (tsk t).hist ++ [.inserted] }) := by
  have ht := h.tsk t
  have hmem : t ∉ p.elems := fun hm => by simp [ht.queued.1 hm] at hnew
  refine h.move t (List.nodup_append.2 ⟨h.nodup, by simp, by grind⟩)
    (fun u hu => by simp [Places.SameFor, hu]) ?_
  simp only [hnew, List.nil_append]
  constructor <;> grind [TskAt, Past]

/-- The controller takes the oldest task. -/
theorem dequeue (h : TskInv p tsk) {t : TskId} {rest : List TskId} (helems : p.elems = t :: rest)
    (hhand : p.hand = none) :
    TskInv { p with elems := rest, hand := some t }
      (Function.update tsk t { tsk t with hist := (tsk t).hist ++ [.dequeued] }) := by
  have ht := h.tsk t
  have hnodup := h.nodup
  rw [helems, List.nodup_cons] at hnodup
  have hpast : (tsk t).hist = inQueue n := ht.queued.1 (by simp [helems])
  refine h.move t hnodup.2 (fun u hu => ?_) ?_
  · simp [Places.SameFor, helems, hhand, hu, hu.symm]
  · simp only [hpast, List.singleton_append]
    constructor <;> grind [TskAt, Past]

/-- The controller assigns the task in its hand. -/
theorem assign (h : TskInv p tsk) {t : TskId} {w : Fin n} (hhand : p.hand = some t)
    (hgiven : p.given w = none) :
    TskInv { p with hand := none, given := Function.update p.given w (some t) }
      (Function.update tsk t { tsk t with hist := (tsk t).hist ++ [.assigned w] }) := by
  have ht := h.tsk t
  have hpast : (tsk t).hist = inHand n := ht.hand.1 hhand
  refine h.move t h.nodup (fun u hu => ?_) ?_
  · refine ⟨Iff.rfl, by simp [hhand, hu.symm], fun v => ?_, fun _ _ => Iff.rfl⟩
    by_cases hv : v = w
    · subst hv; simp [hgiven, hu.symm]
    · simp [Function.update_of_ne hv]
  · simp only [hpast, List.cons_append, List.nil_append]
    constructor <;> grind [TskAt, Past, Function.update_apply]

/-- A worker takes the task it has been given. -/
theorem take (h : TskInv p tsk) {t : TskId} {w : Fin n} (hgiven : p.given w = some t)
    (hstage : p.stage w = none) :
    TskInv { p with given := Function.update p.given w none
                    stage := Function.update p.stage w (some (.performing, t)) }
      (Function.update tsk t { tsk t with hist := (tsk t).hist ++ [.started w] }) := by
  have ht := h.tsk t
  have hpast : (tsk t).hist = givenTo w := (ht.given w).1 hgiven
  refine h.move t h.nodup (fun u hu => ?_) ?_
  · refine ⟨Iff.rfl, Iff.rfl, fun v => ?_, fun v st => ?_⟩ <;> by_cases hv : v = w
    · subst hv; simp [hgiven, hu.symm]
    · simp [Function.update_of_ne hv]
    · subst hv; simp [hstage, hu.symm]
    · simp [Function.update_of_ne hv]
  · simp only [hpast, List.cons_append, List.nil_append]
    constructor <;> grind [TskAt, Past, Function.update_apply]

/-- A worker goes to another stage of its task, and its record changes with it. -/
theorem advance (h : TskInv p tsk) {t : TskId} {w : Fin n} {st : Stage} {d : Tsk n α}
    {next : Option (Stage × TskId)} (hstage : p.stage w = some (st, t))
    (hnext : ∀ st' u, next = some (st', u) → u = t)
    (hmoved : TskAt { p with stage := Function.update p.stage w next } t d) :
    TskInv { p with stage := Function.update p.stage w next } (Function.update tsk t d) := by
  refine h.move t h.nodup (fun u hu => ?_) hmoved
  refine ⟨Iff.rfl, Iff.rfl, fun _ => Iff.rfl, fun v st' => ?_⟩
  by_cases hv : v = w
  · subst hv
    simp only [Function.update_self, hstage, Option.some.injEq, Prod.mk.injEq]
    exact ⟨fun hn => absurd (hnext _ _ hn) hu, fun hn => absurd hn.2.symm hu⟩
  · simp [Function.update_of_ne hv]

/-- The code of a task returns. -/
theorem ret (h : TskInv p tsk) {t : TskId} {w : Fin n} (hstage : p.stage w = some (.performing, t)) :
    TskInv { p with stage := Function.update p.stage w (some (.release, t)) }
      (Function.update tsk t { tsk t with hist := (tsk t).hist ++ [.returned w] }) := by
  have ht := h.tsk t
  have hpast : (tsk t).hist = runBy w := (ht.run w).1 hstage
  refine h.advance hstage (by simp) ?_
  simp only [hpast, List.cons_append, List.nil_append]
  constructor <;> grind [TskAt, Past, Function.update_apply]

/-- A worker gives itself back. -/
theorem release (h : TskInv p tsk) {t : TskId} {w : Fin n} (hstage : p.stage w = some (.release, t)) :
    TskInv { p with stage := Function.update p.stage w (some (.setDone, t)) } tsk := by
  have ht := h.tsk t
  have hpast : (tsk t).hist = overBy w := ht.release w hstage
  rw [← Function.update_eq_self t tsk]
  refine h.advance hstage (by simp) ?_
  constructor <;> grind [TskAt, Past, Function.update_apply]

theorem setDone (h : TskInv p tsk) {t : TskId} {w : Fin n} (hstage : p.stage w = some (.setDone, t)) :
    TskInv { p with stage := Function.update p.stage w (some (.signalEnd, t)) }
      (Function.update tsk t { tsk t with status := .done }) := by
  have ht := h.tsk t
  have hpast : (tsk t).hist = overBy w := ht.setDone w hstage
  refine h.advance hstage (by simp) ?_
  constructor <;> grind [TskAt, Past, Function.update_apply]

theorem signalEnd (h : TskInv p tsk) {t : TskId} {w : Fin n}
    (hstage : p.stage w = some (.signalEnd, t)) :
    TskInv { p with stage := Function.update p.stage w none }
      (Function.update tsk t { tsk t with taskSem := (tsk t).taskSem + 1 }) := by
  have ht := h.tsk t
  obtain ⟨hpast, hdone⟩ := ht.signalEnd w hstage
  refine h.advance hstage (by simp) ?_
  constructor <;> grind [TskAt, Past, Function.update_apply]

/-- A waiter consumes the signal of a task. -/
theorem consume (h : TskInv p tsk) {t : TskId} (hsem : 0 < (tsk t).taskSem) :
    TskInv p (Function.update tsk t { tsk t with taskSem := (tsk t).taskSem - 1 }) := by
  have ht := h.tsk t
  refine h.move t h.nodup (fun u _ => ⟨Iff.rfl, Iff.rfl, fun _ => Iff.rfl, fun _ _ => Iff.rfl⟩) ?_
  exact { ht with sem := fun _ => ht.sem hsem }

/-- A new record, which no place holds. -/
theorem create (h : TskInv p tsk) {t : TskId} (hnew : (tsk t).hist = []) (x : Option α) :
    TskInv p (Function.update tsk t { tskCode := x, status := .waiting, taskSem := 0, hist := [] }) := by
  have ht := h.tsk t
  refine h.move t h.nodup (fun u _ => ⟨Iff.rfl, Iff.rfl, fun _ => Iff.rfl, fun _ _ => Iff.rfl⟩) ?_
  constructor <;> grind [TskAt, Past]

end TskInv

end ComplexSim.Workerpool
