import ComplexSim.Queue.Memory

/-!
# A whole call of `cs_queue_enqueue` (`src/cs_queue.c`)

From the wait on `qlimit_sem` to the return, with every exit: the call takes a place first, and looks at the
status and asks for memory only then. No exit but the last one gives the place back, and the one that has no
memory goes on to write to it. A call that has to wait ends here; it goes on in the queue that it then finds.
-/

namespace ComplexSim.QueueMemory

variable {T β : Type*}

/-- The queue and its mutex, with the thread that holds it. -/
structure Guarded (T β : Type*) where
  q : Queue β
  qmutex : Option T

/-- How far a call gets. -/
inductive Outcome where
  /-- it waits for a place or for the mutex -/
  | waits
  | ret (r : Int)
  /-- it writes through a null pointer -/
  | crash

/-- `QUEUE_FULL`. -/
def queueFull : Int := 2

/-- `sem_trywait` or `sem_wait` on `qlimit_sem`, where there is a place. -/
def Guarded.takePlace (s : Guarded T β) : Guarded T β :=
  { s with q := { s.q with qlimitSem := s.q.qlimitSem - 1 } }

/-- `cs_queue_enqueue` by the thread `t`, where `calloc` gives the address `elem` or NULL. -/
def csQueueEnqueueCall (t : T) (s : Guarded T β) (data : β) (blocking : Bool) (calloc : Option Addr) :
    Guarded T β × Outcome :=
  if s.q.qlimitSem = 0 then
    if blocking then (s, .waits) else (s, .ret queueFull)
  else
    let s := s.takePlace
    match s.qmutex with
    | some _ => (s, .waits)
    | none =>
        let s := { s with qmutex := some t }
        match s.q.status, calloc with
        | .opened, some elem =>
            ({ s with q := (csQueueEnqueue s.q elem data).1, qmutex := none }, .ret (csQueueEnqueue s.q elem data).2)
        -- the mutex is unlocked, and nothing returns
        | .opened, none => ({ s with qmutex := none }, .crash)
        | .closed, _ => ({ s with qmutex := none }, .ret 0)

/-- The call has to wait. -/
def Waits (s : Guarded T β) (blocking : Bool) : Prop :=
  blocking = true ∧ s.q.qlimitSem = 0 ∨ 0 < s.q.qlimitSem ∧ s.qmutex ≠ none

/-- `s'` is `s` with one more element behind the newest, and a place less. -/
def Appended (s s' : Guarded T β) (data : β) : Prop :=
  (∃ cells xs elem, Holds s.q cells xs ∧ Holds s'.q (cells ++ [elem]) (xs ++ [data])) ∧
    s'.q.status = s.q.status ∧ s'.q.qsem = s.q.qsem + 1 ∧ s'.q.qlimitSem + 1 = s.q.qlimitSem ∧ s'.qmutex = s.qmutex

section Calls

variable {t : T} {s s' : Guarded T β} {data : β} {blocking : Bool} {calloc : Option Addr}
  {cells : List Addr} {xs : List β}

/-- An element more is seen by the size. -/
theorem Appended.size (h : Appended s s' data) : s'.q.size = s.q.size + 1 := by
  obtain ⟨⟨cells, xs, elem, hold, hnew⟩, -⟩ := h
  rw [hold.size, hnew.size, List.length_append, List.length_singleton]
  push_cast
  rfl

/-- **What the call does**, exit by exit. -/
inductive CallOutcome (t : T) (s : Guarded T β) (data : β) (blocking : Bool) :
    Option Addr → Guarded T β × Outcome → Prop where
  | noPlace {calloc : Option Addr} (hblocking : blocking = true) (hfull : s.q.qlimitSem = 0) :
      CallOutcome t s data blocking calloc (s, .waits)
  | full {calloc : Option Addr} (hblocking : blocking = false) (hfull : s.q.qlimitSem = 0) :
      CallOutcome t s data blocking calloc (s, .ret queueFull)
  | locked {calloc : Option Addr} (hplace : 0 < s.q.qlimitSem) (hmutex : s.qmutex ≠ none) :
      CallOutcome t s data blocking calloc (s.takePlace, .waits)
  | appended {elem : Addr} (hplace : 0 < s.q.qlimitSem) (hmutex : s.qmutex = none) (hopen : s.q.status = .opened) :
      CallOutcome t s data blocking (some elem)
        ({ s with q := (csQueueEnqueue s.takePlace.q elem data).1 }, .ret 0)
  | noMemory (hplace : 0 < s.q.qlimitSem) (hmutex : s.qmutex = none) (hopen : s.q.status = .opened) :
      CallOutcome t s data blocking none (s.takePlace, .crash)
  | closed {calloc : Option Addr} (hplace : 0 < s.q.qlimitSem) (hmutex : s.qmutex = none)
      (hclosed : s.q.status = .closed) : CallOutcome t s data blocking calloc (s.takePlace, .ret 0)

theorem CallOutcome.of (t : T) (s : Guarded T β) (data : β) (blocking : Bool) (calloc : Option Addr) :
    CallOutcome t s data blocking calloc (csQueueEnqueueCall t s data blocking calloc) := by
  unfold csQueueEnqueueCall
  by_cases hfull : s.q.qlimitSem = 0
  · rw [if_pos hfull]
    cases hblocking : blocking with
    | true => exact .noPlace rfl hfull
    | false => exact .full rfl hfull
  · rw [if_neg hfull]
    have hplace : 0 < s.q.qlimitSem := Nat.pos_of_ne_zero hfull
    have hsame : s.takePlace.qmutex = s.qmutex := rfl
    have hstatus : s.takePlace.q.status = s.q.status := rfl
    cases hmutex : s.qmutex with
    | some u =>
        simp only [hsame, hmutex]
        exact .locked hplace (by simp [hmutex])
    | none =>
        have hback : { s.takePlace with qmutex := none } = s.takePlace := by
          rw [← hmutex, ← hsame]
        simp only [hsame, hmutex, hstatus]
        cases hopen : s.q.status with
        | opened =>
            cases calloc with
            | some elem =>
                have hret : (csQueueEnqueue s.takePlace.q elem data).2 = 0 := by
                  have habs := congrArg Prod.snd (enqueue_abs s.takePlace.q [] elem data)
                  rw [show (csQueueEnqueue s.takePlace.q elem data).2 = _ from habs]
                  simp only [ComplexSim.csQueueEnqueue, Queue.abs, hstatus, hopen]
                simp only [hret]
                rw [← hmutex]
                exact .appended hplace hmutex hopen
            | none =>
                simp only [hback]
                exact .noMemory hplace hmutex hopen
        | closed =>
            simp only [hback]
            exact .closed hplace hmutex hopen

end Calls

end ComplexSim.QueueMemory
