import ComplexSim.Lib.Tally
import ComplexSim.Lib.Transition
import ComplexSim.Queue.Memory

/-!
# A bounded queue among many threads

Threads enqueue, dequeue and close in any order, blocking or not. One step is one operation on a
semaphore, one section under the mutex, or the release of an element that has been dequeued. The
semaphores are taken outside the sections, so a thread between the two is part of what the
invariant counts.

`appended` and `removed` record the data in the order of the sections: no step reads them. A `Trace`
adds which thread removed what, and what the calls of `cs_queue_dequeue` have returned to whom.
-/

namespace ComplexSim.QueueMemory

variable {T β : Type*}

/-- Where a thread is. -/
inductive Pc (β : Type*) where
  /-- in no call, or blocked in the `sem_wait` of one -/
  | idle
  /-- in `cs_queue_enqueue`, with a place of `qlimit_sem` -/
  | enqueuing (data : β)
  /-- in `cs_queue_dequeue`, with a token of `qsem` -/
  | dequeuing (blocking : Bool)
  /-- before the `free` of the element it has removed -/
  | freeing (elem : Addr) (data : β)

/-- The queue and its threads. -/
structure State (T β : Type*) where
  q : Queue β
  pc : T → Pc β
  appended : List β
  removed : List β
  /-- a null pointer was followed -/
  crashed : Bool

inductive Label (T β : Type*) where
  /-- `sem_wait` or `sem_trywait` on `qlimit_sem` -/
  | enqueueSem (t : T) (data : β) (blocking : Bool)
  /-- the section of `cs_queue_enqueue`; `calloc` gives `elem` -/
  | enqueue (t : T) (elem : Addr)
  /-- `sem_wait` or `sem_trywait` on `qsem` -/
  | dequeueSem (t : T) (blocking : Bool)
  /-- the section of `cs_queue_dequeue` -/
  | dequeue (t : T)
  | free (t : T)
  | close (t : T)

/-- What a step returns to its caller. -/
inductive Event (T β : Type*) where
  | tau
  | queueFull (t : T)
  | enqueueRet (t : T) (r : Int)
  /-- a dequeue returns NULL -/
  | dequeueNull (t : T) (blocking : Bool)
  | dequeueRet (t : T) (data : β)
  | closeRet (t : T)

variable [DecidableEq T]

/-- Move the thread `t`. -/
def State.at (s : State T β) (t : T) (p : Pc β) : State T β := { s with pc := Function.update s.pc t p }

def stepEvent (s : State T β) (l : Label T β) : Option (State T β × Event T β) :=
  if s.crashed then none
  else match l with
    | .enqueueSem t data blocking => match s.pc t with
        | .idle =>
            if 0 < s.q.qlimitSem then
              some ({ s with q := { s.q with qlimitSem := s.q.qlimitSem - 1 } }.at t (.enqueuing data), .tau)
            else if blocking then none
            else some (s, .queueFull t)
        | _ => none
    | .enqueue t elem => match s.pc t with
        | .enqueuing data =>
            if s.q.status = .opened ∧ (s.q.elems elem).isSome then none
            else
              some ({ s with
                q := (csQueueEnqueue s.q elem data).1
                appended := if s.q.status = QueueStatus.opened then s.appended ++ [data] else s.appended }.at t .idle,
                .enqueueRet t (csQueueEnqueue s.q elem data).2)
        | _ => none
    | .dequeueSem t blocking => match s.pc t with
        | .idle =>
            if 0 < s.q.qsem then
              some ({ s with q := { s.q with qsem := s.q.qsem - 1 } }.at t (.dequeuing blocking), .tau)
            else if blocking then none
            else some (s, .dequeueNull t blocking)
        | _ => none
    | .dequeue t => match s.pc t with
        | .dequeuing blocking => match csQueueDequeue s.q with
            | .null => some (s.at t .idle, .dequeueNull t blocking)
            | .fault => some ({ s with crashed := true }, .tau)
            | .elem elem data q =>
                some ({ s with q := q, removed := s.removed ++ [data] }.at t (.freeing elem data), .tau)
        | _ => none
    | .free t => match s.pc t with
        | .freeing elem data =>
            some ({ s with q := { s.q with elems := Function.update s.q.elems elem none } }.at t .idle,
              .dequeueRet t data)
        | _ => none
    | .close t => match s.pc t with
        | .idle => some ({ s with q := csQueueClose s.q }, .closeRet t)
        | _ => none

def step (s : State T β) (l : Label T β) : Option (State T β) := (stepEvent s l).map Prod.fst

/-- A queue initialised with `size`, and threads that have not called it. -/
def start (T β : Type*) (size : Nat) : State T β where
  q := init β size
  pc := fun _ => .idle
  appended := []
  removed := []
  crashed := false

def system (T β : Type*) [DecidableEq T] (size : Nat) : Lts.System (State T β) (Label T β) :=
  .ofFn (· = start T β size) step

/-- The places that a thread has taken and not filled. -/
def Pc.places : Pc β → Nat
  | .enqueuing _ => 1
  | _ => 0

/-- The tokens that a thread has taken and not used. -/
def Pc.tokens : Pc β → Nat
  | .dequeuing _ => 1
  | _ => 0

/-- The queue holds `rest` at `cells`: what was appended and not removed, within its places. -/
structure Layout (size : Nat) (s : State T β) (cells : List Addr) (rest : List β) : Prop where
  holds : Holds s.q cells rest
  order : s.appended = s.removed ++ rest
  running : s.crashed = false
  finite : {t | s.pc t ≠ .idle}.Finite
  places : s.q.qlimitSem + crowd Pc.places s.pc + cells.length ≤ size
  /-- until a close, which gives one token too many -/
  tokens : s.q.status = .opened → s.q.qsem + crowd Pc.tokens s.pc = cells.length
  freeing : ∀ t a x, s.pc t = .freeing a x → (s.q.elems a).isSome ∧ a ∉ cells
  distinct : ∀ t t' a x x', s.pc t = .freeing a x → s.pc t' = .freeing a x' → t = t'

section Threads

variable {pc : T → Pc β} {t u : T} {p : Pc β}

theorem finite_at (h : {t | pc t ≠ .idle}.Finite) : {u | Function.update pc t p u ≠ .idle}.Finite := by
  apply (h.insert t).subset
  intro u hu
  by_cases hut : u = t
  · exact Or.inl hut
  · exact Or.inr (by simpa [hut] using hu)

theorem places_at (h : {t | pc t ≠ .idle}.Finite) :
    crowd Pc.places (Function.update pc t p) + (pc t).places = crowd Pc.places pc + p.places := by
  apply crowd_update h
  intro u hu
  have hidle : pc u = .idle := not_not.1 hu
  rw [hidle]
  rfl

theorem tokens_at (h : {t | pc t ≠ .idle}.Finite) :
    crowd Pc.tokens (Function.update pc t p) + (pc t).tokens = crowd Pc.tokens pc + p.tokens := by
  apply crowd_update h
  intro u hu
  have hidle : pc u = .idle := not_not.1 hu
  rw [hidle]
  rfl

end Threads

omit [DecidableEq T] in
theorem start_layout (size : Nat) : Layout size (start T β size) [] [] where
  holds := init_holds size
  order := rfl
  running := rfl
  finite := by simp [start]
  places := by
    have hzero : crowd Pc.places (start T β size).pc = 0 := crowd_eq_sum (s := ∅) fun _ _ => rfl
    rw [hzero]
    exact Nat.le_refl size
  tokens := fun _ => by
    have hzero : crowd Pc.tokens (start T β size).pc = 0 := crowd_eq_sum (s := ∅) fun _ _ => rfl
    rw [hzero]
    rfl
  freeing := nofun
  distinct := nofun

section Steps

variable {size : Nat} {s s' : State T β} {cells : List Addr} {rest : List β} {t : T} {e : Event T β}

omit [DecidableEq T] in
/-- A thread that takes a token of an open queue will find an element. -/
theorem Layout.nonempty (h : Layout size s cells rest) {blocking : Bool} (hpc : s.pc t = .dequeuing blocking)
    (hopen : s.q.status = .opened) : cells ≠ [] := by
  rintro rfl
  have htokens := h.tokens hopen
  have hone : Pc.tokens (s.pc t) ≤ crowd Pc.tokens s.pc := by
    apply le_crowd h.finite
    intro u hu
    have hidle : s.pc u = .idle := not_not.1 hu
    rw [hidle]
    rfl
  rw [hpc] at hone
  simp only [List.length_nil, Pc.tokens] at htokens hone
  omega

omit [DecidableEq T] in
theorem Layout.head_ne (h : Layout size s cells rest) (hne : cells ≠ []) : s.q.head ≠ none := by
  rw [h.holds.forward.head_eq]
  simpa using hne

/-- What a step of thread `t` has to say to keep the layout. -/
theorem Layout.move (h : Layout size s cells rest) {p : Pc β} {cells' : List Addr} {rest' : List β}
    (hpc : s'.pc = Function.update s.pc t p) (hholds : Holds s'.q cells' rest')
    (horder : s'.appended = s'.removed ++ rest') (hrunning : s'.crashed = false)
    (hplaces : s'.q.qlimitSem + p.places + cells'.length ≤
      s.q.qlimitSem + (s.pc t).places + cells.length)
    (htokens : s'.q.status = .opened → s.q.status = .opened ∧
      s'.q.qsem + p.tokens + cells.length = s.q.qsem + (s.pc t).tokens + cells'.length)
    (hself : ∀ a x, p = .freeing a x → (s'.q.elems a).isSome ∧ a ∉ cells' ∧
      ∀ u y, s.pc u ≠ .freeing a y)
    (hothers : ∀ u a x, u ≠ t → s.pc u = .freeing a x → (s'.q.elems a).isSome ∧ a ∉ cells') :
    Layout size s' cells' rest' := by
  have hp := places_at (t := t) (p := p) h.finite
  have ht := tokens_at (t := t) (p := p) h.finite
  refine ⟨hholds, horder, hrunning, ?_, ?_, fun hopen => ?_, fun u a x hu => ?_, fun u u' a x x' hu hu' => ?_⟩
  · rw [hpc]
    exact finite_at h.finite
  · rw [hpc]
    have := h.places
    omega
  · rw [hpc]
    obtain ⟨hold, hcount⟩ := htokens hopen
    have := h.tokens hold
    omega
  · rw [hpc] at hu
    by_cases hut : u = t
    · subst hut
      rw [Function.update_self] at hu
      exact ⟨(hself a x hu).1, (hself a x hu).2.1⟩
    · rw [Function.update_of_ne hut] at hu
      exact hothers u a x hut hu
  · rw [hpc] at hu hu'
    by_cases hut : u = t <;> by_cases hut' : u' = t
    · exact hut.trans hut'.symm
    · subst hut
      rw [Function.update_self] at hu
      rw [Function.update_of_ne hut'] at hu'
      exact absurd hu' ((hself a x hu).2.2 u' x')
    · subst hut'
      rw [Function.update_self] at hu'
      rw [Function.update_of_ne hut] at hu
      exact absurd hu ((hself a x' hu').2.2 u x)
    · rw [Function.update_of_ne hut] at hu
      rw [Function.update_of_ne hut'] at hu'
      exact h.distinct u u' a x x' hu hu'

theorem enqueueSem_layout (h : Layout size s cells rest) {data : β} {blocking : Bool}
    (hs : stepEvent s (.enqueueSem t data blocking) = some (s', e)) : Layout size s' cells rest := by
  simp only [stepEvent, h.running, Bool.false_eq_true, if_false] at hs
  cases hpc : s.pc t with
  | idle =>
      simp only [hpc] at hs
      split at hs
      · cases hs
        apply h.move (t := t) (p := .enqueuing data) rfl
        · exact ⟨h.holds.forward, h.holds.backward, h.holds.size, h.holds.content⟩
        · exact h.order
        · rfl
        · rw [hpc]
          show s.q.qlimitSem - 1 + 1 + cells.length ≤ s.q.qlimitSem + 0 + cells.length
          omega
        · rw [hpc]
          exact fun hopen => ⟨hopen, rfl⟩
        · nofun
        · exact fun u a x _ hu => h.freeing u a x hu
      · split at hs <;> cases hs
        exact h
  | enqueuing _ | dequeuing _ | freeing _ _ => simp only [hpc] at hs; cases hs

theorem dequeueSem_layout (h : Layout size s cells rest) {blocking : Bool}
    (hs : stepEvent s (.dequeueSem t blocking) = some (s', e)) : Layout size s' cells rest := by
  simp only [stepEvent, h.running, Bool.false_eq_true, if_false] at hs
  cases hpc : s.pc t with
  | idle =>
      simp only [hpc] at hs
      split at hs
      · cases hs
        apply h.move (t := t) (p := .dequeuing blocking) rfl
        · exact ⟨h.holds.forward, h.holds.backward, h.holds.size, h.holds.content⟩
        · exact h.order
        · rfl
        · rw [hpc]
          exact le_refl _
        · rw [hpc]
          refine fun hopen => ⟨hopen, ?_⟩
          show s.q.qsem - 1 + 1 + cells.length = s.q.qsem + 0 + cells.length
          omega
        · nofun
        · exact fun u a x _ hu => h.freeing u a x hu
      · split at hs <;> cases hs
        exact h
  | enqueuing _ | dequeuing _ | freeing _ _ => simp only [hpc] at hs; cases hs

theorem enqueue_layout (h : Layout size s cells rest) {elem : Addr}
    (hs : stepEvent s (.enqueue t elem) = some (s', e)) : ∃ cells' rest', Layout size s' cells' rest' := by
  simp only [stepEvent, h.running, Bool.false_eq_true, if_false] at hs
  cases hpc : s.pc t with
  | enqueuing data =>
      simp only [hpc] at hs
      cases hstatus : s.q.status with
      | opened =>
          simp only [hstatus, true_and, if_true] at hs
          split at hs
          · cases hs
          · rename_i hnew
            cases hs
            have hcell : elem ∉ cells := by
              intro hmem
              obtain ⟨item, hitem, -⟩ := h.holds.mem hmem
              rw [hitem] at hnew
              exact hnew rfl
            have habs := congrArg Prod.fst (enqueue_abs s.q rest elem data)
            simp only [hstatus, if_true, ComplexSim.csQueueEnqueue, Queue.abs, CsQueue.mk.injEq] at habs
            obtain ⟨-, hstatus', -, hqsem, hqlimit⟩ := habs
            refine ⟨cells ++ [elem], rest ++ [data], h.move (t := t) (p := .idle) rfl ?_ ?_ rfl ?_ ?_ (by simp) ?_⟩
            · exact h.holds.enqueue hstatus hcell data
            · show s.appended ++ [data] = s.removed ++ (rest ++ [data])
              rw [h.order, List.append_assoc]
            · rw [hpc]
              show (csQueueEnqueue s.q elem data).1.qlimitSem + 0 + (cells ++ [elem]).length ≤ _ + 1 + _
              rw [hqlimit, List.length_append, List.length_singleton]
              omega
            · intro _
              rw [hpc]
              refine ⟨hstatus, ?_⟩
              show (csQueueEnqueue s.q elem data).1.qsem + 0 + cells.length = _ + 0 + (cells ++ [elem]).length
              rw [hqsem, List.length_append, List.length_singleton]
              omega
            · intro u a x _ hu
              obtain ⟨hsome, hnot⟩ := h.freeing u a x hu
              refine ⟨enqueue_isSome s.q elem data hsome, ?_⟩
              rw [List.mem_append, List.mem_singleton, not_or]
              refine ⟨hnot, ?_⟩
              rintro rfl
              exact hnew hsome
      | closed =>
          simp only [hstatus, reduceCtorEq, false_and, if_false] at hs
          have hclosed : csQueueEnqueue s.q elem data = (s.q, 0) := by
            simp only [csQueueEnqueue, hstatus]
          cases hs
          refine ⟨cells, rest, h.move (t := t) (p := .idle) rfl ?_ h.order rfl ?_ ?_ (by simp) ?_⟩
          · show Holds (csQueueEnqueue s.q elem data).1 cells rest
            rw [hclosed]
            exact h.holds
          · show (csQueueEnqueue s.q elem data).1.qlimitSem + 0 + cells.length ≤ _
            rw [hclosed]
            show s.q.qlimitSem + 0 + cells.length ≤ s.q.qlimitSem + (s.pc t).places + cells.length
            omega
          · intro hopen
            have hopen : (csQueueEnqueue s.q elem data).1.status = .opened := hopen
            rw [hclosed, hstatus] at hopen
            cases hopen
          · intro u a x _ hu
            show ((csQueueEnqueue s.q elem data).1.elems a).isSome ∧ _
            rw [hclosed]
            exact h.freeing u a x hu
  | idle | dequeuing _ | freeing _ _ => simp only [hpc] at hs; cases hs

theorem dequeue_layout (h : Layout size s cells rest)
    (hs : stepEvent s (.dequeue t) = some (s', e)) : ∃ cells' rest', Layout size s' cells' rest' := by
  simp only [stepEvent, h.running, Bool.false_eq_true, if_false] at hs
  cases hpc : s.pc t with
  | dequeuing blocking =>
      simp only [hpc] at hs
      cases cells with
      | nil =>
          -- an open queue would have an element for the token
          have hclosed : s.q.status = .closed := by
            cases hstatus : s.q.status with
            | closed => rfl
            | opened => exact absurd rfl (h.nonempty hpc hstatus)
          have hhead : s.q.head = none := h.holds.forward
          simp only [csQueueDequeue, hhead, hclosed, if_true] at hs
          cases hs
          refine ⟨[], rest, h.move (t := t) (p := .idle) rfl h.holds h.order h.running ?_ ?_ (by simp) ?_⟩
          · show s.q.qlimitSem + 0 + 0 ≤ s.q.qlimitSem + (s.pc t).places + 0
            omega
          · intro hopen
            rw [show s.q.status = .opened from hopen] at hclosed
            cases hclosed
          · exact fun u a x _ hu => h.freeing u a x hu
      | cons a cells =>
          obtain ⟨x, rest', q', rfl, hdequeue, hholds, habs, hsome⟩ := h.holds.dequeue
          simp only [Queue.abs, CsQueue.mk.injEq] at habs
          obtain ⟨-, hstatus, -, hqsem, hqlimit⟩ := habs
          have hnodup := List.nodup_cons.1 h.holds.forward.nodup
          simp only [hdequeue] at hs
          cases hs
          refine ⟨cells, rest', h.move (t := t) (p := .freeing a x) rfl hholds ?_ rfl ?_ ?_ ?_ ?_⟩
          · show s.appended = s.removed ++ [x] ++ rest'
            rw [h.order, List.append_assoc]
            rfl
          · rw [hpc]
            show q'.qlimitSem + 0 + cells.length ≤ s.q.qlimitSem + 0 + (cells.length + 1)
            omega
          · intro hopen
            rw [hpc]
            refine ⟨hstatus.symm.trans hopen, ?_⟩
            show q'.qsem + 0 + (cells.length + 1) = s.q.qsem + 1 + cells.length
            omega
          · intro b y hb
            cases hb
            refine ⟨?_, hnodup.1, fun u y hu => (h.freeing u a y hu).2 List.mem_cons_self⟩
            obtain ⟨item, hitem, -⟩ := h.holds.mem (a := a) List.mem_cons_self
            show (q'.elems a).isSome
            rw [hsome, hitem]
            rfl
          · intro u b y _ hu
            obtain ⟨hb, hnot⟩ := h.freeing u b y hu
            refine ⟨(hsome b).trans hb, ?_⟩
            intro hmem
            exact hnot (List.mem_cons_of_mem a hmem)
  | idle | enqueuing _ | freeing _ _ => simp only [hpc] at hs; cases hs

theorem free_layout (h : Layout size s cells rest)
    (hs : stepEvent s (.free t) = some (s', e)) : Layout size s' cells rest := by
  simp only [stepEvent, h.running, Bool.false_eq_true, if_false] at hs
  cases hpc : s.pc t with
  | freeing elem data =>
      simp only [hpc] at hs
      cases hs
      obtain ⟨-, hnot⟩ := h.freeing t elem data hpc
      apply h.move (t := t) (p := .idle) rfl
      · apply h.holds.frame
        intro a ha
        apply Function.update_of_ne
        rintro rfl
        exact hnot ha
      · exact h.order
      · rfl
      · rw [hpc]
        exact le_refl _
      · rw [hpc]
        exact fun hopen => ⟨hopen, rfl⟩
      · nofun
      · intro u a x hut hu
        have hae : a ≠ elem := by
          rintro rfl
          exact hut (h.distinct u t a x data hu hpc)
        refine ⟨?_, (h.freeing u a x hu).2⟩
        show (Function.update s.q.elems elem none a).isSome
        rw [Function.update_of_ne hae]
        exact (h.freeing u a x hu).1
  | idle | enqueuing _ | dequeuing _ => simp only [hpc] at hs; cases hs

theorem close_layout (h : Layout size s cells rest)
    (hs : stepEvent s (.close t) = some (s', e)) : Layout size s' cells rest := by
  simp only [stepEvent, h.running, Bool.false_eq_true, if_false] at hs
  cases hpc : s.pc t with
  | idle =>
      simp only [hpc] at hs
      cases hs
      exact ⟨⟨h.holds.forward, h.holds.backward, h.holds.size, h.holds.content⟩, h.order, rfl, h.finite,
        h.places, nofun, h.freeing, h.distinct⟩
  | enqueuing _ | dequeuing _ | freeing _ _ => simp only [hpc] at hs; cases hs

/-- One step keeps the queue laid out. -/
theorem step_layout (h : Layout size s cells rest) {l : Label T β}
    (hs : stepEvent s l = some (s', e)) : ∃ cells' rest', Layout size s' cells' rest' := by
  cases l with
  | enqueueSem t data blocking => exact ⟨cells, rest, enqueueSem_layout h hs⟩
  | enqueue t elem => exact enqueue_layout h hs
  | dequeueSem t blocking => exact ⟨cells, rest, dequeueSem_layout h hs⟩
  | dequeue t => exact dequeue_layout h hs
  | free t => exact ⟨cells, rest, free_layout h hs⟩
  | close t => exact ⟨cells, rest, close_layout h hs⟩

/-- A blocking dequeue that returns NULL found the queue closed and empty. -/
theorem null_of_blocking (h : Layout size s cells rest) {l : Label T β}
    (hs : stepEvent s l = some (s', .dequeueNull t true)) : s.q.status = .closed ∧ cells = [] := by
  simp only [stepEvent, h.running, Bool.false_eq_true, if_false] at hs
  cases l with
  | dequeue u =>
      cases hpc : s.pc u with
      | dequeuing blocking =>
          cases cells with
          | nil =>
              refine ⟨?_, rfl⟩
              cases hstatus : s.q.status with
              | closed => rfl
              | opened => exact absurd rfl (h.nonempty hpc hstatus)
          | cons a cells =>
              obtain ⟨x, rest', q', -, hdequeue, -⟩ := h.holds.dequeue
              simp [hpc, hdequeue] at hs
      | idle | enqueuing _ | freeing _ _ => simp [hpc] at hs
  | dequeueSem u blocking =>
      -- a blocking caller waits for a token
      cases hpc : s.pc u with
      | idle =>
          simp only [hpc] at hs
          split at hs
          · simp at hs
          · split at hs
            · cases hs
            · rename_i hno
              simp only [Option.some.injEq, Prod.mk.injEq, Event.dequeueNull.injEq] at hs
              exact absurd hs.2.2 hno
      | enqueuing _ | dequeuing _ | freeing _ _ => simp [hpc] at hs
  | enqueueSem u data blocking => cases hpc : s.pc u <;> simp [hpc] at hs; grind
  | enqueue u elem => cases hpc : s.pc u <;> simp [hpc] at hs
  | free u => cases hpc : s.pc u <;> simp [hpc] at hs
  | close u => cases hpc : s.pc u <;> simp [hpc] at hs

end Steps

theorem reachable_layout {size : Nat} {s : State T β} (h : Lts.Reachable (system T β size) s) :
    ∃ cells rest, Layout size s cells rest := by
  apply h.invariant (I := fun s => ∃ cells rest, Layout size s cells rest)
  · intro s hs
    rw [show s = start T β size from hs]
    exact ⟨[], [], start_layout size⟩
  · rintro s l t ⟨cells, rest, hi⟩ _ hs
    obtain ⟨⟨s', e⟩, hevent, rfl⟩ := Option.map_eq_some_iff.1 hs
    exact step_layout hi hevent

/-- The thread that takes the step. -/
def Label.thread : Label T β → T
  | .enqueueSem t _ _ | .enqueue t _ | .dequeueSem t _ | .dequeue t | .free t | .close t => t

/-- What the step returns from a successful dequeue, and to whom. -/
def Event.value : Event T β → List (T × β)
  | .dequeueRet t data => [(t, data)]
  | _ => []

/-- A run with the elements its dequeues have removed, in the order of the sections, and the values they
have returned, in the order of the returns. -/
structure Trace (T β : Type*) where
  s : State T β
  taken : List (T × β)
  returned : List (T × β)

/-- One step: what is new in `removed` has been taken by the thread of the step. -/
def Trace.step (r : Trace T β) (l : Label T β) : Option (Trace T β) :=
  (stepEvent r.s l).map fun (s', e) =>
    { s := s'
      taken := r.taken ++ (s'.removed.drop r.s.removed.length).map fun x => (l.thread, x)
      returned := r.returned ++ e.value }

def traces (T β : Type*) [DecidableEq T] (size : Nat) : Lts.System (Trace T β) (Label T β) :=
  .ofFn (· = { s := start T β size, taken := [], returned := [] }) Trace.step

/-- The values of a thread, in order. -/
def valuesOf (l : List (T × β)) (t : T) : List β := (l.filter fun v => v.1 = t).map Prod.snd

/-- The element that a call has removed and not returned yet. -/
def Pc.pending : Pc β → List β
  | .freeing _ data => [data]
  | _ => []

theorem valuesOf_append (l l' : List (T × β)) (t : T) : valuesOf (l ++ l') t = valuesOf l t ++ valuesOf l' t := by
  simp [valuesOf]

theorem valuesOf_single (t u : T) (x : β) : valuesOf [(t, x)] u = if t = u then [x] else [] := by
  by_cases h : t = u
  · simp [valuesOf, h]
  · simp [valuesOf, h]

/-- Each thread has got what it has taken, up to the element it is about to return. -/
structure Serves (r : Trace T β) : Prop where
  taken : r.taken.map Prod.snd = r.s.removed
  got : ∀ t, valuesOf r.taken t = valuesOf r.returned t ++ (r.s.pc t).pending

section Serving

variable {r r' : Trace T β} {l : Label T β}

/-- What a step has to say of the thread that takes it. -/
theorem Serves.move (h : Serves r) {s' : State T β} {e : Event T β} {t : T} {p : Pc β} (new : List β)
    (hpc : s'.pc = Function.update r.s.pc t p) (hremoved : s'.removed = r.s.removed ++ new)
    (hevent : ∀ u, valuesOf e.value u = if t = u then valuesOf e.value t else [])
    (hself : (r.s.pc t).pending ++ new = valuesOf e.value t ++ p.pending) :
    Serves { s := s'
             taken := r.taken ++ (s'.removed.drop r.s.removed.length).map fun x => (t, x)
             returned := r.returned ++ e.value } := by
  have hnew : s'.removed.drop r.s.removed.length = new := by
    rw [hremoved, List.drop_left]
  have htaken : ∀ u, valuesOf (new.map fun x => (t, x)) u = if t = u then new else [] := by
    intro u
    by_cases htu : t = u
    · simp [valuesOf, htu, List.filter_map, Function.comp_def]
    · simp [valuesOf, htu, List.filter_map, Function.comp_def]
  refine ⟨?_, fun u => ?_⟩
  · show (r.taken ++ _).map Prod.snd = s'.removed
    rw [hnew, hremoved, List.map_append, h.taken, List.map_map]
    simp [Function.comp_def]
  · show valuesOf (r.taken ++ _) u = valuesOf (r.returned ++ e.value) u ++ (s'.pc u).pending
    rw [hnew, valuesOf_append, valuesOf_append, h.got u, htaken u, hevent u, hpc]
    by_cases htu : t = u
    · subst htu
      rw [if_pos rfl, if_pos rfl, Function.update_self, List.append_assoc, List.append_assoc, hself]
    · rw [if_neg htu, if_neg htu, Function.update_of_ne (Ne.symm htu)]
      simp

/-- A step that removes nothing and returns no value, of a thread that is not between the two. -/
theorem Serves.quiet (h : Serves r) {s' : State T β} {e : Event T β} {t : T} (hpc : ∀ u, u ≠ t → s'.pc u = r.s.pc u)
    (hremoved : s'.removed = r.s.removed) (hevent : e.value = []) (hbefore : (r.s.pc t).pending = [])
    (hafter : (s'.pc t).pending = []) :
    Serves { s := s'
             taken := r.taken ++ (s'.removed.drop r.s.removed.length).map fun x => (t, x)
             returned := r.returned ++ e.value } := by
  have hupdate : s'.pc = Function.update r.s.pc t (s'.pc t) := by
    funext u
    by_cases hut : u = t
    · subst hut; simp
    · rw [hpc u hut, Function.update_of_ne hut]
  apply h.move [] hupdate
  · rw [hremoved, List.append_nil]
  · intro u
    simp [hevent, valuesOf]
  · simp [hevent, hbefore, hafter, valuesOf]

/-- **One step.** -/
theorem Serves.step (h : Serves r) (hs : r.step l = some r') : Serves r' := by
  obtain ⟨⟨s', e⟩, hevent, rfl⟩ := Option.map_eq_some_iff.1 hs
  unfold stepEvent at hevent
  split at hevent
  · cases hevent
  have hothers : ∀ {t : T} {p : Pc β} {u : T}, u ≠ t → Function.update r.s.pc t p u = r.s.pc u :=
    fun hut => Function.update_of_ne hut _ _
  cases l with
  | enqueueSem t data blocking =>
      cases hpc : r.s.pc t with
      | idle =>
          simp only [hpc] at hevent
          split at hevent
          · cases hevent
            exact h.quiet (t := t) (fun u => hothers) rfl rfl (by rw [hpc]; rfl) (by simp [State.at, Pc.pending])
          · split at hevent <;> cases hevent
            exact h.quiet (t := t) (fun u _ => rfl) rfl rfl (by rw [hpc]; rfl) (by rw [hpc]; rfl)
      | enqueuing _ | dequeuing _ | freeing _ _ => simp [hpc] at hevent
  | dequeueSem t blocking =>
      cases hpc : r.s.pc t with
      | idle =>
          simp only [hpc] at hevent
          split at hevent
          · cases hevent
            exact h.quiet (t := t) (fun u => hothers) rfl rfl (by rw [hpc]; rfl) (by simp [State.at, Pc.pending])
          · split at hevent <;> cases hevent
            exact h.quiet (t := t) (fun u _ => rfl) rfl rfl (by rw [hpc]; rfl) (by rw [hpc]; rfl)
      | enqueuing _ | dequeuing _ | freeing _ _ => simp [hpc] at hevent
  | enqueue t elem =>
      cases hpc : r.s.pc t with
      | enqueuing data =>
          simp only [hpc] at hevent
          split at hevent <;> cases hevent
          exact h.quiet (t := t) (fun u => hothers) rfl rfl (by rw [hpc]; rfl) (by simp [State.at, Pc.pending])
      | idle | dequeuing _ | freeing _ _ => simp [hpc] at hevent
  | dequeue t =>
      cases hpc : r.s.pc t with
      | dequeuing blocking =>
          simp only [hpc] at hevent
          split at hevent
          · cases hevent
            exact h.quiet (t := t) (fun u => hothers) rfl rfl (by rw [hpc]; rfl) (by simp [State.at, Pc.pending])
          · cases hevent
            exact h.quiet (t := t) (fun u _ => rfl) rfl rfl (by rw [hpc]; rfl) (by rw [show _ = _ from hpc]; rfl)
          · cases hevent
            -- the thread takes the element that it will return
            apply h.move (t := t) _ rfl rfl
            · intro u
              simp [Event.value, valuesOf]
            · rw [hpc]
              simp [Event.value, valuesOf, Pc.pending]
      | idle | enqueuing _ | freeing _ _ => simp [hpc] at hevent
  | free t =>
      cases hpc : r.s.pc t with
      | freeing elem data =>
          simp only [hpc] at hevent
          cases hevent
          refine h.move (t := t) [] rfl (List.append_nil r.s.removed).symm ?_ ?_
          · intro u
            by_cases htu : t = u
            · simp [htu]
            · rw [if_neg htu]
              simp [Event.value, valuesOf_single, htu]
          · rw [hpc]
            simp [Event.value, valuesOf_single, Pc.pending]
      | idle | enqueuing _ | dequeuing _ => simp [hpc] at hevent
  | close t =>
      cases hpc : r.s.pc t with
      | idle =>
          simp only [hpc] at hevent
          cases hevent
          exact h.quiet (t := t) (fun u _ => rfl) rfl rfl (by rw [hpc]; rfl) (by rw [show _ = _ from hpc]; rfl)
      | enqueuing _ | dequeuing _ | freeing _ _ => simp [hpc] at hevent

end Serving

/-- A trace is a run of the queue. -/
theorem trace_reachable {size : Nat} {r : Trace T β} (h : Lts.Reachable (traces T β size) r) :
    Lts.Reachable (system T β size) r.s ∧ Serves r := by
  apply h.invariant (I := fun r => Lts.Reachable (system T β size) r.s ∧ Serves r)
  · intro r hr
    rw [show r = { s := start T β size, taken := [], returned := [] } from hr]
    exact ⟨.of_init rfl, rfl, fun t => rfl⟩
  · rintro r l r' ⟨hreach, hserves⟩ _ hs
    refine ⟨?_, hserves.step hs⟩
    obtain ⟨⟨s', e⟩, hevent, rfl⟩ := Option.map_eq_some_iff.1 hs
    apply hreach.tail (a := l) trivial
    show (stepEvent r.s l).map Prod.fst = some s'
    rw [hevent]
    rfl

/-- **A bounded FIFO queue**: in every state of every run the links represent a sequence within
the bound, what was removed and what is there make up what was appended, each thread has been returned
what its dequeues removed, in order and up to the one it is in, no section follows a null head, and a
blocking dequeue returns NULL only from a closed and empty queue. -/
theorem bounded_fifo (size : Nat) (r : Trace T β) (h : Lts.Reachable (traces T β size) r) :
    (∃ cells rest, Holds r.s.q cells rest ∧ cells.length ≤ size ∧
      r.s.appended = r.taken.map Prod.snd ++ rest ∧
      ∀ a ∈ cells, ∀ b ∈ cells, r.s.q.elems.prev a = some b ↔ r.s.q.elems.next b = some a) ∧
    (∀ t, valuesOf r.taken t = valuesOf r.returned t ++ (r.s.pc t).pending) ∧
    r.s.crashed = false ∧
    (∀ t blocking, r.s.pc t = .dequeuing blocking → r.s.q.status = .opened → r.s.q.head ≠ none) ∧
    ∀ l s' t, stepEvent r.s l = some (s', .dequeueNull t true) →
      r.s.q.status = .closed ∧ r.s.q.head = none ∧ r.s.q.size = 0 := by
  obtain ⟨hreach, hserves⟩ := trace_reachable h
  obtain ⟨cells, rest, hlayout⟩ := reachable_layout hreach
  refine ⟨⟨cells, rest, hlayout.holds, ?_, ?_, fun a ha b hb => ?_⟩, hserves.got, hlayout.running, ?_, ?_⟩
  · have := hlayout.places
    omega
  · rw [hserves.taken]
    exact hlayout.order
  · exact hlayout.holds.forward.inverse hlayout.holds.backward ha hb
  · intro t blocking hpc hopen
    exact hlayout.head_ne (hlayout.nonempty hpc hopen)
  · intro l s' t hs
    obtain ⟨hclosed, rfl⟩ := null_of_blocking hlayout hs
    exact ⟨hclosed, hlayout.holds.forward, hlayout.holds.size⟩

/-- Two threads enqueue on a queue of two places; a third removes both and has been returned what came
first. -/
theorem bounded_fifo_two : ∃ r : Trace Nat Nat, Lts.Reachable (traces Nat Nat 2) r ∧
    r.s.appended = [7, 8] ∧ r.returned = [(2, 7)] ∧ r.s.q.size = 0 ∧
      valuesOf r.taken 2 = [7] ++ (r.s.pc 2).pending := by
  obtain ⟨r, hr, hp⟩ := Lts.exec_of_any (f := Trace.step)
    (s := { s := start Nat Nat 2, taken := [], returned := [] })
    (p := fun r => decide (r.s.appended = [7, 8] ∧ r.returned = [(2, 7)] ∧ r.s.q.size = 0))
    (l := [.enqueueSem 0 7 true, .enqueueSem 1 8 false, .enqueue 0 3, .dequeueSem 2 true, .enqueue 1 5,
      .dequeue 2, .free 2, .dequeueSem 2 true, .dequeue 2]) (by decide +kernel)
  obtain ⟨happended, hreturned, hsize⟩ := of_decide_eq_true hp
  have hreach : Lts.Reachable (traces Nat Nat 2) r := ⟨_, rfl, Lts.exec_run hr⟩
  refine ⟨r, hreach, happended, hreturned, hsize, ?_⟩
  have hgot := (bounded_fifo 2 r hreach).2.1 2
  rw [hgot, hreturned]
  rfl

end ComplexSim.QueueMemory
