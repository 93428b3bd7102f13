import ComplexSim.Queue.Fifo
import Mathlib.Data.Finset.Card

/-!
# What `cs_queue_close` does for the consumers

A close posts one token on the semaphore of the elements, and a consumer that finds the queue
closed and empty has used its token up: it returns NULL and posts none. So each close releases one
consumer more than there are elements. Consumers are released as long as, from the first close on,
there are as many tokens as consumers that wait; when there are fewer, the last of these waits for
ever once the elements are delivered.

`waits` are the threads that are blocked in the `sem_wait` of `cs_queue_dequeue`.
-/

namespace ComplexSim.QueueClosing

open QueueMemory (Event Pc Layout stepEvent)

variable {T β : Type*}

/-- A queue, its threads, and those of them that wait for an element. -/
structure State (T β : Type*) where
  base : QueueMemory.State T β
  waits : Finset T

inductive Label (T β : Type*) where
  /-- a blocking `cs_queue_dequeue` is called -/
  | call (t : T)
  | base (l : QueueMemory.Label T β)

/-- The thread that takes a step. -/
def thread : QueueMemory.Label T β → T
  | .enqueueSem t _ _ | .enqueue t _ | .dequeueSem t _ | .dequeue t | .free t | .close t => t

/-- The return of the `sem_wait` of a blocking `cs_queue_dequeue`. -/
def isWait : QueueMemory.Label T β → Bool
  | .dequeueSem _ blocking => blocking
  | _ => false

variable [DecidableEq T]

def step (s : State T β) : Label T β → Option (State T β)
  | .call t => match s.base.pc t with
      | .idle => if t ∈ s.waits then none else some { s with waits := insert t s.waits }
      | _ => none
  | .base l =>
      if thread l ∈ s.waits ↔ isWait l = true then
        (stepEvent s.base l).map fun x => { base := x.1, waits := s.waits.erase (thread l) }
      else none

/-- A queue initialised with `size`, and threads that have not called it. -/
def start (T β : Type*) (size : Nat) : State T β where
  base := QueueMemory.start T β size
  waits := ∅

def system (T β : Type*) [DecidableEq T] (size : Nat) : Lts.System (State T β) (Label T β) :=
  .ofFn (· = start T β size) step

/-- From the first close on, no step leaves fewer tokens than consumers that wait. -/
def Covered (s : State T β) : Label T β → Prop
  | .call _ => s.base.q.status = .closed → s.waits.card < s.base.q.qsem
  | .base (.close _) => s.waits.card ≤ s.base.q.qsem + 1
  | .base (.dequeueSem _ false) => s.base.q.status = .closed → 0 < s.base.q.qsem → s.waits.card < s.base.q.qsem
  | .base _ => True

/-- The consumers of a closed queue are released. -/
structure Released (s : State T β) : Prop where
  /-- whoever waits has a token to take -/
  woken : s.base.q.status = .closed → ∀ t ∈ s.waits, 0 < s.base.q.qsem
  /-- once the elements are delivered, whoever waits can return NULL at once -/
  pending : s.base.q.status = .closed → s.base.q.head = none → ∀ t ∈ s.waits, ∃ s' b,
    step s (.base (.dequeueSem t true)) = some s' ∧ stepEvent s'.base (.dequeue t) = some (b, .dequeueNull t true)
  /-- and whoever has a token does -/
  null : s.base.q.status = .closed → s.base.q.head = none → ∀ t blocking, s.base.pc t = .dequeuing blocking →
    ∃ b, stepEvent s.base (.dequeue t) = some (b, .dequeueNull t blocking)
  /-- no element comes any more -/
  stays : s.base.q.status = .closed → s.base.q.head = none → ∀ l s', step s l = some s' →
    s'.base.q.status = .closed ∧ s'.base.q.head = none

/-- Somebody waits on a closed and empty queue, and there is no token left. -/
def Stuck (s : State T β) : Prop :=
  s.base.q.status = .closed ∧ s.base.q.head = none ∧ s.base.q.qsem = 0 ∧ s.waits.Nonempty

section Base

variable {size : Nat} {b b' : QueueMemory.State T β} {cells : List QueueMemory.Addr} {rest : List β}
  {t : T} {e : Event T β}

/-- What a step does to the tokens and the threads: `c` is where its thread goes. -/
inductive BaseStep (b : QueueMemory.State T β) :
    QueueMemory.Label T β → QueueMemory.State T β → Event T β → Prop where
  | place (t : T) (data : β) (blocking : Bool) (hpc : b.pc t = .idle) (b' : QueueMemory.State T β)
      (hpc' : b'.pc = Function.update b.pc t (.enqueuing data)) (hq : b'.q = { b.q with qlimitSem := b.q.qlimitSem - 1 }) :
      BaseStep b (.enqueueSem t data blocking) b' .tau
  | full (t : T) (data : β) : BaseStep b (.enqueueSem t data false) b (.queueFull t)
  | appended (t : T) (elem : QueueMemory.Addr) (data : β) (r : Int) (hpc : b.pc t = .enqueuing data)
      (hopen : b.q.status = .opened) (b' : QueueMemory.State T β) (hpc' : b'.pc = Function.update b.pc t .idle)
      (hstatus : b'.q.status = .opened) (hsize : b'.q.size = b.q.size + 1) (hqsem : b'.q.qsem = b.q.qsem + 1) :
      BaseStep b (.enqueue t elem) b' (.enqueueRet t r)
  | dropped (t : T) (elem : QueueMemory.Addr) (data : β) (r : Int) (hpc : b.pc t = .enqueuing data)
      (hclosed : b.q.status = .closed) (b' : QueueMemory.State T β) (hpc' : b'.pc = Function.update b.pc t .idle)
      (hq : b'.q = b.q) : BaseStep b (.enqueue t elem) b' (.enqueueRet t r)
  | taken (t : T) (blocking : Bool) (hpc : b.pc t = .idle) (hsem : 0 < b.q.qsem) (b' : QueueMemory.State T β)
      (hpc' : b'.pc = Function.update b.pc t (.dequeuing blocking)) (hq : b'.q = { b.q with qsem := b.q.qsem - 1 }) :
      BaseStep b (.dequeueSem t blocking) b' .tau
  | empty (t : T) (hsem : b.q.qsem = 0) : BaseStep b (.dequeueSem t false) b (.dequeueNull t false)
  | null (t : T) (blocking : Bool) (hpc : b.pc t = .dequeuing blocking) (hhead : b.q.head = none)
      (hclosed : b.q.status = .closed) (b' : QueueMemory.State T β) (hpc' : b'.pc = Function.update b.pc t .idle)
      (hq : b'.q = b.q) : BaseStep b (.dequeue t) b' (.dequeueNull t blocking)
  | removed (t : T) (blocking : Bool) (elem : QueueMemory.Addr) (data : β) (hpc : b.pc t = .dequeuing blocking)
      (hhead : b.q.head ≠ none) (b' : QueueMemory.State T β)
      (hpc' : b'.pc = Function.update b.pc t (.freeing elem data)) (hstatus : b'.q.status = b.q.status)
      (hsize : b'.q.size = b.q.size - 1) (hqsem : b'.q.qsem = b.q.qsem) : BaseStep b (.dequeue t) b' .tau
  | freed (t : T) (elem : QueueMemory.Addr) (data : β) (hpc : b.pc t = .freeing elem data)
      (b' : QueueMemory.State T β) (hpc' : b'.pc = Function.update b.pc t .idle) (hstatus : b'.q.status = b.q.status)
      (hhead : b'.q.head = b.q.head) (hsize : b'.q.size = b.q.size) (hqsem : b'.q.qsem = b.q.qsem) :
      BaseStep b (.free t) b' (.dequeueRet t data)
  | closed (t : T) (hpc : b.pc t = .idle) (b' : QueueMemory.State T β) (hpc' : b'.pc = b.pc)
      (hq : b'.q = QueueMemory.csQueueClose b.q) : BaseStep b (.close t) b' (.closeRet t)

theorem BaseStep.of (h : Layout size b cells rest) {l : QueueMemory.Label T β}
    (hs : stepEvent b l = some (b', e)) : BaseStep b l b' e := by
  simp only [stepEvent, h.running, Bool.false_eq_true, if_false] at hs
  cases l with
  | enqueueSem t data blocking =>
      cases hpc : b.pc t with
      | idle =>
          simp only [hpc] at hs
          split at hs
          · cases hs
            exact .place t data blocking hpc _ rfl rfl
          · cases blocking <;> cases hs
            exact .full t data
      | enqueuing _ | dequeuing _ | freeing _ _ => simp only [hpc] at hs; cases hs
  | enqueue t elem =>
      cases hpc : b.pc t with
      | enqueuing data =>
          simp only [hpc] at hs
          have habs := congrArg Prod.fst (QueueMemory.enqueue_abs b.q rest elem data)
          split at hs
          · cases hs
          · cases hs
            cases hstatus : b.q.status with
            | opened =>
                simp only [hstatus, if_true, ComplexSim.csQueueEnqueue, QueueMemory.Queue.abs, CsQueue.mk.injEq] at habs
                obtain ⟨hsize, hstatus', -, hqsem, -⟩ := habs
                exact .appended t elem data _ hpc hstatus _ rfl hstatus' hsize hqsem
            | closed =>
                refine .dropped t elem data _ hpc hstatus _ rfl ?_
                simp [QueueMemory.State.at, QueueMemory.csQueueEnqueue, hstatus]
      | idle | dequeuing _ | freeing _ _ => simp only [hpc] at hs; cases hs
  | dequeueSem t blocking =>
      cases hpc : b.pc t with
      | idle =>
          simp only [hpc] at hs
          split at hs
          · cases hs
            exact .taken t blocking hpc ‹_› _ rfl rfl
          · cases blocking <;> cases hs
            exact .empty t (Nat.eq_zero_of_not_pos ‹_›)
      | enqueuing _ | dequeuing _ | freeing _ _ => simp only [hpc] at hs; cases hs
  | dequeue t =>
      cases hpc : b.pc t with
      | dequeuing blocking =>
          simp only [hpc] at hs
          cases cells with
          | nil =>
              have hhead : b.q.head = none := h.holds.forward
              have hclosed : b.q.status = .closed := by
                cases hstatus : b.q.status with
                | closed => rfl
                | opened => exact absurd rfl (h.nonempty hpc hstatus)
              simp only [QueueMemory.csQueueDequeue, hhead, hclosed, if_true] at hs
              cases hs
              exact .null t blocking hpc hhead hclosed _ rfl rfl
          | cons a cells =>
              obtain ⟨x, rest', q', rfl, hdequeue, -, habs, -⟩ := h.holds.dequeue
              simp only [QueueMemory.Queue.abs, CsQueue.mk.injEq] at habs
              obtain ⟨hsize, hstatus, -, hqsem, -⟩ := habs
              simp only [hdequeue] at hs
              cases hs
              exact .removed t blocking a x hpc (h.head_ne (List.cons_ne_nil _ _)) _ rfl hstatus
                hsize hqsem
      | idle | enqueuing _ | freeing _ _ => simp only [hpc] at hs; cases hs
  | free t =>
      cases hpc : b.pc t with
      | freeing elem data =>
          simp only [hpc] at hs
          cases hs
          exact .freed t elem data hpc _ rfl rfl rfl rfl rfl
      | idle | enqueuing _ | dequeuing _ => simp only [hpc] at hs; cases hs
  | close t =>
      cases hpc : b.pc t with
      | idle =>
          simp only [hpc] at hs
          cases hs
          exact .closed t hpc _ rfl rfl
      | enqueuing _ | dequeuing _ | freeing _ _ => simp only [hpc] at hs; cases hs

theorem BaseStep.pc_of_ne {l : QueueMemory.Label T β} (hs : BaseStep b l b' e) {u : T} (hu : u ≠ thread l) :
    b'.pc u = b.pc u := by
  cases hs with
  | full _ _ | empty _ _ => rfl
  | closed _ _ _ hpc' _ => rw [hpc']
  | place _ _ _ _ _ hpc' _ | appended _ _ _ _ _ _ _ hpc' _ _ _ | dropped _ _ _ _ _ _ _ hpc' _
  | taken _ _ _ _ _ hpc' _ | null _ _ _ _ _ _ hpc' _ | removed _ _ _ _ _ _ _ hpc' _ _ _
  | freed _ _ _ _ _ hpc' _ _ _ _ =>
      rw [hpc']
      exact Function.update_of_ne hu _ _

/-- There are tokens, taken or not, for all elements. -/
theorem BaseStep.supply (hfin : {t | b.pc t ≠ .idle}.Finite) (hempty : b.q.head = none → b.q.size = 0)
    {l : QueueMemory.Label T β} (hs : BaseStep b l b' e)
    (h : b.q.size ≤ (b.q.qsem + crowd Pc.tokens b.pc : Nat)) :
    b'.q.size ≤ (b'.q.qsem + crowd Pc.tokens b'.pc : Nat) := by
  have htokens (t : T) (p : Pc β) := QueueMemory.tokens_at (t := t) (p := p) hfin
  cases hs with
  | full _ _ | empty _ _ => exact h
  | place t data _ hpc _ hpc' hq =>
      have ht := htokens t (.enqueuing data)
      rw [hpc] at ht
      simp only [Pc.tokens] at ht
      rw [hpc', hq]
      show b.q.size ≤ (b.q.qsem + _ : Nat)
      omega
  | appended t _ _ _ hpc _ _ hpc' _ hsize hqsem =>
      have ht := htokens t .idle
      rw [hpc] at ht
      simp only [Pc.tokens] at ht
      rw [hpc', hsize, hqsem]
      omega
  | dropped t _ _ _ hpc _ _ hpc' hq =>
      have ht := htokens t .idle
      rw [hpc] at ht
      simp only [Pc.tokens] at ht
      rw [hpc', hq]
      omega
  | taken t blocking hpc hsem _ hpc' hq =>
      have ht := htokens t (.dequeuing blocking)
      rw [hpc] at ht
      simp only [Pc.tokens] at ht
      rw [hpc', hq]
      show b.q.size ≤ (b.q.qsem - 1 + _ : Nat)
      omega
  | null t _ hpc hhead _ _ hpc' hq =>
      have hsize := hempty hhead
      rw [hq]
      omega
  | removed t _ elem data hpc _ _ hpc' _ hsize hqsem =>
      have ht := htokens t (.freeing elem data)
      rw [hpc] at ht
      simp only [Pc.tokens] at ht
      rw [hpc', hsize, hqsem]
      omega
  | freed t _ _ hpc _ hpc' _ _ hsize hqsem =>
      have ht := htokens t .idle
      rw [hpc] at ht
      simp only [Pc.tokens] at ht
      rw [hpc', hsize, hqsem]
      omega
  | closed _ _ _ hpc' hq =>
      rw [hpc', hq]
      show b.q.size ≤ (b.q.qsem + 1 + _ : Nat)
      omega

end Base

/-- What holds of a queue and those who wait, in every run. -/
structure Inv (size : Nat) (s : State T β) : Prop where
  layout : ∃ cells rest, Layout size s.base cells rest
  idle : ∀ t ∈ s.waits, s.base.pc t = .idle
  supply : s.base.q.size ≤ (s.base.q.qsem + crowd Pc.tokens s.base.pc : Nat)

section Steps

variable {size : Nat} {s s' : State T β} {t : T} {l : Label T β}

/-- What a step does to those who wait. -/
theorem base_cases {l : QueueMemory.Label T β} (hs : step s (.base l) = some s') :
    ∃ b e, stepEvent s.base l = some (b, e) ∧ s' = { base := b, waits := s.waits.erase (thread l) } ∧
      (thread l ∈ s.waits ↔ isWait l = true) := by
  simp only [step] at hs
  split at hs
  · obtain ⟨⟨b, e⟩, hevent, rfl⟩ := Option.map_eq_some_iff.1 hs
    exact ⟨b, e, hevent, rfl, ‹_›⟩
  · cases hs

theorem call_cases (hs : step s (.call t) = some s') :
    s.base.pc t = .idle ∧ t ∉ s.waits ∧ s' = { s with waits := insert t s.waits } := by
  simp only [step] at hs
  split at hs
  · split at hs <;> cases hs
    exact ⟨‹_›, ‹_›, rfl⟩
  · cases hs

omit [DecidableEq T] in
theorem Inv.empty_iff (h : Inv size s) : s.base.q.head = none ↔ s.base.q.size = 0 := by
  obtain ⟨cells, rest, hlayout⟩ := h.layout
  have hsize := hlayout.holds.size
  cases cells with
  | nil => exact iff_of_true hlayout.holds.forward (by simpa using hsize)
  | cons a cells =>
      refine iff_of_false (hlayout.head_ne (List.cons_ne_nil _ _)) ?_
      rw [hsize]
      simp only [List.length_cons]
      omega

omit [DecidableEq T] in
theorem start_inv (size : Nat) : Inv size (start T β size) where
  layout := ⟨[], [], QueueMemory.start_layout size⟩
  idle := nofun
  supply := by simp [start, QueueMemory.start, QueueMemory.init]

theorem Inv.base (h : Inv size s) {b : QueueMemory.State T β} {e : Event T β} {l : QueueMemory.Label T β}
    (hs : stepEvent s.base l = some (b, e)) : BaseStep s.base l b e := by
  obtain ⟨cells, rest, hlayout⟩ := h.layout
  exact BaseStep.of hlayout hs

omit [DecidableEq T] in
theorem Inv.finite (h : Inv size s) : {t | s.base.pc t ≠ .idle}.Finite := by
  obtain ⟨cells, rest, hlayout⟩ := h.layout
  exact hlayout.finite

theorem step_inv (h : Inv size s) (hs : step s l = some s') : Inv size s' := by
  cases l with
  | call t =>
      obtain ⟨hidle, -, rfl⟩ := call_cases hs
      refine ⟨h.layout, fun u hu => ?_, h.supply⟩
      rcases Finset.mem_insert.1 hu with rfl | hu
      · exact hidle
      · exact h.idle u hu
  | base l =>
      obtain ⟨b, e, hevent, rfl, -⟩ := base_cases hs
      have hstep := h.base hevent
      refine ⟨?_, fun u hu => ?_, hstep.supply h.finite h.empty_iff.1 h.supply⟩
      · obtain ⟨cells, rest, hlayout⟩ := h.layout
        exact QueueMemory.step_layout hlayout hevent
      · obtain ⟨hne, hu⟩ := Finset.mem_erase.1 hu
        exact (hstep.pc_of_ne hne).trans (h.idle u hu)

theorem reachable_inv {ok : State T β → Label T β → Prop} (h : Lts.ReachableIf (system T β size) ok s) :
    Inv size s := by
  apply h.invariant (I := Inv size)
  · intro s hs
    rw [show s = start T β size from hs]
    exact start_inv size
  · intro s l s' hi _ hs
    exact step_inv hi hs

/-- As many tokens as consumers that wait. -/
theorem covered_step (hinv : Inv size s) (h : s.base.q.status = .closed → s.waits.card ≤ s.base.q.qsem)
    (hok : Covered s l) (hs : step s l = some s') :
    s'.base.q.status = .closed → s'.waits.card ≤ s'.base.q.qsem := by
  intro hclosed
  cases l with
  | call t =>
      obtain ⟨-, hnew, rfl⟩ := call_cases hs
      rw [Finset.card_insert_of_notMem hnew]
      exact hok hclosed
  | base l =>
      obtain ⟨b, e, hevent, rfl, hwait⟩ := base_cases hs
      have hle : (s.waits.erase (thread l)).card ≤ s.waits.card := Finset.card_le_card (Finset.erase_subset _ _)
      show (s.waits.erase (thread l)).card ≤ b.q.qsem
      have hclosed : b.q.status = .closed := hclosed
      cases hinv.base hevent with
      | full _ _ | empty _ _ => exact le_trans hle (h hclosed)
      | place _ _ _ _ _ _ hq | dropped _ _ _ _ _ _ _ _ hq | null _ _ _ _ _ _ _ hq =>
          rw [hq] at hclosed ⊢
          exact le_trans hle (h hclosed)
      | appended _ _ _ _ _ _ _ _ hstatus _ _ =>
          rw [hstatus] at hclosed
          cases hclosed
      | taken t blocking _ hsem _ _ hq =>
          rw [hq] at hclosed ⊢
          have hcover := h hclosed
          show _ ≤ s.base.q.qsem - 1
          cases blocking with
          | true =>
              have hmem : t ∈ s.waits := hwait.2 rfl
              have hcard := Finset.card_erase_of_mem hmem
              have hpos : 0 < s.waits.card := Finset.card_pos.2 ⟨t, hmem⟩
              show (s.waits.erase t).card ≤ _
              omega
          | false =>
              have hlt := hok hclosed hsem
              omega
      | removed _ _ _ _ _ _ _ _ hstatus _ hqsem | freed _ _ _ _ _ _ hstatus _ _ hqsem =>
          rw [hstatus] at hclosed
          rw [hqsem]
          exact le_trans hle (h hclosed)
      | closed _ _ _ _ hq =>
          rw [hq]
          exact le_trans hle hok

theorem covered (h : Lts.ReachableIf (system T β size) Covered s) :
    s.base.q.status = .closed → s.waits.card ≤ s.base.q.qsem := by
  apply h.invariant_of (P := Inv size) (I := fun s => s.base.q.status = .closed → s.waits.card ≤ s.base.q.qsem)
    (fun s hs => reachable_inv hs)
  · intro s hs hclosed
    rw [show s = start T β size from hs] at hclosed
    cases hclosed
  · intro s l s' hinv _ hi hok hs
    exact covered_step hinv hi hok hs

omit [DecidableEq T] in
theorem Inv.running (h : Inv size s) : s.base.crashed = false := by
  obtain ⟨cells, rest, hlayout⟩ := h.layout
  exact hlayout.running

/-- Whoever waits takes a token that is there. -/
theorem Inv.take (h : Inv size s) (ht : t ∈ s.waits) (hsem : 0 < s.base.q.qsem) :
    step s (.base (.dequeueSem t true)) = some
      { base := { s.base with q := { s.base.q with qsem := s.base.q.qsem - 1 } }.at t (.dequeuing true)
        waits := s.waits.erase t } := by
  simp [step, thread, isWait, ht, stepEvent, h.running, h.idle t ht, hsem]

/-- The section of `cs_queue_dequeue` on a closed and empty queue. -/
theorem null_event {b : QueueMemory.State T β} (hrun : b.crashed = false) {blocking : Bool}
    (hpc : b.pc t = .dequeuing blocking) (hhead : b.q.head = none) (hclosed : b.q.status = .closed) :
    stepEvent b (.dequeue t) = some (b.at t .idle, .dequeueNull t blocking) := by
  simp [stepEvent, hrun, hpc, QueueMemory.csQueueDequeue, hhead, hclosed]

/-- Whoever has a token goes through that section. -/
theorem Inv.section_step (h : Inv size s) {blocking : Bool} (hpc : s.base.pc t = .dequeuing blocking) :
    ∃ b e, stepEvent s.base (.dequeue t) = some (b, e) ∧
      step s (.base (.dequeue t)) = some { base := b, waits := s.waits.erase t } := by
  have hsome : ∃ x, stepEvent s.base (.dequeue t) = some x := by
    obtain ⟨cells, rest, hlayout⟩ := h.layout
    cases cells with
    | nil =>
        have hclosed : s.base.q.status = .closed := by
          cases hstatus : s.base.q.status with
          | closed => rfl
          | opened => exact absurd rfl (hlayout.nonempty hpc hstatus)
        exact ⟨_, null_event h.running hpc hlayout.holds.forward hclosed⟩
    | cons a cells =>
        obtain ⟨x, rest', q', rfl, hdequeue, -⟩ := hlayout.holds.dequeue
        exact ⟨_, by simp only [stepEvent, h.running, Bool.false_eq_true, if_false, hpc, hdequeue]; rfl⟩
  obtain ⟨⟨b, e⟩, hevent⟩ := hsome
  have hno : t ∉ s.waits := by
    intro ht
    rw [h.idle t ht] at hpc
    cases hpc
  exact ⟨b, e, hevent, by simp [step, thread, isWait, hno, hevent]⟩

/-- A closed and empty queue stays so. -/
theorem Inv.stays (h : Inv size s) (hclosed : s.base.q.status = .closed) (hhead : s.base.q.head = none)
    (hs : step s l = some s') : s'.base.q.status = .closed ∧ s'.base.q.head = none := by
  cases l with
  | call t =>
      obtain ⟨-, -, rfl⟩ := call_cases hs
      exact ⟨hclosed, hhead⟩
  | base l =>
      obtain ⟨b, e, hevent, rfl, -⟩ := base_cases hs
      cases h.base hevent with
      | full _ _ | empty _ _ => exact ⟨hclosed, hhead⟩
      | place _ _ _ _ _ _ hq | dropped _ _ _ _ _ _ _ _ hq | taken _ _ _ _ _ _ hq | null _ _ _ _ _ _ _ hq =>
          show b.q.status = _ ∧ b.q.head = none
          rw [hq]
          exact ⟨hclosed, hhead⟩
      | appended _ _ _ _ _ hopen _ _ _ _ _ =>
          rw [hclosed] at hopen
          cases hopen
      | removed _ _ _ _ _ hne _ _ _ _ _ => exact absurd hhead hne
      | freed _ _ _ _ _ _ hstatus hhead' _ _ => exact ⟨hstatus.trans hclosed, hhead'.trans hhead⟩
      | closed _ _ _ _ hq =>
          show b.q.status = _ ∧ b.q.head = none
          rw [hq]
          exact ⟨rfl, hhead⟩

theorem Inv.released (h : Inv size s) (hcover : s.base.q.status = .closed → s.waits.card ≤ s.base.q.qsem) :
    Released s := by
  have hwoken : s.base.q.status = .closed → ∀ t ∈ s.waits, 0 < s.base.q.qsem := by
    intro hclosed t ht
    exact lt_of_lt_of_le (Finset.card_pos.2 ⟨t, ht⟩) (hcover hclosed)
  refine ⟨hwoken, fun hclosed hhead t ht => ?_, fun hclosed hhead t blocking hpc => ?_,
    fun hclosed hhead l s' hs => h.stays hclosed hhead hs⟩
  · have hs := h.take ht (hwoken hclosed t ht)
    obtain ⟨hclosed', hhead'⟩ := h.stays hclosed hhead hs
    exact ⟨_, _, hs, null_event (step_inv h hs).running (Function.update_self ..) hhead' hclosed'⟩
  · exact ⟨_, null_event h.running hpc hhead hclosed⟩

/-- A step of `cs_queue_dequeue`. -/
def Dequeues (_ : State T β) : Label T β → Prop
  | .base (.dequeueSem _ _) | .base (.dequeue _) => True
  | _ => False

/-- With fewer tokens than consumers, these use up the tokens and the elements, and one waits for ever. -/
theorem Inv.drains (h : Inv size s) (hclosed : s.base.q.status = .closed) (hfew : s.base.q.qsem < s.waits.card) :
    ∃ s', Lts.Run (system T β size) Dequeues s s' ∧ Stuck s' := by
  -- each step uses a token up
  induction hn : 2 * s.base.q.qsem + crowd Pc.tokens s.base.pc using Nat.strong_induction_on generalizing s with
  | h n ih =>
      by_cases hbusy : ∃ t blocking, s.base.pc t = .dequeuing blocking
      · obtain ⟨t, blocking, hpc⟩ := hbusy
        obtain ⟨b, e, hevent, hs⟩ := h.section_step hpc
        have hinv := step_inv h hs
        have hstep := h.base hevent
        have htokens (p : Pc β) := QueueMemory.tokens_at (t := t) (p := p) h.finite
        have hno : s.waits.erase t = s.waits := Finset.erase_eq_of_notMem fun ht => by
          rw [h.idle t ht] at hpc
          cases hpc
        rw [hno] at hs hinv
        have hnext : b.q.status = .closed ∧ b.q.qsem = s.base.q.qsem ∧
            crowd Pc.tokens b.pc + 1 = crowd Pc.tokens s.base.pc := by
          cases hstep with
          | null _ _ hpc' _ _ _ hpcs hq =>
              have ht := htokens .idle
              rw [hpc, ← hpcs] at ht
              rw [hq]
              exact ⟨hclosed, rfl, ht⟩
          | removed _ _ elem data hpc' _ _ hpcs hstatus _ hqsem =>
              have ht := htokens (.freeing elem data)
              rw [hpc, ← hpcs] at ht
              exact ⟨hstatus.trans hclosed, hqsem, ht⟩
        obtain ⟨hclosed', hqsem, hcrowd⟩ := hnext
        obtain ⟨s', hrun, hstuck⟩ := ih _ (by show 2 * b.q.qsem + crowd Pc.tokens b.pc < n; omega) hinv hclosed'
          (by show b.q.qsem < s.waits.card; omega) rfl
        exact ⟨s', .trans (.tail (.refl s) (a := .base (.dequeue t)) trivial hs) hrun, hstuck⟩
      · have hzero : crowd Pc.tokens s.base.pc = 0 := by
          refine crowd_eq_sum (s := ∅) fun t _ => ?_
          cases hpc : s.base.pc t with
          | dequeuing blocking => exact absurd ⟨t, blocking, hpc⟩ hbusy
          | idle | enqueuing _ | freeing _ _ => rfl
        obtain ⟨t, ht⟩ : s.waits.Nonempty := Finset.card_pos.1 (by omega)
        cases hsem : s.base.q.qsem with
        | zero =>
            have hsize := h.supply
            obtain ⟨cells, rest, hlayout⟩ := h.layout
            have hcells := hlayout.holds.size
            exact ⟨s, .refl s, hclosed, h.empty_iff.2 (by omega), hsem, t, ht⟩
        | succ k =>
            have hs := h.take ht (by omega)
            have hcrowd := QueueMemory.tokens_at (t := t) (p := .dequeuing true) h.finite
            rw [h.idle t ht, hzero] at hcrowd
            have hcard := Finset.card_erase_of_mem ht
            have hless : 2 * (s.base.q.qsem - 1) + crowd Pc.tokens (Function.update s.base.pc t (.dequeuing true)) < n := by
              simp only [Pc.tokens] at hcrowd
              omega
            have hfew' : s.base.q.qsem - 1 < (s.waits.erase t).card := by omega
            obtain ⟨s', hrun, hstuck⟩ := ih _ hless (step_inv h hs) hclosed hfew' rfl
            exact ⟨s', .trans (.tail (.refl s) (a := .base (.dequeueSem t true)) trivial hs) hrun, hstuck⟩

/-- A step that leaves fewer tokens than consumers. -/
theorem uncovered_step (hinv : Inv size s) (hno : ¬ Covered s l) (hs : step s l = some s') :
    s'.base.q.status = .closed ∧ s'.base.q.qsem < s'.waits.card := by
  cases l with
  | call t =>
      obtain ⟨-, hnew, rfl⟩ := call_cases hs
      obtain ⟨hclosed, hfew⟩ := Classical.not_imp.1 hno
      refine ⟨hclosed, ?_⟩
      show s.base.q.qsem < (insert t s.waits).card
      rw [Finset.card_insert_of_notMem hnew]
      omega
  | base l =>
      obtain ⟨b, e, hevent, rfl, hwait⟩ := base_cases hs
      have hstep := hinv.base hevent
      cases l with
      | enqueueSem _ _ _ | enqueue _ _ | dequeue _ | free _ => exact absurd trivial hno
      | close t =>
          have hnot : t ∉ s.waits := fun ht => by simpa [isWait] using hwait.1 ht
          cases hstep with
          | closed _ _ _ _ hq =>
              show b.q.status = _ ∧ b.q.qsem < (s.waits.erase t).card
              rw [hq, Finset.erase_eq_of_notMem hnot]
              exact ⟨rfl, not_le.1 hno⟩
      | dequeueSem t blocking =>
          cases blocking with
          | true => exact absurd trivial hno
          | false =>
              have hnot : t ∉ s.waits := fun ht => by simpa [isWait] using hwait.1 ht
              obtain ⟨hclosed, hrest⟩ := Classical.not_imp.1 hno
              obtain ⟨hsem, hfew⟩ := Classical.not_imp.1 hrest
              cases hstep with
              | taken _ _ _ _ _ _ hq =>
                  show b.q.status = _ ∧ b.q.qsem < (s.waits.erase t).card
                  rw [hq, Finset.erase_eq_of_notMem hnot]
                  refine ⟨hclosed, ?_⟩
                  show s.base.q.qsem - 1 < _
                  omega
              | empty _ hzero => omega

end Steps

/-- **A close releases the consumers**, in every run in which no step leaves fewer tokens than consumers
that wait on the closed queue; after any other step the consumers can use up the tokens and the elements
so that one of them waits for ever. -/
theorem close_releases (size : Nat) :
    (∀ s : State T β, Lts.ReachableIf (system T β size) Covered s → Released s) ∧
      ∀ (s s' : State T β) (l : Label T β), Lts.ReachableIf (system T β size) Covered s → step s l = some s' →
        ¬ Covered s l → ∃ s'', Lts.Run (system T β size) Dequeues s' s'' ∧ Stuck s'' := by
  constructor
  · intro s h
    exact (reachable_inv h).released (covered h)
  · intro s s' l h hs hno
    have hinv := reachable_inv h
    obtain ⟨hclosed, hfew⟩ := uncovered_step hinv hno hs
    exact (step_inv hinv hs).drains hclosed hfew

instance (s : State T β) (l : Label T β) : Decidable (Covered s l) :=
  match l with
  | .call _ => inferInstanceAs (Decidable (s.base.q.status = .closed → s.waits.card < s.base.q.qsem))
  | .base (.close _) => inferInstanceAs (Decidable (s.waits.card ≤ s.base.q.qsem + 1))
  | .base (.dequeueSem _ false) =>
      inferInstanceAs (Decidable (s.base.q.status = .closed → 0 < s.base.q.qsem → s.waits.card < s.base.q.qsem))
  | .base (.dequeueSem _ true) | .base (.enqueueSem _ _ _) | .base (.enqueue _ _) | .base (.dequeue _)
  | .base (.free _) => .isTrue trivial

/-- Two consumers wait when an element comes and the queue is closed: one gets the element, the other
NULL. -/
theorem close_releases_two : ∃ s : State Nat Nat, Lts.ReachableIf (system Nat Nat 1) Covered s ∧
    s.base.q.status = .closed ∧ s.waits = {1} ∧ s.base.removed = [7] ∧ Released s := by
  obtain ⟨s, hs, hp⟩ := Lts.exec_of_any (f := Lts.guarded Covered step) (s := start Nat Nat 1)
    (p := fun s => decide (s.base.q.status = .closed ∧ s.waits = {1} ∧ s.base.removed = [7]))
    (l := [.call 0, .call 1, .base (.enqueueSem 2 7 true), .base (.enqueue 2 0), .base (.close 2),
      .base (.dequeueSem 0 true), .base (.dequeue 0)]) (by decide +kernel)
  obtain ⟨hclosed, hwaits, hremoved⟩ := of_decide_eq_true hp
  have hreach : Lts.ReachableIf (system Nat Nat 1) Covered s := ⟨_, rfl, Lts.exec_guarded_run hs⟩
  exact ⟨s, hreach, hclosed, hwaits, hremoved, (close_releases 1).1 s hreach⟩

/-- Two consumers wait on an empty queue that is closed: the first returns NULL, the second is stuck. -/
theorem close_strands : ∃ s : State Nat Nat, Lts.Reachable (system Nat Nat 1) s ∧ Stuck s ∧ ¬ Released s := by
  obtain ⟨s, hs, hp⟩ := Lts.exec_of_any (f := step) (s := start Nat Nat 1)
    (p := fun s => decide (s.base.q.status = .closed ∧ s.base.q.head = none ∧ s.base.q.qsem = 0 ∧ s.waits = {1}))
    (l := [.call 0, .call 1, .base (.close 2), .base (.dequeueSem 0 true), .base (.dequeue 0)]) (by decide +kernel)
  obtain ⟨hclosed, hhead, hqsem, hwaits⟩ := of_decide_eq_true hp
  have hmem : 1 ∈ s.waits := by
    rw [hwaits]
    exact Finset.mem_singleton_self 1
  refine ⟨s, Lts.exec_reachable rfl hs, ⟨hclosed, hhead, hqsem, 1, hmem⟩, fun hreleased => ?_⟩
  have hpos := hreleased.woken hclosed 1 hmem
  omega

end ComplexSim.QueueClosing
