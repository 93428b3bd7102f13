import ComplexSim.Lib.Linked
import ComplexSim.Queue.Basic
import Mathlib.Logic.Function.Basic

/-!
# The queue in memory (`src/cs_queue.c`)

The elements as the code links them: `next` leads from the tail, the newest element, to the
head, the oldest one, and `prev` back. Each function is the section between
`_CS_QUEUE_LOCK` and `_CS_QUEUE_UNLOCK`. `calloc` succeeds and gives an address that no element
has; an assertion that fails does not abort, so what follows it is executed.
-/

namespace ComplexSim.QueueMemory

/-- The address of an element; `none` is NULL. -/
abbrev Addr := Nat

/-- `cs_qelem`. -/
structure CsQelem (β : Type*) where
  data : β
  next : Option Addr
  prev : Option Addr

/-- The elements that memory has. -/
abbrev Elems (β : Type*) := Addr → Option (CsQelem β)

/-- `cs_queue`. -/
structure Queue (β : Type*) where
  size : Int
  status : QueueStatus
  head : Option Addr
  tail : Option Addr
  elems : Elems β
  qsem : Nat
  qlimitSem : Nat

variable {β : Type*}

/-- `a->next`. -/
def Elems.next (elems : Elems β) (a : Addr) : Option Addr := (elems a).bind (·.next)

/-- `a->prev`. -/
def Elems.prev (elems : Elems β) (a : Addr) : Option Addr := (elems a).bind (·.prev)

/-- `a->next = p`. -/
def Elems.setNext (elems : Elems β) (a : Addr) (p : Option Addr) : Elems β :=
  Function.update elems a ((elems a).map fun elem => { elem with next := p })

/-- `a->prev = p`. -/
def Elems.setPrev (elems : Elems β) (a : Addr) (p : Option Addr) : Elems β :=
  Function.update elems a ((elems a).map fun elem => { elem with prev := p })

/-- `cs_queue_init`. -/
def init (β : Type*) (size : Nat) : Queue β where
  size := 0
  status := .opened
  head := none
  tail := none
  elems := fun _ => none
  qsem := 0
  qlimitSem := size

/-- `cs_queue_close`. -/
def csQueueClose (q : Queue β) : Queue β := { q with status := .closed, qsem := q.qsem + 1 }

/-- The locked section of `cs_queue_enqueue`, where `calloc` gives the address `elem`. -/
def csQueueEnqueue (q : Queue β) (elem : Addr) (data : β) : Queue β × Int :=
  match q.status with
  | .opened =>
      let elems := Function.update q.elems elem (some { data := data, next := q.tail, prev := none })
      match q.tail with
      | some tail =>
          ({ q with elems := Elems.setPrev elems tail (some elem), tail := some elem
                    size := q.size + 1, qsem := q.qsem + 1 }, 0)
      | none =>
          ({ q with elems := elems, head := some elem, tail := some elem
                    size := q.size + 1, qsem := q.qsem + 1 }, 0)
  | .closed => (q, 0)

/-- How the locked section of `cs_queue_dequeue` ends. -/
inductive Dequeue (β : Type*) where
  /-- empty and closed: return NULL -/
  | null
  /-- a null pointer, or one to no element, is followed -/
  | fault
  /-- the element at `elem` is removed, and its data returned once it is freed -/
  | elem (elem : Addr) (data : β) (q : Queue β)

/-- The locked section of `cs_queue_dequeue`. Whether other elements remain is read off
`size`, not off the links. -/
def csQueueDequeue (q : Queue β) : Dequeue β :=
  match q.head with
  | none => if q.status = .closed then .null else .fault
  | some head => match q.elems head with
      | none => .fault
      | some elem =>
          if 1 < q.size then
            match elem.prev with
            | none => .fault
            | some prev =>
                .elem head elem.data { q with elems := q.elems.setNext prev none, head := some prev
                                              size := q.size - 1, qlimitSem := q.qlimitSem + 1 }
          else
            .elem head elem.data { q with head := none, tail := none
                                          size := q.size - 1, qlimitSem := q.qlimitSem + 1 }

/-- The elements of the queue are at the addresses `cells`, oldest first, and have the data `xs`. -/
structure Holds (q : Queue β) (cells : List Addr) (xs : List β) : Prop where
  forward : Linked q.elems.prev q.head cells
  backward : Linked q.elems.next q.tail cells.reverse
  size : q.size = cells.length
  content : cells.map (fun a => (q.elems a).map (·.data)) = xs.map some

/-- The queue, as the list of its data. -/
def Queue.abs (q : Queue β) (xs : List β) : CsQueue β where
  size := q.size
  status := q.status
  elems := xs
  qsem := q.qsem
  qlimitSem := q.qlimitSem

section Fields

variable {elems : Elems β} {a c : Addr} {p : Option Addr}

@[simp] theorem setPrev_next : (elems.setPrev a p).next c = elems.next c := by
  unfold Elems.setPrev Elems.next
  by_cases hc : c = a
  · subst hc
    rw [Function.update_self]
    cases elems c <;> rfl
  · rw [Function.update_of_ne hc]

@[simp] theorem setNext_prev : (elems.setNext a p).prev c = elems.prev c := by
  unfold Elems.setNext Elems.prev
  by_cases hc : c = a
  · subst hc
    rw [Function.update_self]
    cases elems c <;> rfl
  · rw [Function.update_of_ne hc]

theorem setPrev_prev_self {elem : CsQelem β} (h : elems a = some elem) : (elems.setPrev a p).prev a = p := by
  simp [Elems.setPrev, Elems.prev, h]

theorem setPrev_prev_of_ne (h : c ≠ a) : (elems.setPrev a p).prev c = elems.prev c := by
  simp [Elems.setPrev, Elems.prev, h]

theorem setNext_next_self {elem : CsQelem β} (h : elems a = some elem) : (elems.setNext a p).next a = p := by
  simp [Elems.setNext, Elems.next, h]

theorem setNext_next_of_ne (h : c ≠ a) : (elems.setNext a p).next c = elems.next c := by
  simp [Elems.setNext, Elems.next, h]

@[simp] theorem setPrev_data : ((elems.setPrev a p) c).map (·.data) = (elems c).map (·.data) := by
  unfold Elems.setPrev
  by_cases hc : c = a
  · subst hc
    rw [Function.update_self]
    cases elems c <;> rfl
  · rw [Function.update_of_ne hc]

@[simp] theorem setNext_data : ((elems.setNext a p) c).map (·.data) = (elems c).map (·.data) := by
  unfold Elems.setNext
  by_cases hc : c = a
  · subst hc
    rw [Function.update_self]
    cases elems c <;> rfl
  · rw [Function.update_of_ne hc]

theorem setPrev_isSome : ((elems.setPrev a p) c).isSome = (elems c).isSome := by
  rw [← Option.isSome_map (f := (·.data)), setPrev_data, Option.isSome_map]

theorem setNext_isSome : ((elems.setNext a p) c).isSome = (elems c).isSome := by
  rw [← Option.isSome_map (f := (·.data)), setNext_data, Option.isSome_map]

end Fields

section Sections

variable {q : Queue β} {cells : List Addr} {xs : List β}

theorem init_holds (size : Nat) : Holds (init β size) [] [] where
  forward := rfl
  backward := rfl
  size := rfl
  content := rfl

theorem Holds.length_eq (h : Holds q cells xs) : xs.length = cells.length := by
  have hlength := congrArg List.length h.content
  simpa using hlength.symm

/-- Each cell has an element. -/
theorem Holds.mem (h : Holds q cells xs) {a : Addr} (ha : a ∈ cells) :
    ∃ elem, q.elems a = some elem ∧ elem.data ∈ xs := by
  have hmem : (q.elems a).map (·.data) ∈ xs.map some := by
    rw [← h.content]
    exact List.mem_map.2 ⟨a, ha, rfl⟩
  obtain ⟨x, hx, helem⟩ := List.mem_map.1 hmem
  obtain ⟨elem, hfind, rfl⟩ := Option.map_eq_some_iff.1 helem.symm
  exact ⟨elem, hfind, hx⟩

/-- What a queue holds depends on its own elements only. -/
theorem Holds.frame (h : Holds q cells xs) {elems : Elems β} (hkeep : ∀ a ∈ cells, elems a = q.elems a) :
    Holds { q with elems := elems } cells xs where
  forward := h.forward.congr fun a ha => by simp [Elems.prev, hkeep a ha]
  backward := h.backward.congr fun a ha => by simp [Elems.next, hkeep a (List.mem_reverse.1 ha)]
  size := h.size
  content := by
    rw [← h.content]
    exact List.map_congr_left fun a ha => by simp [hkeep a ha]

/-- The data of cells that keep theirs, and of one more. -/
theorem content_append {elems elems' : Elems β} (h : cells.map (fun a => (elems a).map (·.data)) = xs.map some)
    (hkeep : ∀ c ∈ cells, (elems' c).map (·.data) = (elems c).map (·.data)) {a : Addr} {x : β}
    (ha : (elems' a).map (·.data) = some x) :
    (cells ++ [a]).map (fun a => (elems' a).map (·.data)) = (xs ++ [x]).map some := by
  rw [List.map_append, List.map_append, ← h, List.map_congr_left hkeep]
  simp [ha]

/-- An enqueue on an open queue adds the element behind the newest one. -/
theorem Holds.enqueue (h : Holds q cells xs) (hopen : q.status = .opened) {elem : Addr}
    (hnew : elem ∉ cells) (data : β) :
    Holds (csQueueEnqueue q elem data).1 (cells ++ [elem]) (xs ++ [data]) := by
  have hold : ∀ c ∈ cells, c ≠ elem := by
    rintro c hc rfl
    exact hnew hc
  have hlast := h.backward.head_eq
  rw [List.head?_reverse] at hlast
  cases htail : q.tail with
  | none =>
      rw [htail] at hlast
      obtain rfl : cells = [] := List.getLast?_eq_none_iff.1 hlast.symm
      obtain rfl : xs = [] := List.length_eq_zero_iff.1 h.length_eq
      have hsize : q.size = 0 := h.size
      simp only [csQueueEnqueue, hopen, htail]
      refine ⟨by simp [Elems.prev], by simp [Elems.next], ?_, by simp⟩
      show q.size + 1 = 1
      omega
  | some tail =>
      rw [htail] at hlast
      obtain ⟨front, rfl⟩ := List.getLast?_eq_some_iff.1 hlast.symm
      have hnodup := h.forward.nodup
      have htailne : tail ≠ elem := hold tail (by simp)
      obtain ⟨last, hfind, -⟩ := h.mem (a := tail) (by simp)
      simp only [csQueueEnqueue, hopen, htail]
      refine ⟨?_, ?_, ?_, ?_⟩
      · rw [List.append_assoc]
        apply h.forward.snoc
        · intro c hc
          have hct : c ≠ tail := by
            rintro rfl
            exact (List.nodup_append.1 hnodup).2.2 c hc c List.mem_cons_self rfl
          rw [setPrev_prev_of_ne hct]
          simp [Elems.prev, hold c (by simp [hc])]
        · apply setPrev_prev_self
          rw [Function.update_of_ne htailne]
          exact hfind
        · rw [setPrev_prev_of_ne htailne.symm]
          simp [Elems.prev]
      · rw [List.reverse_append]
        refine ⟨rfl, ?_⟩
        have hbackward := h.backward
        rw [htail] at hbackward
        rw [setPrev_next]
        simp only [Elems.next, Function.update_self, Option.bind_some]
        apply hbackward.congr
        intro c hc
        have hce := hold c (List.mem_reverse.1 hc)
        show (Elems.setPrev _ tail (some elem)).next c = q.elems.next c
        rw [setPrev_next]
        simp [Elems.next, hce]
      · have hsize := h.size
        simp only [List.length_append, List.length_singleton] at hsize ⊢
        push_cast at hsize ⊢
        omega
      · apply content_append h.content
        · intro c hc
          rw [setPrev_data, Function.update_of_ne (hold c hc)]
        · rw [setPrev_data, Function.update_self]
          rfl

/-- An enqueue keeps the elements that are there. -/
theorem enqueue_isSome (q : Queue β) (elem : Addr) (data : β) {a : Addr} (ha : (q.elems a).isSome) :
    ((csQueueEnqueue q elem data).1.elems a).isSome := by
  have hnew : ∀ item : CsQelem β, (Function.update q.elems elem (some item) a).isSome := by
    intro item
    by_cases hae : a = elem
    · subst hae
      simp
    · simpa [hae] using ha
  unfold csQueueEnqueue
  cases q.status with
  | closed => exact ha
  | opened =>
      cases htail : q.tail with
      | none => exact hnew _
      | some tail =>
          show (Elems.setPrev _ tail (some elem) a).isSome
          rw [setPrev_isSome]
          exact hnew _

/-- A dequeue on a queue with elements removes the oldest one. -/
theorem Holds.dequeue {a : Addr} (h : Holds q (a :: cells) xs) :
    ∃ x rest q', xs = x :: rest ∧ csQueueDequeue q = .elem a x q' ∧ Holds q' cells rest ∧
      q'.abs rest = { q.abs rest with size := q.size - 1, qlimitSem := q.qlimitSem + 1 } ∧
      ∀ c, (q'.elems c).isSome = (q.elems c).isSome := by
  obtain ⟨elem, hfind, -⟩ := h.mem (a := a) (by simp)
  have hhead : q.head = some a := h.forward.1
  obtain ⟨x, rest, rfl⟩ : ∃ x rest, xs = x :: rest :=
    List.exists_cons_of_length_pos (by rw [h.length_eq]; simp)
  have hcontent := h.content
  simp only [List.map_cons, hfind, Option.map_some, List.cons.injEq, Option.some.injEq] at hcontent
  obtain ⟨rfl, hrest⟩ := hcontent
  have hsize := h.size
  cases cells with
  | nil =>
      have hone : ¬ 1 < q.size := by
        rw [hsize]
        simp
      simp only [csQueueDequeue, hhead, hfind, if_neg hone]
      refine ⟨elem.data, rest, _, rfl, rfl, ⟨rfl, rfl, ?_, hrest⟩, rfl, fun _ => rfl⟩
      simp [hsize]
  | cons b cells =>
      have hmore : 1 < q.size := by
        rw [hsize]
        simp only [List.length_cons]
        push_cast
        omega
      have hforward := h.forward.2
      have hbackward := h.backward
      rw [List.reverse_cons, List.reverse_cons, List.append_assoc] at hbackward
      have hprev : elem.prev = some b := by
        simpa [Elems.prev, hfind] using hforward.1
      obtain ⟨second, hsecond, -⟩ := h.mem (a := b) (by simp)
      have hnodup := (List.nodup_cons.1 h.forward.nodup).2
      simp only [csQueueDequeue, hhead, hfind, if_pos hmore, hprev]
      refine ⟨elem.data, rest, _, rfl, rfl, ⟨?_, ?_, ?_, ?_⟩, rfl, fun c => setNext_isSome⟩
      · refine ⟨rfl, ?_⟩
        rw [setNext_prev]
        exact hforward.2.congr fun c _ => setNext_prev
      · show Linked (Elems.setNext q.elems b none).next q.tail _
        rw [List.reverse_cons]
        apply hbackward.dropLast
        · intro c hc
          apply setNext_next_of_ne
          rintro rfl
          exact (List.nodup_cons.1 hnodup).1 (List.mem_reverse.1 hc)
        · exact setNext_next_self hsecond
      · simp only [List.length_cons] at hsize ⊢
        push_cast at hsize ⊢
        omega
      · rw [← hrest]
        exact List.map_congr_left fun c _ => setNext_data

/-- The sections of the linked queue are those of the queue as a list. -/
theorem enqueue_abs (q : Queue β) (xs : List β) (elem : Addr) (data : β) :
    ((csQueueEnqueue q elem data).1.abs (if q.status = .opened then xs ++ [data] else xs),
      (csQueueEnqueue q elem data).2) = ComplexSim.csQueueEnqueue (q.abs xs) data := by
  unfold csQueueEnqueue ComplexSim.csQueueEnqueue
  cases hstatus : q.status with
  | opened => cases htail : q.tail <;> simp [Queue.abs, hstatus]
  | closed => simp [Queue.abs, hstatus]

end Sections

end ComplexSim.QueueMemory
