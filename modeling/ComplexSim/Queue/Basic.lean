import Mathlib.Data.List.Basic

/-!
# The queue (`src/cs_queue.c`)

The functions that change the queue are split where they give up control: the wait
on a semaphore is a step of its own (in the module of the caller), and the section
between `_CS_QUEUE_LOCK` and `_CS_QUEUE_UNLOCK` is one function here. The chain of
elements is the list `elems` of their data, from `head`, the oldest, to `tail`;
allocation and the calls on mutexes and semaphores succeed.
-/

namespace ComplexSim

/-- `cs_queue_status`, as far as `status` takes its values. -/
inductive QueueStatus where
  | opened
  | closed
  deriving DecidableEq, Repr

/-- `cs_queue`. -/
structure CsQueue (β : Type*) where
  size : Int
  status : QueueStatus
  elems : List β
  qsem : Nat
  qlimitSem : Nat

variable {β : Type*}

/-- `cs_queue_init`. -/
def csQueueInit (size : Nat) : CsQueue β where
  size := 0
  status := .opened
  elems := []
  qsem := 0
  qlimitSem := size

/-- `cs_queue_close`. -/
def csQueueClose (q : CsQueue β) : CsQueue β :=
  { q with status := .closed, qsem := q.qsem + 1 }

/-- The locked section of `cs_queue_enqueue`, with the value the call returns. On a
closed queue it does nothing, and returns 0 as well. -/
def csQueueEnqueue (q : CsQueue β) (data : β) : CsQueue β × Int :=
  match q.status with
  | .opened => ({ q with elems := q.elems ++ [data], size := q.size + 1, qsem := q.qsem + 1 }, 0)
  | .closed => (q, 0)

/-- How the locked section of `cs_queue_dequeue` ends. -/
inductive Dequeue (β : Type*) where
  /-- empty and closed: return NULL -/
  | null
  /-- `assert(q->head != NULL)` fails -/
  | noHead
  /-- `assert(q->size == assctl || q->status == QCLOSED)` fails -/
  | badSize
  /-- return the data of the head -/
  | elem (data : β) (q : CsQueue β)

/-- The locked section of `cs_queue_dequeue`. Whether other elements remain is read off
`size`, not off the chain. -/
def csQueueDequeue (q : CsQueue β) : Dequeue β :=
  match q.elems with
  | [] => if q.status = .closed then .null else .noHead
  | data :: rest =>
      let elems := if q.size > 1 then rest else []
      let size := q.size - 1
      if size = q.qsem ∨ q.status = .closed then
        .elem data { q with elems := elems, size := size, qlimitSem := q.qlimitSem + 1 }
      else .badSize

end ComplexSim
