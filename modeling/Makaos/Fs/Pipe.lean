import Makaos.Lib.RingWindow
import Makaos.Lib.Transition

/-!
The pipe of `pipe.c`: `pipe_read`, `pipe_write` and the two close functions, one access to the shared
fields at a time.

`pipe_read` and `pipe_write` are one loop: wait while the other side has to move first, move a byte,
and wake the other side at the end. The loop is written once, for a side of the pipe, with what differs
between the sides written out where it differs. The memory of a pipe that is closed on both sides is
not modelled.

* `pipeStep`: the steps. A wake-up and `sched_sleep` are one step each.
* `Undisturbed`: the condition under which the results of `PipeRun` hold.
-/

namespace Makaos.Pipe

open Function
open RingWindow

/-- `PIPE_BUF_SIZE`. -/
def pipeBufSize : ℕ := 4096

/-- The two sides of a pipe. -/
inductive Side where
  | reader
  | writer
  deriving DecidableEq

/-- The side across. -/
def Side.other : Side → Side
  | reader => writer
  | writer => reader

@[simp] lemma Side.other_other (σ : Side) : σ.other.other = σ := by cases σ <;> rfl

@[simp] lemma Side.other_ne (σ : Side) : σ.other ≠ σ := by cases σ <;> decide

/-- The side cannot move: nothing to read, or no room to write. -/
def Side.Blocked : Side → ℕ → Prop
  | reader, count => count = 0
  | writer, count => count = pipeBufSize

instance (σ : Side) (count : ℕ) : Decidable (σ.Blocked count) := by
  cases σ <;> exact inferInstanceAs (Decidable (_ = _))

/-- `p->count--` and `p->count++` on a `uint32_t`. -/
def Side.recount : Side → ℕ → ℕ
  | reader, count => (count + (2 ^ 32 - 1)) % 2 ^ 32
  | writer, count => (count + 1) % 2 ^ 32

/-! ### The state -/

/-- Where a thread is in `WAIT_EVENT_HOOK`. -/
inductive WaitPc where
  /-- Loads `count` for the condition of the loop. -/
  | cond
  /-- Loads the other side's reference count for it. -/
  | condRefs
  /-- `task_we_add`. -/
  | add
  | recheck
  | recheckRefs
  /-- `sched_sleep`. -/
  | sleep
  | asleep
  /-- `task_we_remove`. -/
  | remove
  /-- The look at the signals. -/
  | hook
  deriving DecidableEq

/-- Where a thread is in `pipe_read` or `pipe_write`. -/
inductive Stage where
  /-- The look at `reader_refs` with which `pipe_write` starts. -/
  | start
  /-- The head of the loop; loads `count`. -/
  | top
  /-- Blocked: loads the other side's reference count. -/
  | refs
  | wait (w : WaitPc)
  /-- Loads `head`, or `tail`, for the byte. -/
  | loadIndex
  | byte (x : ℕ)
  /-- Loads `head`, or `tail`, again, to move it on. -/
  | reloadIndex
  | storeIndex (x : ℕ)
  | loadCount
  | storeCount (x : ℕ)
  /-- `wait_queue_wake_all` of the other side. -/
  | wake
  deriving DecidableEq

/-- What a thread is doing. -/
inductive Pc where
  | idle
  /-- In a call that is to move `len` bytes and has moved `moved`; a writer takes them from `src`. -/
  | call (σ : Side) (len : ℕ) (src moved : List UInt8) (st : Stage)
  /-- In the close function of a side, its reference dropped. -/
  | closing (σ : Side)
  deriving DecidableEq

/-- `pipe_buf_t`, the two wait queues and the threads. `log` and `past` are for the specification:
the bytes that went out of the buffer (side `reader`) and into it (side `writer`), with the thread that
moved them, and the bytes of each thread's calls that have returned. -/
structure Sys (ι : Type*) where
  buf : ℕ → UInt8
  head : ℕ
  tail : ℕ
  count : ℕ
  readerRefs : ℕ
  writerRefs : ℕ
  queue : Side → Finset ι
  wakePending : ι → Bool
  pc : ι → Pc
  log : Side → List (ι × UInt8)
  past : Side → ι → List UInt8

variable {ι : Type*} [DecidableEq ι]

namespace Sys

/-- The references to a side. -/
def refs (s : Sys ι) : Side → ℕ
  | .reader => s.readerRefs
  | .writer => s.writerRefs

/-- The index a side moves: `head` or `tail`. -/
def index (s : Sys ι) : Side → ℕ
  | .reader => s.head
  | .writer => s.tail

def setIndex (s : Sys ι) (x : ℕ) : Side → Sys ι
  | .reader => { s with head := x }
  | .writer => { s with tail := x }

/-- `if (refs > 0) refs--`. -/
def dropRef (s : Sys ι) : Side → Sys ι
  | .reader => { s with readerRefs := s.readerRefs - 1 }
  | .writer => { s with writerRefs := s.writerRefs - 1 }

/-- A thread moves on. -/
def goto (s : Sys ι) (t : ι) (pc : Pc) : Sys ι := { s with pc := update s.pc t pc }

/-- A call returns. -/
def ret (s : Sys ι) (t : ι) (σ : Side) (moved : List UInt8) : Sys ι :=
  { s.goto t .idle with
    past := update s.past σ (update (s.past σ) t (s.past σ t ++ moved)) }

end Sys

/-- A thread asleep goes on behind `sched_sleep`. -/
def Pc.rouse : Pc → Pc
  | .call σ len src moved (.wait .asleep) => .call σ len src moved (.wait .remove)
  | pc => pc

/-- The thread sleeps. -/
def Pc.Asleep (σ : Side) : Pc → Prop
  | .call σ' _ _ _ (.wait .asleep) => σ' = σ
  | _ => False

/-- `sched_wake`: a thread that sleeps goes on, for any other the wake-up is noted. -/
def schedWake (s : Sys ι) (t : ι) : Sys ι :=
  if (s.pc t).rouse = s.pc t then { s with wakePending := update s.wakePending t true }
  else { s with pc := update s.pc t (s.pc t).rouse }

/-- `wait_queue_wake_all`: every thread in the queue is woken, and the queue is empty. -/
def wakeAll (s : Sys ι) (σ : Side) : Sys ι :=
  { s with
    queue := update s.queue σ ∅
    wakePending := fun u =>
      s.wakePending u || (decide (u ∈ s.queue σ) && decide ((s.pc u).rouse = s.pc u))
    pc := fun u => if u ∈ s.queue σ then (s.pc u).rouse else s.pc u }

/-! ### The steps -/

/-- `WAIT_EVENT_HOOK`, for a call of side `σ`. -/
def waitStep (s : Sys ι) (t : ι) (σ : Side) (len : ℕ) (src moved : List UInt8) :
    WaitPc → Option (Sys ι)
  | .cond =>
    if σ.Blocked s.count then some (s.goto t (.call σ len src moved (.wait .condRefs)))
    else some (s.goto t (.call σ len src moved .top))
  | .condRefs =>
    if s.refs σ.other = 0 then some (s.goto t (.call σ len src moved .top))
    else some (s.goto t (.call σ len src moved (.wait .add)))
  | .add =>
    some { s.goto t (.call σ len src moved (.wait .recheck)) with
      queue := update s.queue σ (insert t (s.queue σ)) }
  | .recheck =>
    if σ.Blocked s.count then some (s.goto t (.call σ len src moved (.wait .recheckRefs)))
    else some (s.goto t (.call σ len src moved (.wait .remove)))
  | .recheckRefs =>
    if s.refs σ.other = 0 then some (s.goto t (.call σ len src moved (.wait .remove)))
    else some (s.goto t (.call σ len src moved (.wait .sleep)))
  | .sleep =>
    if s.wakePending t then
      some { s.goto t (.call σ len src moved (.wait .remove)) with
        wakePending := update s.wakePending t false }
    else some (s.goto t (.call σ len src moved (.wait .asleep)))
  | .asleep => none
  | .remove =>
    some { s.goto t (.call σ len src moved (.wait .hook)) with
      queue := update s.queue σ ((s.queue σ).erase t) }
  | .hook => some (s.goto t (.call σ len src moved (.wait .cond)))

/-- The byte itself: `dst[total++] = p->buf[x]`, or `p->buf[x] = src[total++]`. -/
def byteStep (s : Sys ι) (t : ι) (len : ℕ) (src moved : List UInt8) (x : ℕ) : Side → Sys ι
  | .reader =>
    { s.goto t (.call .reader len src (moved ++ [s.buf x]) .reloadIndex) with
      log := update s.log .reader (s.log .reader ++ [(t, s.buf x)]) }
  | .writer =>
    { s.goto t (.call .writer len src (moved ++ [src.getD moved.length 0]) .reloadIndex) with
      buf := update s.buf x (src.getD moved.length 0)
      log := update s.log .writer (s.log .writer ++ [(t, src.getD moved.length 0)]) }

/-- `pipe_read` and `pipe_write`. -/
def callStep (s : Sys ι) (t : ι) (σ : Side) (len : ℕ) (src moved : List UInt8) :
    Stage → Option (Sys ι)
  | .start =>
    -- `SIGPIPE` and `-EPIPE`
    if s.refs σ.other = 0 then some (s.ret t σ moved)
    else some (s.goto t (.call σ len src moved .top))
  | .top =>
    if moved.length < len then
      if σ.Blocked s.count then some (s.goto t (.call σ len src moved .refs))
      else some (s.goto t (.call σ len src moved .loadIndex))
    else some (s.goto t (.call σ len src moved .wake))
  | .refs =>
    if s.refs σ.other = 0 then
      match σ with
      | .reader => some (s.goto t (.call σ len src moved .wake))
      | .writer => some (s.ret t σ moved)
    else some (s.goto t (.call σ len src moved (.wait .cond)))
  | .wait w => waitStep s t σ len src moved w
  | .loadIndex => some (s.goto t (.call σ len src moved (.byte (s.index σ))))
  | .byte x => some (byteStep s t len src moved x σ)
  | .reloadIndex => some (s.goto t (.call σ len src moved (.storeIndex (s.index σ))))
  | .storeIndex x =>
    some ((s.goto t (.call σ len src moved .loadCount)).setIndex ((x + 1) % pipeBufSize) σ)
  | .loadCount => some (s.goto t (.call σ len src moved (.storeCount s.count)))
  | .storeCount x => some { s.goto t (.call σ len src moved .top) with count := σ.recount x }
  | .wake => some ((wakeAll s σ.other).ret t σ moved)

/-- What can happen next. -/
inductive Act (ι : Type*) where
  /-- Thread `t` calls `pipe_read`. -/
  | read (t : ι) (len : ℕ)
  /-- Thread `t` calls `pipe_write`. -/
  | write (t : ι) (src : List UInt8)
  /-- Thread `t` calls `pipe_read_close` or `pipe_write_close`. -/
  | close (t : ι) (σ : Side)
  /-- The next step of the call thread `t` is in. -/
  | run (t : ι)
  /-- Thread `t` finds a signal after its sleep, and its call returns. -/
  | signal (t : ι)
  /-- Somebody else wakes thread `t`. -/
  | wake (t : ι)

/-- One step. -/
def pipeStep (s : Sys ι) : Act ι → Option (Sys ι)
  | .read t len =>
    match s.pc t with
    | .idle => some (s.goto t (.call .reader len [] [] .top))
    | _ => none
  | .write t src =>
    match s.pc t with
    | .idle => some (s.goto t (.call .writer src.length src [] .start))
    | _ => none
  | .close t σ =>
    match s.pc t with
    | .idle => some ((s.goto t (.closing σ)).dropRef σ)
    | _ => none
  | .run t =>
    match s.pc t with
    | .call σ len src moved st => callStep s t σ len src moved st
    | .closing σ =>
      if s.refs σ = 0 then some ((wakeAll s σ.other).goto t .idle) else some (s.goto t .idle)
    | .idle => none
  | .signal t =>
    match s.pc t with
    | .call σ _ _ moved (.wait .hook) => some (s.ret t σ moved)
    | _ => none
  | .wake t => some (schedWake s t)

/-- `pipe_create`. -/
def create : Sys ι where
  buf _ := 0
  head := 0
  tail := 0
  count := 0
  readerRefs := 1
  writerRefs := 1
  queue _ := ∅
  wakePending _ := false
  pc _ := .idle
  log _ := []
  past _ _ := []

/-! ### Calls that do not disturb each other -/

/-- Between the look at `count` that lets a byte be moved and the new `count`. -/
def Stage.Moving : Stage → Prop
  | .loadIndex => True
  | .byte _ => True
  | .reloadIndex => True
  | .storeIndex _ => True
  | .loadCount => True
  | .storeCount _ => True
  | _ => False

/-- The thread is moving a byte. -/
def Pc.Moving : Pc → Prop
  | .call _ _ _ _ st => st.Moving
  | _ => False

/-- A call looks at `count` for its next byte only while no other call is moving one; and a call goes
to sleep only before it has moved a byte. -/
def Pc.MayRun (s : Sys ι) : Pc → Prop
  | .call _ len _ moved .top => moved.length < len → ∀ u, ¬ (s.pc u).Moving
  | .call σ _ _ moved .refs => moved = [] ∨ σ = .reader ∧ s.writerRefs = 0
  | _ => True

/-- The steps of calls that do not disturb each other. -/
def Undisturbed (s : Sys ι) : Act ι → Prop
  | .run t => (s.pc t).MayRun s
  | _ => True

instance : DecidablePred Pc.Moving
  | .call _ _ _ _ st =>
    match st with
    | .loadIndex | .byte _ | .reloadIndex | .storeIndex _ | .loadCount | .storeCount _ => isTrue trivial
    | .start | .top | .refs | .wait _ | .wake => isFalse id
  | .idle | .closing _ => isFalse id

instance [Fintype ι] (s : Sys ι) : DecidablePred (Pc.MayRun s)
  | .call σ len _ moved st =>
    match st with
    | .top => inferInstanceAs (Decidable (moved.length < len → ∀ u, ¬ (s.pc u).Moving))
    | .refs => inferInstanceAs (Decidable (moved = [] ∨ σ = .reader ∧ s.writerRefs = 0))
    | .start | .wait _ | .loadIndex | .byte _ | .reloadIndex | .storeIndex _ | .loadCount
    | .storeCount _ | .wake => isTrue trivial
  | .idle | .closing _ => isTrue trivial

instance [Fintype ι] (s : Sys ι) : DecidablePred (Undisturbed s)
  | .run t => inferInstanceAs (Decidable ((s.pc t).MayRun s))
  | .read _ _ | .write _ _ | .close _ _ | .signal _ | .wake _ => isTrue trivial

end Makaos.Pipe
