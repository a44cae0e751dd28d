import Mathlib.Tactic
import Makaos.Lib.Transition

/-!
Futexes: `futex_wait` and `futex_wake` of `futex.c`, on any number of threads.

A waiter record lives in the stack frame of its call of `futex_wait`; the list of a bucket is
protected by the lock of the bucket. The steps are the lock operations, the accesses to the list, to
the user word and to the fields of a record. `sched_sleep` and `sched_wake` are one step each, with
`wake_pending` between them.

* `Waiter`, `Call`: a call of `futex_wait` with its record, and a call of `futex_wake`.
* `futexStep`: all steps.
-/

namespace Makaos.Futex

open Function
/-- What `futex_wait` returns. -/
inductive Ret where
  | ok
  | einval
  | efault
  | eagain
  | eintr
  | etimedout
  deriving DecidableEq

/-- The record of a call of `futex_wait`, without the fields that change. -/
structure Waiter (ι : Type*) where
  /-- Tells calls apart, for the specification only. -/
  id : ℕ
  task : ι
  mm : BitVec 64
  uaddr : BitVec 64
  val : BitVec 32
  /-- `timeout_ns` is not 0. -/
  timed : Bool
  deriving DecidableEq

/-- A call of `futex_wake`. -/
structure Call (ι : Type*) where
  /-- Tells calls apart, for the specification only. -/
  id : ℕ
  task : ι
  mm : BitVec 64
  uaddr : BitVec 64
  nwake : ℕ
  deriving DecidableEq

/-- `bucket_of`. -/
def bucketOf (mm uaddr : BitVec 64) : BitVec 64 :=
  let h := (mm >>> 4) ^^^ (uaddr >>> 2)
  let h := h ^^^ (h >>> 16)
  let h := h ^^^ (h >>> 8)
  h &&& 255

variable {ι : Type*}

def Waiter.bucket (w : Waiter ι) : BitVec 64 := bucketOf w.mm w.uaddr

def Call.bucket (k : Call ι) : BitVec 64 := bucketOf k.mm k.uaddr

/-- `w->mm == mm && w->uaddr == uaddr`. -/
def Call.Matches (k : Call ι) (w : Waiter ι) : Prop := w.mm = k.mm ∧ w.uaddr = k.uaddr

instance (k : Call ι) (w : Waiter ι) : Decidable (k.Matches w) :=
  inferInstanceAs (Decidable (_ ∧ _))

/-- Where a thread is in `futex_wait`. -/
inductive WaitPc where
  | prefault
  | lock
  /-- Has the lock: `w.next = b->head; b->head = &w`. -/
  | push
  /-- Has the lock: reads the user word again. -/
  | check
  /-- Has the lock: `b->head = w.next`. -/
  | undo
  | unlock
  /-- Loads `w.woken`. -/
  | loop
  | signal
  | deadline
  | sleep
  | asleep
  | errLock (rc : Ret)
  /-- Has the lock: looks at `w.woken` again. -/
  | errCheck (rc : Ret)
  /-- Has the lock: takes itself off the list. -/
  | errUnlink (rc : Ret)
  /-- Has the lock: releases it and returns. -/
  | leave (rc : Ret)
  /-- A zombie: `do_switch` has found a signal whose default action ends the thread. -/
  | killed
  deriving DecidableEq

/-- The lock of the bucket is held. -/
def WaitPc.holds : WaitPc → Bool
  | .push | .check | .undo | .unlock | .errCheck _ | .errUnlink _ | .leave _ => true
  | _ => false

/-- Where a thread is in `futex_wake`; from `top` on it has the lock. `pos` is the number of records
passed over, `count` the number woken. -/
inductive WakePc (ι : Type*) where
  | lock
  | top (pos count : ℕ)
  /-- Compares the key of `w`. -/
  | look (pos count : ℕ) (w : Waiter ι)
  /-- `*pp = w->next`. -/
  | unlink (pos count : ℕ) (w : Waiter ι)
  /-- `w->woken = 1`. -/
  | mark (pos count : ℕ) (w : Waiter ι)
  /-- Reads `w->task`. -/
  | task (pos count : ℕ) (w : Waiter ι)
  /-- `sched_wake(t)`. -/
  | wake (pos count : ℕ) (t : ι)
  | unlock (count : ℕ)
  deriving DecidableEq

/-- Where a thread is. -/
inductive Pc (ι : Type*) where
  | idle
  | wait (w : Waiter ι) (p : WaitPc)
  | wake (k : Call ι) (p : WakePc ι)
  deriving DecidableEq

/-- The futexes. `lock` and `queue` are the buckets, `woken` the flag of each record, `word` the user
words. For the specification only: what the calls have returned (`result`, `returned`), whom each
call of `futex_wake` has woken (`woke`), the list it found (`found`), and whether a call of
`futex_wake` ever touched the record of a call that had returned (`late`). -/
structure Sys (ι : Type*) where
  mm : ι → BitVec 64
  word : BitVec 64 → BitVec 64 → BitVec 32
  lock : BitVec 64 → Option ι
  queue : BitVec 64 → List (Waiter ι)
  woken : ℕ → Bool
  pc : ι → Pc ι
  wakePending : ι → Bool
  next : ℕ
  result : ℕ → Option Ret
  woke : ℕ → List (Waiter ι)
  found : ℕ → List (Waiter ι)
  returned : List (Call ι × ℕ)
  late : Bool

/-- A step. -/
inductive Act (ι : Type*) where
  | wait (i : ι) (uaddr : BitVec 64) (val : BitVec 32) (timed : Bool)
  | wake (i : ι) (uaddr : BitVec 64) (nwake : ℕ)
  /-- The next step of a call. `yes` says whether the copy fails, a signal is there or the deadline
  is over; `junk` is what `w->task` reads as when the record is gone. -/
  | run (i : ι) (yes : Bool) (junk : ι)
  /-- Somebody else calls `sched_wake`. -/
  | nudge (t : ι)
  /-- A thread that is switched to again, in its sleep or where it was preempted, is ended there by
  `signal_deliver_pending`. -/
  | kill (i : ι)
  /-- A thread writes to a user word. -/
  | store (mm uaddr : BitVec 64) (v : BitVec 32)
  deriving DecidableEq

variable [DecidableEq ι]

namespace Sys

def setPc (s : Sys ι) (i : ι) (p : Pc ι) : Sys ι :=
  { s with pc := update s.pc i p }

def setLock (s : Sys ι) (b : BitVec 64) (x : Option ι) : Sys ι :=
  { s with lock := update s.lock b x }

def setQueue (s : Sys ι) (b : BitVec 64) (l : List (Waiter ι)) : Sys ι :=
  { s with queue := update s.queue b l }

/-- A call of `futex_wait` returns. -/
def retWait (s : Sys ι) (i : ι) (w : Waiter ι) (rc : Ret) : Sys ι :=
  { s with result := update s.result w.id (some rc) }.setPc i .idle

/-- A call of `futex_wake` returns. -/
def retWake (s : Sys ι) (i : ι) (k : Call ι) (count : ℕ) : Sys ι :=
  { s with returned := (k, count) :: s.returned }.setPc i .idle

/-- A call of `futex_wake` reads or writes a record. -/
def touch (s : Sys ι) (w : Waiter ι) : Sys ι :=
  { s with late := s.late || (s.result w.id).isSome }

/-- A call of `futex_wake` reads or writes `*pp`: the head, or the link of the record it passed over
last. -/
def touchLink (s : Sys ι) (b : BitVec 64) : ℕ → Sys ι
  | 0 => s
  | pos + 1 => match (s.queue b)[pos]? with
    | some w => s.touch w
    | none => s

/-- `sched_wake`. -/
def schedWake (s : Sys ι) (t : ι) : Sys ι :=
  match s.pc t with
  | .wait w .asleep => s.setPc t (.wait w .loop)
  | _ => { s with wakePending := update s.wakePending t true }

end Sys

/-- A step of `futex_wait`. -/
@[grind =]
def waitRun (s : Sys ι) (i : ι) (w : Waiter ι) (yes : Bool) : WaitPc → Option (Sys ι)
  | .prefault =>
    if w.uaddr = 0 ∨ w.uaddr &&& 3 ≠ 0 then some (s.retWait i w .einval)
    else if yes then some (s.retWait i w .efault)
    else some (s.setPc i (.wait w .lock))
  | .lock =>
    if s.lock w.bucket = none then some ((s.setLock w.bucket (some i)).setPc i (.wait w .push))
    else none
  | .push => some ((s.setQueue w.bucket (w :: s.queue w.bucket)).setPc i (.wait w .check))
  | .check =>
    if s.word w.mm w.uaddr ≠ w.val then some (s.setPc i (.wait w .undo))
    else some (s.setPc i (.wait w .unlock))
  | .undo => some ((s.setQueue w.bucket (s.queue w.bucket).tail).setPc i (.wait w (.leave .eagain)))
  | .unlock => some ((s.setLock w.bucket none).setPc i (.wait w .loop))
  | .loop =>
    if s.woken w.id then some (s.retWait i w .ok) else some (s.setPc i (.wait w .signal))
  | .signal => some (s.setPc i (.wait w (if yes then .errLock .eintr else .deadline)))
  | .deadline => some (s.setPc i (.wait w (if w.timed && yes then .errLock .etimedout else .sleep)))
  | .sleep =>
    -- `sched_sleep`: a wake-up that came before is not lost
    if s.wakePending i then
      some ({ s with wakePending := update s.wakePending i false }.setPc i (.wait w .loop))
    else some (s.setPc i (.wait w .asleep))
  | .asleep => none
  | .errLock rc =>
    if s.lock w.bucket = none then
      some ((s.setLock w.bucket (some i)).setPc i (.wait w (.errCheck rc)))
    else none
  | .errCheck rc => some (s.setPc i (.wait w (if s.woken w.id then .leave .ok else .errUnlink rc)))
  | .errUnlink rc =>
    some ((s.setQueue w.bucket ((s.queue w.bucket).erase w)).setPc i (.wait w (.leave rc)))
  | .leave rc => some ((s.setLock w.bucket none).retWait i w rc)
  | .killed => none

/-- A step of `futex_wake`. -/
@[grind =]
def wakeRun (s : Sys ι) (i : ι) (k : Call ι) (junk : ι) : WakePc ι → Option (Sys ι)
  | .lock =>
    if s.lock k.bucket = none then
      some ({ s with found := update s.found k.id (s.queue k.bucket) }
        |>.setLock k.bucket (some i) |>.setPc i (.wake k (.top 0 0)))
    else none
  | .top pos count =>
    some ((s.touchLink k.bucket pos).setPc i (.wake k (
      match (s.queue k.bucket)[pos]? with
      | none => .unlock count
      | some w => if count < k.nwake then .look pos count w else .unlock count)))
  | .look pos count w =>
    some ((s.touch w).setPc i
      (.wake k (if k.Matches w then .unlink pos count w else .top (pos + 1) count)))
  | .unlink pos count w =>
    some ((((s.touchLink k.bucket pos).touch w).setQueue k.bucket
      ((s.queue k.bucket).eraseIdx pos)).setPc i
      (.wake k (.mark pos count w)))
  | .mark pos count w =>
    some ({ s.touch w with
      woken := update s.woken w.id true
      woke := update s.woke k.id (w :: s.woke k.id) }.setPc i
      (.wake k (.task pos count w)))
  | .task pos count w =>
    some ((s.touch w).setPc i
      (.wake k (.wake pos count (if (s.result w.id).isSome then junk else w.task))))
  | .wake pos count t => some ((s.schedWake t).setPc i (.wake k (.top pos (count + 1))))
  | .unlock count => some ((s.setLock k.bucket none).retWake i k count)

/-- **All steps.** -/
@[grind =]
def futexStep (s : Sys ι) : Act ι → Option (Sys ι)
  | .wait i uaddr val timed =>
    if s.pc i = .idle then
      let w : Waiter ι := { id := s.next, task := i, mm := s.mm i, uaddr, val, timed }
      some ({ s with next := s.next + 1 }.setPc i (.wait w .prefault))
    else none
  | .wake i uaddr nwake =>
    if s.pc i = .idle then
      let k : Call ι := { id := s.next, task := i, mm := s.mm i, uaddr, nwake }
      -- `-EINVAL` is not a count
      if uaddr = 0 then some s
      else if nwake = 0 then some ({ s with next := s.next + 1 }.retWake i k 0)
      else some ({ s with next := s.next + 1 }.setPc i (.wake k .lock))
    else none
  | .run i yes junk =>
    match s.pc i with
    | .idle => none
    | .wait w p => waitRun s i w yes p
    | .wake k p => wakeRun s i k junk p
  | .nudge t => some (s.schedWake t)
  | .kill i =>
    match s.pc i with
    | .wait w p => if p.holds then none else some (s.setPc i (.wait w .killed))
    | _ => none
  | .store mm uaddr v =>
    some { s with word := update s.word mm (update (s.word mm) uaddr v) }

/-- No calls yet. -/
def boot (mm : ι → BitVec 64) (word : BitVec 64 → BitVec 64 → BitVec 32) : Sys ι where
  mm := mm
  word := word
  lock _ := none
  queue _ := []
  woken _ := false
  pc _ := .idle
  wakePending _ := false
  next := 0
  result _ := none
  woke _ := []
  found _ := []
  returned := []
  late := false

end Makaos.Futex
