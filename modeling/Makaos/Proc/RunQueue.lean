import Mathlib.Data.Fintype.Card
import Mathlib.Algebra.BigOperators.Group.Finset.Basic
import Makaos.Proc.Chaselev

/-!
The run queues of `sched.c`: a deque for each processor and level, and the counter `nr_running` of
each processor, at the granularity of single memory accesses.

A context that runs scheduler code is an agent. With the lock of a processor it may call
`enqueue_on` (as `sched_add`, `sched_wake`, `do_switch` and `sched_tick` do), `dequeue_local` and the
boost of `sched_tick`, any number of times. An idle processor calls `sched_try_steal` without a lock.
A deque that is full is a panic: the agent does not go on.

* `Pc`: where an agent is.
* `rqStep`: all steps.
* `Conserved`: **a task that is enqueued is in one place**, and `nr_running` is right when nothing is
  under way.
* `Alone`: one agent at a time uses a deque as its owner.
-/

namespace Makaos.RunQueue

open Function
open Chaselev

/-- `MLFQ_LEVELS`. -/
def levels : ℕ := 4

/-- `STEAL_ATTEMPTS`. -/
def stealAttempts : ℕ := 4

/-- `STEAL_BATCH`. -/
def stealBatch : ℕ := 16

/-- `STEAL_MIN_TASKS`. -/
def stealMinTasks : ℕ := 2

/-- Who called `chaselev_push` or `chaselev_pop`. -/
inductive Caller (κ : Type*) where
  | enqueue
  | dequeue
  | boostPop
  /-- The boost pushes a task it has found in level `lvl`. -/
  | boostPush (lvl : Fin levels)
  /-- `sched_try_steal` pushes a task it has taken from `victim`. -/
  | stolen (victim : κ) (tries left : ℕ)
  deriving DecidableEq

/-- Where `sched_try_steal` is while it looks for a victim and a level. -/
inductive Scan where
  | loadNr
  | sizeBottom (lvl : Fin levels)
  | sizeTop (lvl : Fin levels) (b : BitVec 64)
  | takeBottom (lvl : Fin levels)
  | takeTop (lvl : Fin levels) (b : BitVec 64)
  deriving DecidableEq

/-- Where an agent is. -/
inductive Pc (κ τ : Type*) where
  | idle
  /-- Has the lock of `c`, between two calls. -/
  | held (c : κ)
  /-- In `chaselev_push` or `chaselev_pop`. -/
  | owner (c : κ) (lvl : Fin levels) (p : OwnerPc τ) (k : Caller κ)
  /-- `enqueue_on` has pushed, `nr_running` is next. -/
  | enqueueAdd (c : κ)
  /-- `dequeue_local` has popped, `nr_running` is next. -/
  | dequeueSub (c : κ)
  | boostAdd (c : κ) (lvl : Fin levels)
  | boostSub (c : κ) (lvl : Fin levels)
  /-- `sched_try_steal` between two attempts. -/
  | again (self : κ) (tries : ℕ)
  | scan (self victim : κ) (tries : ℕ) (st : Scan)
  /-- In `chaselev_steal`, with `left` more to take. -/
  | thief (self victim : κ) (lvl : Fin levels) (p : ThiefPc τ) (tries left : ℕ) (took : Bool)
  | stealSub (self victim : κ) (lvl : Fin levels) (t : τ) (tries left : ℕ)
  | stealAdd (self victim : κ) (lvl : Fin levels) (tries left : ℕ)
  deriving DecidableEq

/-- The run queues. For the specification only: `live`, the tasks given to `enqueue_on` and not yet
returned by `dequeue_local`. -/
structure Sys (κ ι τ : Type*) where
  deque : κ × Fin levels → Deque τ
  nrRunning : κ → BitVec 32
  lock : κ → Option ι
  pc : ι → Pc κ τ
  live : τ → Bool

/-- A step. -/
inductive Act (κ ι τ : Type*) where
  | lock (i : ι) (c : κ)
  | unlock (i : ι)
  | enqueue (i : ι) (t : τ) (lvl : Fin levels)
  | dequeue (i : ι)
  | boost (i : ι)
  | trySteal (i : ι) (self : κ)
  /-- The next attempt of `sched_try_steal`, with the victim it draws. -/
  | attempt (i : ι) (victim : κ)
  | run (i : ι)
  deriving DecidableEq

variable {κ ι τ : Type*} [DecidableEq κ] [DecidableEq ι] [DecidableEq τ]

namespace Sys

def setPc (s : Sys κ ι τ) (i : ι) (p : Pc κ τ) : Sys κ ι τ :=
  { s with pc := update s.pc i p }

def setDeque (s : Sys κ ι τ) (d : κ × Fin levels) (q : Deque τ) : Sys κ ι τ :=
  { s with deque := update s.deque d q }

/-- `__atomic_fetch_add` on `nr_running`. -/
def addNr (s : Sys κ ι τ) (c : κ) : Sys κ ι τ :=
  { s with nrRunning := update s.nrRunning c (s.nrRunning c + 1) }

/-- `__atomic_fetch_sub` on `nr_running`. -/
def subNr (s : Sys κ ι τ) (c : κ) : Sys κ ι τ :=
  { s with nrRunning := update s.nrRunning c (s.nrRunning c - 1) }

def setLive (s : Sys κ ι τ) (t : τ) (b : Bool) : Sys κ ι τ :=
  { s with live := update s.live t b }

end Sys

/-- The level after `lvl`, if there is one. -/
def nextLevel (lvl : Fin levels) : Option (Fin levels) :=
  if h : lvl.val + 1 < levels then some ⟨lvl.val + 1, h⟩ else none

/-- Level 0. -/
def topLevel : Fin levels := ⟨0, by decide +kernel⟩

/-- What a call of `chaselev_push` or `chaselev_pop` gives to its caller. -/
def ownerReturns (s : Sys κ ι τ) (i : ι) (c : κ) (lvl : Fin levels) :
    Caller κ → OwnerRet τ → Option (Sys κ ι τ)
  | .enqueue, .pushed _ => some (s.setPc i (.enqueueAdd c))
  | .dequeue, .popped (some t) => some ((s.setLive t false).setPc i (.dequeueSub c))
  | .dequeue, .popped none =>
    match nextLevel lvl with
    | some lvl' => some (s.setPc i (.owner c lvl' .popLoadBottom .dequeue))
    | none => some (s.setPc i (.held c))
  | .boostPop, .popped (some t) =>
    some (s.setPc i (.owner c topLevel (.pushLoadBottom t) (.boostPush lvl)))
  | .boostPop, .popped none =>
    match nextLevel lvl with
    | some lvl' => some (s.setPc i (.owner c lvl' .popLoadBottom .boostPop))
    | none => some (s.setPc i (.held c))
  | .boostPush from', .pushed _ => some (s.setPc i (.boostAdd c from'))
  | .stolen victim tries left, .pushed _ => some (s.setPc i (.stealAdd c victim lvl tries left))
  -- the deque is full: the processor halts
  | _, _ => none

/-- `sched_try_steal` is done with a level and has taken nothing. -/
def afterLevel (self victim : κ) (lvl : Fin levels) (tries : ℕ) : Pc κ τ :=
  match nextLevel lvl with
  | some lvl' => .scan self victim tries (.sizeBottom lvl')
  | none => .again self (tries + 1)

/-- The head of the loop of `sched_try_steal` over the tasks of a level; `left` are still to take. -/
def takeLoop (self victim : κ) (lvl : Fin levels) (tries : ℕ) (took : Bool) : ℕ → Pc κ τ
  | 0 => if took then .idle else afterLevel self victim lvl tries
  | left + 1 => .thief self victim lvl .loadTop tries left took

/-- `chaselev_size_approx` from what it has loaded. -/
def sizeApprox (b t : BitVec 64) : ℕ := if 0 < (b - t).toInt then (b - t).toNat % 2 ^ 32 else 0

/-- How many tasks `sched_try_steal` takes from a level. -/
def takeOf (size : ℕ) : ℕ :=
  let take := if size / 2 = 0 then 1 else size / 2
  if take > stealBatch then stealBatch else take

/-- A memory access of `sched_try_steal` while it looks for a victim and a level. -/
def scanRun (s : Sys κ ι τ) (self victim : κ) (tries : ℕ) : Scan → Pc κ τ
  | .loadNr =>
    if (s.nrRunning victim).toNat < stealMinTasks then .again self (tries + 1)
    else .scan self victim tries (.sizeBottom topLevel)
  | .sizeBottom lvl => .scan self victim tries (.sizeTop lvl (s.deque (victim, lvl)).bottom)
  | .sizeTop lvl b =>
    if sizeApprox b (s.deque (victim, lvl)).top = 0 then afterLevel self victim lvl tries
    else .scan self victim tries (.takeBottom lvl)
  | .takeBottom lvl => .scan self victim tries (.takeTop lvl (s.deque (victim, lvl)).bottom)
  | .takeTop lvl b =>
    takeLoop self victim lvl tries false (takeOf (sizeApprox b (s.deque (victim, lvl)).top))

/-- What `chaselev_steal` gives to `sched_try_steal`. -/
def thiefReturns (s : Sys κ ι τ) (i : ι) (self victim : κ) (lvl : Fin levels) (tries left : ℕ)
    (took : Bool) : ThiefRet τ → Sys κ ι τ
  | .abort => s.setPc i (takeLoop self victim lvl tries took left)
  | .empty | .stolen none => s.setPc i (takeLoop self victim lvl tries took 0)
  | .stolen (some t) => s.setPc i (.stealSub self victim lvl t tries left)

/-- The next memory access of an agent. -/
def runStep (s : Sys κ ι τ) (i : ι) : Option (Sys κ ι τ) :=
  match s.pc i with
  | .idle | .held _ => none
  | .owner c lvl p k =>
    match ownerRun (s.deque (c, lvl)) p with
    | (q, .inl p') => some ((s.setDeque (c, lvl) q).setPc i (.owner c lvl p' k))
    | (q, .inr r) => ownerReturns (s.setDeque (c, lvl) q) i c lvl k r
  | .enqueueAdd c => some ((s.addNr c).setPc i (.held c))
  | .dequeueSub c => some ((s.subNr c).setPc i (.held c))
  | .boostAdd c lvl => some ((s.addNr c).setPc i (.boostSub c lvl))
  | .boostSub c lvl => some ((s.subNr c).setPc i (.owner c lvl .popLoadBottom .boostPop))
  | .again _ tries => if tries = stealAttempts then some (s.setPc i .idle) else none
  | .scan self victim tries st => some (s.setPc i (scanRun s self victim tries st))
  | .thief self victim lvl p tries left took =>
    match thiefRun (s.deque (victim, lvl)) p with
    | (q, .inl p') =>
      some ((s.setDeque (victim, lvl) q).setPc i (.thief self victim lvl p' tries left took))
    | (q, .inr r) =>
      some (thiefReturns (s.setDeque (victim, lvl) q) i self victim lvl tries left took r)
  | .stealSub self victim lvl t tries left =>
    some ((s.subNr victim).setPc i
      (.owner self lvl (.pushLoadBottom t) (.stolen victim tries left)))
  | .stealAdd self victim lvl tries left =>
    some ((s.addNr self).setPc i (takeLoop self victim lvl tries true left))

/-- **All steps.** -/
def rqStep (s : Sys κ ι τ) : Act κ ι τ → Option (Sys κ ι τ)
  | .lock i c =>
    if s.pc i = .idle ∧ s.lock c = none then
      some ({ s with lock := update s.lock c (some i) }.setPc i (.held c))
    else none
  | .unlock i =>
    match s.pc i with
    | .held c => some ({ s with lock := update s.lock c none }.setPc i .idle)
    | _ => none
  | .enqueue i t lvl =>
    match s.pc i with
    | .held c =>
      if s.live t then none
      else some ((s.setLive t true).setPc i (.owner c lvl (.pushLoadBottom t) .enqueue))
    | _ => none
  | .dequeue i =>
    match s.pc i with
    | .held c => some (s.setPc i (.owner c topLevel .popLoadBottom .dequeue))
    | _ => none
  | .boost i =>
    match s.pc i with
    | .held c => some (s.setPc i (.owner c ⟨1, by decide⟩ .popLoadBottom .boostPop))
    | _ => none
  | .trySteal i self => if s.pc i = .idle then some (s.setPc i (.again self 0)) else none
  | .attempt i victim =>
    match s.pc i with
    | .again self tries =>
      if tries = stealAttempts then none
      else if victim = self then some (s.setPc i (.again self (tries + 1)))
      else some (s.setPc i (.scan self victim tries .loadNr))
    | _ => none
  | .run i => runStep s i

/-- Empty queues, and nobody at work. -/
def boot : Sys κ ι τ where
  deque _ := { top := 0, bottom := 0, slots := fun _ => none, advances := 0 }
  nrRunning _ := 0
  lock _ := none
  pc _ := .idle
  live _ := false

/-! ### What is asked -/

/-- The task an agent carries. -/
def Pc.hand : Pc κ τ → Option τ
  | .owner _ _ p _ => p.pushing
  | .stealSub _ _ _ t _ _ => some t
  | _ => none

/-- The owner-side call an agent has begun on a deque. -/
def Pc.begunOn (d : κ × Fin levels) : Pc κ τ → Option (OwnerPc τ)
  | .owner c lvl p _ => if (c, lvl) = d ∧ p.begun = true then some p else none
  | _ => none

/-- An agent that is in no call. -/
def Pc.quiet : Pc κ τ → Bool
  | .idle | .held _ => true
  | _ => false

/-- **Nothing is lost and nothing is doubled.** With `view d` the tasks of each deque, oldest first:
a live task is in one position of one deque or in the hands of one agent, and no other task is
anywhere; the slots of a deque nobody pushes to or pops from have its tasks; and with no call under
way `nr_running` is the number of tasks of the processor. -/
def Conserved [Fintype κ] [Fintype ι] (s : Sys κ ι τ) : Prop :=
  ∃ view : κ × Fin levels → List τ,
    (∀ t, ∑ d, (view d).count t + (Finset.univ.filter fun i => (s.pc i).hand = some t).card =
      if s.live t then 1 else 0) ∧
    (∀ d, (∀ i, (s.pc i).begunOn d = none) → (s.deque d).contents = (view d).map some) ∧
    ((∀ i, (s.pc i).quiet = true) → ∀ c, (s.nrRunning c).toNat = ∑ lvl, (view (c, lvl)).length)

/-- What a memory access relies on: no other agent has begun a push or a pop on the same deque; and a
steal that comes to its compare-and-swap has not seen the indices go all the way around. -/
def Alone (s : Sys κ ι τ) : Act κ ι τ → Prop
  | .run i =>
    match s.pc i with
    | .owner c lvl _ _ => ∀ j, j ≠ i → (s.pc j).begunOn (c, lvl) = none
    | .thief _ victim lvl (.cas _ _ seen) _ _ _ =>
      (s.deque (victim, lvl)).advances < seen + 2 ^ 64
    | _ => True
  | _ => True

instance [Fintype ι] (s : Sys κ ι τ) (a : Act κ ι τ) : Decidable (Alone s a) := by
  unfold Alone
  (repeat' split) <;> infer_instance

end Makaos.RunQueue
