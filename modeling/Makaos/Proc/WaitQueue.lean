import Makaos.Lib.LinkChain
import Makaos.Lib.Transition

/-!
A wait queue: `wq_add`, `wq_remove`, `wait_queue_wake_all` and `wait_queue_wake_one`, one shared
access a step.

An entry is pushed by a compare-and-swap of the head, and a wake detaches the whole chain with one
exchange; neither takes a lock. `wq_remove` marks its entry dead and then unlinks it, under a lock
that only removers take, by a plain store. A wake pushes entries back: those whose callback says so,
and `wait_queue_wake_one` all entries after the one that it fires.

* `Pc`, `Sys`, `waitStep`: the steps.
* `Sys.InWake`: the entry is in the private chain of a wake in progress.
* `Orderly`: **an entry is added only while nobody has it, and an unlink meets the links it has
  read.**
* `Unrevived`: besides, **a wake does not push back an entry that has been marked.**
-/

namespace Makaos.WaitQueue

open Function
open LinkChain (OnChain)

/-! ### The state -/

/-- The callback of an entry. -/
inductive Func where
  /-- `task_wake_func`. -/
  | task
  /-- `epoll_wake_func`. -/
  | epoll
  deriving DecidableEq

/-- The callback returns `WQ_KEEP`. -/
def Func.keep : Func → Bool
  | .task => false
  | .epoll => true

/-- A pointer to a link: the head of the queue, or the `next` of an entry. -/
inductive Link (ε : Type*) where
  | head
  | next (p : ε)
  deriving DecidableEq

/-- What follows a `wq_add`. -/
inductive Kont (ε : Type*) where
  /-- The owner of the entry has called it. -/
  | owner
  /-- `wait_queue_wake_all` goes on with `next`. -/
  | all (next : Option ε)
  /-- `wait_queue_wake_one` goes on with `rest`, and then calls `fired`. -/
  | one (rest : Option ε) (fired : ε)
  /-- `wait_queue_wake_one` returns. -/
  | last
  deriving DecidableEq

/-- Where a `wq_add` is. -/
inductive AddPc (ε : Type*) where
  /-- `we->dead = 0`. -/
  | dead
  /-- Loads the head. -/
  | load
  /-- `we->next = old_head`. -/
  | store (old : Option ε)
  /-- The compare-and-swap. -/
  | cas (old : Option ε)
  deriving DecidableEq

/-- Where a `wq_remove` is. -/
inductive RemovePc (ε : Type*) where
  /-- `we->dead = 1`. -/
  | dead
  | lock
  /-- Loads the head. -/
  | head
  /-- `while (cur && cur != we)`. -/
  | walk (link : Link ε) (cur : Option ε)
  /-- Loads `cur->next`. -/
  | next (link : Link ε)
  /-- `*link = cur->next`. -/
  | store (link : Link ε) (n : Option ε)
  | unlock
  deriving DecidableEq

/-- Where an agent is. -/
inductive Pc (ε : Type*) where
  | idle
  | add (e : ε) (k : Kont ε) (a : AddPc ε)
  | remove (e : ε) (r : RemovePc ε)
  /-- `wait_queue_wake_all`: the exchange. -/
  | allXchg
  /-- Loads `chain->next`. -/
  | allNext (chain : ε)
  /-- Loads `chain->dead`. -/
  | allDead (chain : ε) (next : Option ε)
  /-- `chain->func(chain)`. -/
  | allCall (chain : ε) (next : Option ε)
  /-- `wait_queue_wake_one`: the exchange. -/
  | oneXchg
  /-- Loads `chain->dead`. -/
  | oneDead (chain : ε)
  /-- Loads `chain->next` of a dead entry. -/
  | oneSkip (chain : ε)
  /-- Loads `chain->next` of the entry to fire. -/
  | oneFired (chain : ε)
  /-- Loads `chain->next` of an entry to push back. -/
  | oneRest (chain fired : ε)
  /-- `fired->func(fired)`. -/
  | oneCall (fired : ε)
  deriving DecidableEq

/-- A queue, its entries and those who use it. The last four fields are books: whether an entry
has been added and neither removed nor consumed since, how often its callback has been called, how
often it has been marked or unlinked, and how many calls an agent has returned from. -/
structure Sys (ι ε : Type*) where
  head : Option ε
  next : ε → Option ε
  dead : ε → Bool
  func : ε → Func
  lock : Option ι
  pc : ι → Pc ε
  waiting : ε → Bool
  called : ε → ℕ
  removals : ε → ℕ
  returns : ι → ℕ

variable {ι ε : Type*} [DecidableEq ι] [DecidableEq ε]

namespace Sys

/-- Agent `i` goes on at `p`. -/
def goto (s : Sys ι ε) (i : ι) (p : Pc ε) : Sys ι ε :=
  { s with
    pc := update s.pc i p
    returns := if p = .idle then update s.returns i (s.returns i + 1) else s.returns }

/-- `wq_remove` has marked or unlinked the entry. -/
def cancel (s : Sys ι ε) (e : ε) : Sys ι ε :=
  { s with
    waiting := update s.waiting e false
    removals := update s.removals e (s.removals e + 1) }

/-- The callback of the entry is called; unless it is kept, it is consumed. -/
def call (s : Sys ι ε) (e : ε) : Sys ι ε :=
  { s with
    called := update s.called e (s.called e + 1)
    waiting := if (s.func e).keep then s.waiting else update s.waiting e false }

/-- `*link`. -/
def read (s : Sys ι ε) : Link ε → Option ε
  | .head => s.head
  | .next p => s.next p

/-- `*link = n`. -/
def write (s : Sys ι ε) (n : Option ε) : Link ε → Sys ι ε
  | .head => { s with head := n }
  | .next p => { s with next := update s.next p n }

end Sys

/-! ### The steps -/

/-- The loop of `wait_queue_wake_all`. -/
def allAt : Option ε → Pc ε
  | none => .idle
  | some c => .allNext c

/-- The loop of `wait_queue_wake_one` that pushes back what is left. -/
def oneAt : Option ε → ε → Pc ε
  | none, fired => .oneCall fired
  | some c, fired => .oneRest c fired

/-- The loop of `wait_queue_wake_one` that looks for a live entry. -/
def oneFrom : Option ε → Pc ε
  | none => .idle
  | some c => .oneDead c

/-- After a `wq_add`. -/
def resume : Kont ε → Pc ε
  | .owner => .idle
  | .all next => allAt next
  | .one rest fired => oneAt rest fired
  | .last => .idle

/-- `wq_add` of `e`. -/
def addRun (s : Sys ι ε) (i : ι) (e : ε) (k : Kont ε) : AddPc ε → Sys ι ε
  | .dead =>
    { s with
      dead := update s.dead e false
      waiting := if k = Kont.owner then update s.waiting e true else s.waiting }.goto i
        (.add e k .load)
  | .load => s.goto i (.add e k (.store s.head))
  | .store old =>
    { s with next := update s.next e old }.goto i (.add e k (.cas old))
  | .cas old =>
    if s.head = old then { s with head := some e }.goto i (resume k)
    else s.goto i (.add e k .load)

/-- `wq_remove` of `e`. -/
def removeRun (s : Sys ι ε) (i : ι) (e : ε) : RemovePc ε → Option (Sys ι ε)
  | .dead =>
    some (({ s with dead := update s.dead e true }.cancel e).goto i (.remove e .lock))
  | .lock =>
    if s.lock = none then some ({ s with lock := some i }.goto i (.remove e .head)) else none
  | .head => some (s.goto i (.remove e (.walk .head s.head)))
  | .walk link cur =>
    match cur with
    | none => some (s.goto i (.remove e .unlock))
    | some c =>
      if c = e then some (s.goto i (.remove e (.next link)))
      else some (s.goto i (.remove e (.walk (.next c) (s.next c))))
  | .next link => some (s.goto i (.remove e (.store link (s.next e))))
  | .store link n => some (((s.write n link).cancel e).goto i (.remove e .unlock))
  | .unlock => some ({ s with lock := none }.goto i .idle)

/-- The next step of agent `i`. -/
def pcRun (s : Sys ι ε) (i : ι) : Pc ε → Option (Sys ι ε)
  | .idle => none
  | .add e k a => some (addRun s i e k a)
  | .remove e r => removeRun s i e r
  | .allXchg => some ({ s with head := none }.goto i (allAt s.head))
  | .allNext c => some (s.goto i (.allDead c (s.next c)))
  | .allDead c next => some (s.goto i (if s.dead c then allAt next else .allCall c next))
  | .allCall c next =>
    some ((s.call c).goto i (if (s.func c).keep then .add c (.all next) .dead else allAt next))
  | .oneXchg => some ({ s with head := none }.goto i (oneFrom s.head))
  | .oneDead c => some (s.goto i (if s.dead c then .oneSkip c else .oneFired c))
  | .oneSkip c => some (s.goto i (oneFrom (s.next c)))
  | .oneFired c => some (s.goto i (oneAt (s.next c) c))
  | .oneRest c fired => some (s.goto i (.add c (.one (s.next c) fired) .dead))
  | .oneCall fired =>
    some ((s.call fired).goto i (if (s.func fired).keep then .add fired .last .dead else .idle))

/-- A step. -/
inductive Act (ι ε : Type*) where
  /-- The owner of an entry calls `wq_add`. -/
  | add (i : ι) (e : ε)
  | remove (i : ι) (e : ε)
  | wakeAll (i : ι)
  | wakeOne (i : ι)
  | run (i : ι)
  /-- The weak compare-and-swap fails for no reason. -/
  | casFail (i : ι)
  deriving DecidableEq

/-- **All steps.** -/
def waitStep (s : Sys ι ε) : Act ι ε → Option (Sys ι ε)
  | .add i e => if s.pc i = .idle then some (s.goto i (.add e .owner .dead)) else none
  | .remove i e => if s.pc i = .idle then some (s.goto i (.remove e .dead)) else none
  | .wakeAll i => if s.pc i = .idle then some (s.goto i .allXchg) else none
  | .wakeOne i => if s.pc i = .idle then some (s.goto i .oneXchg) else none
  | .run i => pcRun s i (s.pc i)
  | .casFail i =>
    match s.pc i with
    | .add e k (.cas _) => some (s.goto i (.add e k .load))
    | _ => none

/-- An empty queue that nobody uses; the links of the entries are arbitrary. -/
def boot (next : ε → Option ε) (dead : ε → Bool) (func : ε → Func) : Sys ι ε where
  head := none
  next := next
  dead := dead
  func := func
  lock := none
  pc _ := .idle
  waiting _ := false
  called _ := 0
  removals _ := 0
  returns _ := 0

/-! ### Where an entry is -/

/-- The entry that a wake has in hand besides the one it pushes. -/
def Kont.hands : Kont ε → List ε
  | .one _ fired => [fired]
  | .owner | .all _ | .last => []

/-- What a wake goes on with after a push. -/
def Kont.rest : Kont ε → Option ε
  | .all next => next
  | .one rest _ => rest
  | .owner | .last => none

namespace Pc

/-- The rest of the private chain of a wake. -/
def rest : Pc ε → Option ε
  | .add _ k _ => k.rest
  | .allDead _ next | .allCall _ next => next
  | .allNext c | .oneDead c | .oneSkip c | .oneFired c | .oneRest c _ => some c
  | .idle | .remove .. | .allXchg | .oneXchg | .oneCall _ => none

/-- The entries taken off the private chain and not yet done with, or being added. -/
def hands : Pc ε → List ε
  | .add e k _ => e :: k.hands
  | .allDead c _ | .allCall c _ => [c]
  | .oneRest _ fired | .oneCall fired => [fired]
  | .idle | .remove .. | .allXchg | .allNext _ | .oneXchg | .oneDead _ | .oneSkip _
  | .oneFired _ => []

/-- The entry that its owner is adding. -/
def adds : Pc ε → Option ε
  | .add e .owner _ => some e
  | _ => none

/-- The entry that its owner is adding or removing. -/
def owned : Pc ε → Option ε
  | .add e .owner _ => some e
  | .remove e _ => some e
  | _ => none

/-- The entry between the store of its `next` and the compare-and-swap. -/
def pushes : Pc ε → Option ε
  | .add e _ (.cas _) => some e
  | _ => none

/-- The entry that is about to be unlinked, the link to it and the value for the link. -/
def unlinks : Pc ε → Option (ε × Link ε × Option ε)
  | .remove e (.store link n) => some (e, link, n)
  | _ => none

end Pc

namespace Sys

/-- The entry is in the private chain of the wake that `i` has in progress. -/
def InWake (s : Sys ι ε) (i : ι) (e : ε) : Prop :=
  (s.pc i).adds = none ∧ (OnChain s.next (s.pc i).rest e ∨ e ∈ (s.pc i).hands)

/-- Nobody has the entry: it is not in the queue, not with a wake, and not being added. -/
def Free (s : Sys ι ε) (e : ε) : Prop :=
  ¬ OnChain s.next s.head e ∧ ∀ j, ¬ OnChain s.next (s.pc j).rest e ∧ e ∉ (s.pc j).hands

/-- The link still leads to `e`, `n` still follows `e`, and the link is not that of an entry that
is being pushed. -/
def Exact (s : Sys ι ε) (e : ε) (n : Option ε) (link : Link ε) : Prop :=
  s.read link = some e ∧ s.next e = n ∧ ∀ j p, link = .next p → (s.pc j).pushes ≠ some p

/-- The entry that a wake is about to push back: it is at the first step, or the compare-and-swap
is about to succeed. -/
def repushes (s : Sys ι ε) (i : ι) : Option ε :=
  match s.pc i with
  | .add _ .owner _ => none
  | .add e _ .dead => some e
  | .add e _ (.cas old) => if s.head = old then some e else none
  | _ => none

end Sys

/-! ### The conditions -/

/-- **An entry is added only while nobody has it, and an unlink meets the links it has read.** -/
def Orderly (s : Sys ι ε) : Act ι ε → Prop
  | .add _ e => s.Free e
  | .run i => ∀ x ∈ (s.pc i).unlinks, s.Exact x.1 x.2.2 x.2.1
  | _ => True

/-- **Besides, the calls of the owner of an entry come one after the other, and a wake does not push
back an entry that has been marked.** -/
def Unrevived (s : Sys ι ε) (a : Act ι ε) : Prop :=
  Orderly s a ∧
    match a with
    | .add _ e | .remove _ e => ∀ j, (s.pc j).owned ≠ some e
    | .run i => ∀ e ∈ s.repushes i, s.dead e = false
    | _ => True

section Decidable

variable [Fintype ι] [Fintype ε]

instance (s : Sys ι ε) (i : ι) (e : ε) : Decidable (s.InWake i e) :=
  inferInstanceAs (Decidable (_ ∧ _))

instance (s : Sys ι ε) (e : ε) : Decidable (s.Free e) := inferInstanceAs (Decidable (_ ∧ _))

instance (s : Sys ι ε) (e : ε) (n : Option ε) (link : Link ε) : Decidable (s.Exact e n link) :=
  inferInstanceAs (Decidable (_ ∧ _))

instance (s : Sys ι ε) : (a : Act ι ε) → Decidable (Orderly s a)
  | .add _ e => inferInstanceAs (Decidable (s.Free e))
  | .run i => inferInstanceAs (Decidable (∀ x ∈ (s.pc i).unlinks, s.Exact x.1 x.2.2 x.2.1))
  | .remove .. | .wakeAll _ | .wakeOne _ | .casFail _ => isTrue trivial

instance (s : Sys ι ε) : (a : Act ι ε) → Decidable (Unrevived s a)
  | .add i e => inferInstanceAs (Decidable (Orderly s (.add i e) ∧ ∀ j, (s.pc j).owned ≠ some e))
  | .remove i e =>
    inferInstanceAs (Decidable (Orderly s (.remove i e) ∧ ∀ j, (s.pc j).owned ≠ some e))
  | .run i => inferInstanceAs (Decidable (Orderly s (.run i) ∧ ∀ e ∈ s.repushes i, s.dead e = false))
  | .wakeAll _ | .wakeOne _ | .casFail _ => isTrue ⟨trivial, trivial⟩

end Decidable

/-- **An entry that has been added and neither removed nor consumed can be reached from the head,
or is in the private chain of a wake in progress.** -/
def Accounted (s : Sys ι ε) : Prop :=
  ∀ e, s.waiting e = true → (∀ i, (s.pc i).adds ≠ some e) →
    OnChain s.next s.head e ∨ ∃ i, s.InWake i e

end Makaos.WaitQueue
