import Makaos.Lib.StackRow
import Makaos.Lib.Transition

/-!
Callbacks deferred by RCU: `call_rcu_head`, the grace-period thread and `rcu_barrier` of `rcu.c`.

Each CPU has a list of pending callbacks, pushed at the head by compare-and-swap. A pass of the
grace-period thread detaches the lists one by one, puts each in front of what it has, waits for a
grace period and invokes the callbacks. The wait is one step, at any time.

* `Pc`: where a caller of `call_rcu_head` or `rcu_barrier` is.
* `gpRun`: a step of the grace-period thread.
* `rcuStep`: all steps.
* `future`: the order in which the callbacks queued now come out.
* `Ahead`, `Covered`: what the last push of `rcu_barrier` must find.
-/

namespace Makaos.RcuCallbacks

open Function
open StackRow

/-- What a push is for. -/
inductive Job where
  /-- A call of `call_rcu_head`. -/
  | user
  /-- The push number `k` of a call of `rcu_barrier`. -/
  | barrier (k : ℕ)
  deriving DecidableEq

/-- Where a caller is. -/
inductive Pc where
  | idle
  /-- Loads the head of the list of CPU `c`. -/
  | load (c : ℕ) (job : Job)
  /-- Has loaded it, and makes the compare-and-swap. -/
  | cas (c : ℕ) (old : Option ℕ) (job : Job)
  /-- In `rcu_barrier` with `k` pushes made: the next one is on the CPU it runs on then. -/
  | between (k : ℕ)
  /-- Waits for `done`. -/
  | waiting
  deriving DecidableEq

/-- Where the grace-period thread is. -/
inductive GpPc where
  /-- Detaches the list of CPU `i` next. -/
  | collect (i : ℕ)
  /-- In `synchronize_rcu`. -/
  | sync
  | invoke
  deriving DecidableEq

/-- The deferred callbacks of `ncpu` CPUs. Callbacks are numbered as they are queued. `done` is the
counter of a caller's `rcu_barrier`. For the specification only: what has been queued (`queued`), in
which pass (`queuedAt`), for whose barrier (`owner`), what has been invoked, how many passes are over
and how many steps the current one has taken, what was queued before a caller's `rcu_barrier`
(`before`), its last push (`last`), and what was queued before each `rcu_barrier` that has
returned. -/
structure Sys (ι : Type*) where
  ncpu : ℕ
  pending : ℕ → List ℕ
  pc : ι → Pc
  done : ι → ℕ
  gp : GpPc
  collected : List ℕ
  queued : List ℕ
  queuedAt : ℕ → ℕ
  owner : ℕ → Option ι
  invoked : List ℕ
  passes : ℕ
  ticks : ℕ
  before : ι → List ℕ
  last : ι → ℕ
  returned : List (List ℕ)

/-- A step. -/
inductive Act (ι : Type*) where
  /-- Calls `call_rcu_head` on CPU `c`. -/
  | call (i : ι) (c : ℕ)
  | barrier (i : ι)
  /-- The next step of a caller; `c` is the CPU it runs on. -/
  | run (i : ι) (c : ℕ)
  | gp
  deriving DecidableEq

variable {ι : Type*} [DecidableEq ι]

namespace Sys

def setPc (s : Sys ι) (i : ι) (p : Pc) : Sys ι :=
  { s with pc := update s.pc i p }

/-- The compare-and-swap of `call_rcu_head` succeeds. -/
def push (s : Sys ι) (c : ℕ) (who : Option ι) : Sys ι :=
  let h := s.queued.length
  { s with
    pending := update s.pending c (h :: s.pending c)
    queued := h :: s.queued
    queuedAt := update s.queuedAt h s.passes
    owner := update s.owner h who }

end Sys

/-- The position after the push of a job. -/
def Job.next (ncpu : ℕ) : Job → Pc
  | .user => .idle
  | .barrier k => if k + 1 < ncpu then .between (k + 1) else .waiting

/-- Whose barrier a push is for. -/
def Job.owner (i : ι) : Job → Option ι
  | .user => none
  | .barrier _ => some i

/-- The last push of each barrier, with this push made. -/
def Job.last (s : Sys ι) (i : ι) : Job → ι → ℕ
  | .user => s.last
  | .barrier _ => update s.last i s.queued.length

/-- A step of a caller. -/
def callRun (s : Sys ι) (i : ι) (cpu : ℕ) : Pc → Option (Sys ι)
  | .idle => none
  | .load c job => some (s.setPc i (.cas c (s.pending c).head? job))
  | .cas c old job =>
    if (s.pending c).head? = old then
      some ({ s.push c (job.owner i) with last := job.last s i }.setPc i (job.next s.ncpu))
    else some (s.setPc i (.cas c (s.pending c).head? job))
  | .between k => if cpu < s.ncpu then some (s.setPc i (.load cpu (.barrier k))) else none
  | .waiting =>
    if s.done i < s.ncpu then none
    else some ({ s with returned := s.before i :: s.returned }.setPc i .idle)

/-- The grace-period thread begins the next pass. -/
def Sys.nextPass (s : Sys ι) : Sys ι :=
  { s with gp := .collect 0, passes := s.passes + 1, ticks := 0 }

/-- A step of the grace-period thread. -/
def gpRun (s : Sys ι) : Sys ι :=
  match s.gp with
  | .collect i =>
    if i < s.ncpu then
      { s with
        pending := update s.pending i []
        collected := s.pending i ++ s.collected
        gp := .collect (i + 1)
        ticks := s.ticks + 1 }
    -- nothing to do: sleeps, and starts again
    else if s.collected = [] then s.nextPass
    else { s with gp := .sync, ticks := s.ticks + 1 }
  | .sync => { s with gp := .invoke, ticks := s.ticks + 1 }
  | .invoke =>
    match s.collected with
    | [] => s.nextPass
    | h :: rest =>
      { s with
        collected := rest
        invoked := h :: s.invoked
        ticks := s.ticks + 1
        -- `rcu_barrier_cb`
        done := match s.owner h with
          | none => s.done
          | some i => update s.done i (s.done i + 1) }

/-- **All steps.** -/
def rcuStep (s : Sys ι) : Act ι → Option (Sys ι)
  | .call i c => if s.pc i = .idle ∧ c < s.ncpu then some (s.setPc i (.load c .user)) else none
  | .barrier i =>
    if s.pc i = .idle then
      if s.ncpu = 0 then some { s with returned := s.queued :: s.returned }
      else some ({ s with
        before := update s.before i s.queued
        done := update s.done i 0 }.setPc i (.between 0))
    else none
  | .run i c => callRun s i c (s.pc i)
  | .gp => some (gpRun s)

/-- No callbacks yet. -/
def boot (ncpu : ℕ) : Sys ι where
  ncpu := ncpu
  pending _ := []
  pc _ := .idle
  done _ := 0
  gp := .collect 0
  collected := []
  queued := []
  queuedAt _ := 0
  owner _ := none
  invoked := []
  passes := 0
  ticks := 0
  before _ := []
  last _ := 0
  returned := []

/-- How many lists are detached already in this pass. -/
def Sys.detached (s : Sys ι) : ℕ :=
  match s.gp with
  | .collect i => i
  | .sync | .invoke => s.ncpu

/-- A callback comes out before one pushed on CPU `c` now. -/
def Ahead (s : Sys ι) (c : ℕ) (o : ℕ) : Prop :=
  (∃ d < s.ncpu, c < d ∧ o ∈ s.pending d) ∨ (o ∈ s.collected ∧ c < s.detached)

instance (s : Sys ι) (c o : ℕ) : Decidable (Ahead s c o) :=
  inferInstanceAs (Decidable ((∃ d < s.ncpu, c < d ∧ o ∈ s.pending d) ∨ _))

/-- **The last push of `rcu_barrier` comes out after everything queued before the call.** -/
def Covered (s : Sys ι) : Act ι → Prop
  | .run i _ => match s.pc i with
    | .cas c old (.barrier k) => (s.pending c).head? = old → k + 1 = s.ncpu →
        ∀ o ∈ s.before i, o ∈ s.invoked ∨ Ahead s c o
    | _ => True
  | _ => True

instance (s : Sys ι) : (a : Act ι) → Decidable (Covered s a)
  | .run i _ =>
    match h : s.pc i with
    | .cas c old (.barrier k) =>
      decidable_of_iff ((s.pending c).head? = old → k + 1 = s.ncpu →
        ∀ o ∈ s.before i, o ∈ s.invoked ∨ Ahead s c o) (by simp [Covered, h])
    | .cas _ _ .user | .idle | .load _ _ | .between _ | .waiting =>
      isTrue (by simp [Covered, h])
  | .call .. | .barrier _ | .gp => isTrue trivial

/-- The order in which the callbacks queued now come out: the lists still to be detached in this
pass, what it has, and the lists for the next pass. -/
def future (s : Sys ι) : List ℕ :=
  chains s.pending s.detached (s.ncpu - s.detached) ++ s.collected ++ chains s.pending 0 s.detached

/-- What is promised about the callbacks. -/
structure Good (s : Sys ι) : Prop where
  /-- All that was queued before an `rcu_barrier` that has returned has been invoked. -/
  barrier : ∀ l ∈ s.returned, ∀ o ∈ l, o ∈ s.invoked
  /-- No callback is invoked twice, and only queued ones are. -/
  once : s.invoked.Nodup ∧ ∀ o ∈ s.invoked, o ∈ s.queued
  /-- Each is invoked at the latest in the second pass that ends after it was queued. -/
  invoked : ∀ o ∈ s.queued, s.queuedAt o + 2 ≤ s.passes → o ∈ s.invoked
  /-- A pass ends: its steps are bounded. -/
  passEnds : s.ticks ≤ s.ncpu + 2 + s.queued.length

end Makaos.RcuCallbacks
