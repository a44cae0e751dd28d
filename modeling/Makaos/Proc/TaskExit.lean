import Makaos.Proc.RcuGrace

/-!
The end of a task: `sys_exit` of the task, `sys_wait` of its parent, and `task_destroy`, which frees
the kernel stack, the address space and the record of the task after an expedited grace period.

The grace period is `synchronize_rcu_expedited` step by step. The exiting task runs on in `sys_exit`
after it has set its state: it links itself into the zombie list, signals its parent, and leaves by
`do_switch`, which notes a quiescent state before the switch.

* `St`, `Pc`: the state of a task, and where it is.
* `exitStep`: all steps.
* `Departed`: **the parent does not take a CPU for quiescent while the dying task executes there.**
-/

namespace Makaos.TaskExit

open Function
open RcuGrace (graceStep graceRun)

/-- The state of a task. -/
inductive St where
  | running
  | ready
  | sleeping
  | zombie
  /-- Its storage has been freed. -/
  | freed
  deriving DecidableEq

/-- Where a task is. -/
inductive Pc (τ : Type*) where
  | other
  /-- `sys_exit`: sets the state. -/
  | setState
  /-- `sched_add_zombie`. -/
  | link
  /-- Signals the parent. -/
  | signal
  | yield
  /-- In `do_switch`, with interrupts off: `rcu_note_qs`. -/
  | note
  /-- In `do_switch`, with interrupts off: the switch. -/
  | leave
  | gone
  /-- `sys_wait`: `task_children_reap` looks at the child `d`. -/
  | load (d : τ)
  /-- `sched_reap_zombie`. -/
  | unlink (d : τ)
  | destroy (d : τ)
  /-- In `call_rcu_expedited`. -/
  | grace (d : τ)
  deriving DecidableEq

/-- The tasks: `rcu` is which runs where, and the grace periods; `claimed` are the tasks taken off
their parent's list of children. -/
structure Sys (τ : Type*) where
  rcu : RcuGrace.Sys τ
  parent : τ → Option τ
  st : τ → St
  pc : τ → Pc τ
  zombies : List τ
  claimed : τ → Bool

/-- A step. -/
inductive Act (τ : Type*) where
  /-- `do_switch` on CPU `c` by the timer, a yield or a sleep. -/
  | sched (c : ℕ) (next : Option τ) (sleep : Bool)
  | wake (t : τ)
  | note (c : ℕ)
  | lock (c : ℕ)
  | unlock (c : ℕ)
  | ipi (c : ℕ) (t : τ)
  /-- `t` calls `sys_exit`. -/
  | exit (t : τ) (c : ℕ)
  /-- `t` calls `sys_wait` and comes to its child `d`. -/
  | wait (t d : τ) (c : ℕ)
  /-- The next step of `t`; `next` is the task that `do_switch` has picked. -/
  | run (t : τ) (c : ℕ) (next : Option τ)
  deriving DecidableEq

variable {τ : Type*} [DecidableEq τ]

namespace Sys

def setPc (s : Sys τ) (t : τ) (p : Pc τ) : Sys τ :=
  { s with pc := update s.pc t p }

def setSt (s : Sys τ) (t : τ) (x : St) : Sys τ :=
  { s with st := update s.st t x }

/-- CPU `c` goes on with another task, or with its idle task. -/
def switchTo (s : Sys τ) (c : ℕ) (next : Option τ) : Sys τ :=
  { s with
    rcu := { s.rcu with running := update s.rcu.running c next }
    st := match next with
      | none => s.st
      | some n => update s.st n .running }

/-- The task is in a run queue. -/
def Runnable (s : Sys τ) (next : Option τ) : Prop := ∀ n ∈ next, s.st n = .ready

instance (s : Sys τ) : (next : Option τ) → Decidable (s.Runnable next)
  | none => isTrue nofun
  | some n => decidable_of_iff (s.st n = .ready) (by simp [Runnable])

/-- The task on CPU `c` is not in `do_switch` with interrupts off. -/
def IrqsOn (s : Sys τ) (c : ℕ) : Prop :=
  ∀ t ∈ s.rcu.running c, s.pc t ≠ .note ∧ s.pc t ≠ .leave

instance (s : Sys τ) (c : ℕ) : Decidable (s.IrqsOn c) :=
  inferInstanceAs (Decidable (∀ t ∈ s.rcu.running c, _))

/-- `sched_wake`. -/
def wake (s : Sys τ) (t : τ) : Sys τ := if s.st t = .sleeping then s.setSt t .ready else s

/-- `do_switch`, except at the end of a task. -/
def doSwitch (s : Sys τ) (c : ℕ) (next : Option τ) (sleep : Bool) : Sys τ :=
  let s' := { s with rcu := s.rcu.incQs c }
  match s.rcu.running c with
  | none => s'.switchTo c next
  | some t =>
    -- a task that is exiting is not switched out by the timer
    if s.st t = .zombie then s'
    else (s'.setSt t (if sleep then .sleeping else .ready)).switchTo c next

end Sys

/-- A step of the grace period, or of an interrupt. -/
def rcuStep (s : Sys τ) (a : RcuGrace.Act τ) : Option (Sys τ) :=
  (graceStep s.rcu a).map fun r => { s with rcu := r }

/-- The next step of `t`, which runs on CPU `c`. -/
def taskRun (s : Sys τ) (t : τ) (c : ℕ) (next : Option τ) : Pc τ → Option (Sys τ)
  | .other | .gone => none
  | .setState => some ((s.setSt t .zombie).setPc t .link)
  | .link => some ({ s with zombies := t :: s.zombies }.setPc t .signal)
  | .signal =>
    some ((match s.parent t with
      | none => s
      | some p => s.wake p).setPc t .yield)
  | .yield => some (s.setPc t .note)
  | .note => some ({ s with rcu := s.rcu.incQs c }.setPc t .leave)
  | .leave => if s.Runnable next then some ((s.switchTo c next).setPc t .gone) else none
  | .load d =>
    if s.st d = .zombie ∧ s.claimed d = false then
      some ({ s with claimed := update s.claimed d true }.setPc t (.unlink d))
    else some (s.setPc t .other)
  | .unlink d => some ({ s with zombies := s.zombies.erase d }.setPc t (.destroy d))
  | .destroy d => (rcuStep s (.call t c true)).map fun s' => s'.setPc t (.grace d)
  | .grace d =>
    if s.rcu.pc t = .idle then some ((s.setSt d .freed).setPc t .other)
    else rcuStep s (.run t c)

/-- **All steps.** -/
def exitStep (s : Sys τ) : Act τ → Option (Sys τ)
  | .sched c next sleep =>
    if c < s.rcu.ncpu ∧ s.rcu.sections c = [] ∧ s.IrqsOn c ∧ s.Runnable next then
      some (s.doSwitch c next sleep)
    else none
  | .wake t => some (s.wake t)
  | .note c => if s.IrqsOn c then rcuStep s (.note c) else none
  | .lock c => if s.IrqsOn c then rcuStep s (.lock c) else none
  | .unlock c => if s.IrqsOn c then rcuStep s (.unlock c) else none
  | .ipi c t => if s.IrqsOn c then rcuStep s (.ipi c t) else none
  | .exit t c =>
    if s.rcu.Executes t c ∧ s.pc t = .other then some (s.setPc t .setState) else none
  | .wait t d c =>
    if s.rcu.Executes t c ∧ s.pc t = .other ∧ s.parent d = some t then some (s.setPc t (.load d))
    else none
  | .run t c next => if s.rcu.Executes t c then taskRun s t c next (s.pc t) else none

/-- Nobody is exiting yet: the tasks that `running` says run, and the others are ready or asleep. -/
def boot (ncpu : ℕ) (parent : τ → Option τ) (running : ℕ → Option τ) (qs : ℕ → BitVec 64)
    (asleep : τ → Bool) : Sys τ where
  rcu := RcuGrace.boot ncpu running qs
  parent := parent
  st t := if ∃ c < ncpu, running c = some t then .running else if asleep t then .sleeping else .ready
  pc _ := .other
  zombies := []
  claimed _ := false

/-- `t` waits for the end of `d`, and finds now that the counter of CPU `i` has changed. -/
def Sys.accepting (s : Sys τ) (t : τ) : Option (τ × ℕ) :=
  match s.pc t, s.rcu.pc t with
  | .grace d, .wait me i =>
    if i < s.rcu.ncpu ∧ me ≠ some i ∧ s.rcu.qs i ≠ s.rcu.snapshot t i then some (d, i) else none
  | _, _ => none

/-- **The parent does not take a CPU for quiescent while the dying task executes there.** -/
def Departed (s : Sys τ) : Act τ → Prop
  | .run t _ _ => ∀ x ∈ s.accepting t, s.rcu.running x.2 ≠ some x.1
  | _ => True

instance (s : Sys τ) : (a : Act τ) → Decidable (Departed s a)
  | .run t _ _ => inferInstanceAs (Decidable (∀ x ∈ s.accepting t, s.rcu.running x.2 ≠ some x.1))
  | .sched .. | .wake _ | .note _ | .lock _ | .unlock _ | .ipi .. | .exit .. | .wait .. =>
    isTrue trivial

/-- **The storage of a task is freed only after it has left its last CPU.** -/
def Good (s : Sys τ) : Prop := ∀ d, s.st d = .freed → ∀ c < s.rcu.ncpu, s.rcu.running c ≠ some d

end Makaos.TaskExit
