import Mathlib.Tactic
import Makaos.Lib.Transition

/-!
Grace periods: `synchronize_rcu` and `synchronize_rcu_expedited` of `rcu.c`.

A reader section raises `preempt_depth` of its CPU, and a CPU is switched to another task only at
depth 0. The callers are tasks that can be switched out, and go on on another CPU, at any of their
steps. `this_cpu()->rcu_qs_count++` is two steps: reading which CPU this is, and the increment
through the pointer.

* `Pc`: where a task is in one of the two functions.
* `Sys`: the CPUs, with the reader sections open on each, and the tasks.
* `graceRun`, `graceStep`: the steps of a caller, and all steps.
* `Local`: **an increment is made on the CPU that was read.**
-/

namespace Makaos.RcuGrace

open Function
/-- What follows a call of `rcu_note_qs`. -/
inductive Then where
  /-- It was called by `do_switch` when there was nothing to switch to. -/
  | bail
  | classic
  | expedited
  /-- It is the increment in `rcu_expedited_cb`, run by the caller itself. -/
  | callback (me i : ℕ)
  deriving DecidableEq

/-- Where a task is. -/
inductive Pc where
  | idle
  /-- Takes the snapshot of the counter of CPU `i`. -/
  | snap (exp : Bool) (i : ℕ)
  /-- `this_cpu()` of an increment. -/
  | note (k : Then)
  /-- The increment through the pointer to CPU `c`. -/
  | inc (c : ℕ) (k : Then)
  /-- `me = this_cpu()->id`. -/
  | me
  /-- The interrupt for CPU `i` is next. -/
  | ipi (me i : ℕ)
  | ipiWait (me i : ℕ)
  /-- Runs `rcu_expedited_cb` itself: `this_cpu()` of the test. -/
  | depthOf (me i : ℕ)
  /-- Loads `preempt_depth` of CPU `c`. -/
  | depth (me i c : ℕ)
  /-- Waits for CPU `i`; `me` is the CPU left out, or whichever it runs on. -/
  | wait (me : Option ℕ) (i : ℕ)
  deriving DecidableEq

/-- The position after an increment. -/
def Then.next : Then → Pc
  | .bail => .idle
  | .classic => .wait none 0
  | .expedited => .me
  | .callback me i => .ipi me (i + 1)

/-- The CPUs and the tasks. `sections c` are the reader sections open on CPU `c`, numbered as they
begin: its length is `preempt_depth`. `slot t` is the CPU that has still to run the callback of
`t`. For the specification only: `clock` is the next number, `start t` the one at the call of `t`,
`returns` counts returns, and `early` says that a call has returned while a section that had begun
before it was open. -/
structure Sys (τ : Type*) where
  ncpu : ℕ
  running : ℕ → Option τ
  sections : ℕ → List ℕ
  qs : ℕ → BitVec 64
  pc : τ → Pc
  snapshot : τ → ℕ → BitVec 64
  slot : τ → Option ℕ
  clock : ℕ
  start : τ → ℕ
  returns : ℕ
  early : Bool

/-- A step. -/
inductive Act (τ : Type*) where
  /-- CPU `c` is switched to another task, or to its idle task. -/
  | switch (c : ℕ) (next : Option τ)
  /-- A quiescent state is noted on CPU `c` by its idle loop or in an interrupt. -/
  | note (c : ℕ)
  /-- `rcu_read_lock` on CPU `c`. -/
  | lock (c : ℕ)
  | unlock (c : ℕ)
  /-- CPU `c` takes the interrupt and runs the callback of `t`. -/
  | ipi (c : ℕ) (t : τ)
  | call (t : τ) (c : ℕ) (exp : Bool)
  | bail (t : τ) (c : ℕ)
  /-- The next step of `t`, which runs on CPU `c`. -/
  | run (t : τ) (c : ℕ)
  deriving DecidableEq

variable {τ : Type*} [DecidableEq τ]

namespace Sys

def setPc (s : Sys τ) (t : τ) (p : Pc) : Sys τ :=
  { s with pc := update s.pc t p }

def incQs (s : Sys τ) (c : ℕ) : Sys τ :=
  { s with qs := update s.qs c (s.qs c + 1) }

/-- `t` executes an instruction on CPU `c` outside reader sections; one that an interrupt has opened
there is closed again by then. -/
def Executes (s : Sys τ) (t : τ) (c : ℕ) : Prop :=
  c < s.ncpu ∧ s.running c = some t ∧ s.sections c = []

instance (s : Sys τ) (t : τ) (c : ℕ) : Decidable (s.Executes t c) :=
  inferInstanceAs (Decidable (_ ∧ _ ∧ _))

/-- No section that had begun before the call of `t` is open on CPU `c`. -/
def Clear (s : Sys τ) (t : τ) (c : ℕ) : Prop := ∀ x ∈ s.sections c, s.start t ≤ x

instance (s : Sys τ) (t : τ) (c : ℕ) : Decidable (s.Clear t c) :=
  inferInstanceAs (Decidable (∀ x ∈ s.sections c, s.start t ≤ x))

/-- A call returns. -/
def ret (s : Sys τ) (t : τ) : Sys τ :=
  { s with
    returns := s.returns + 1
    early := s.early || !decide (∀ c < s.ncpu, s.Clear t c) }.setPc t .idle

end Sys

/-- The next step of `t`, which runs on CPU `c`. -/
def graceRun (s : Sys τ) (t : τ) (c : ℕ) : Pc → Option (Sys τ)
  | .idle => none
  | .snap exp i =>
    if i < s.ncpu then
      some ({ s with
        snapshot := update s.snapshot t (update (s.snapshot t) i (s.qs i))
        }.setPc t (.snap exp (i + 1)))
    else some (s.setPc t (.note (if exp then .expedited else .classic)))
  | .note k => some (s.setPc t (.inc c k))
  | .inc d k => some ((s.incQs d).setPc t k.next)
  | .me => some (s.setPc t (.ipi c 0))
  | .ipi me i =>
    if i < s.ncpu then
      if i = me then some (s.setPc t (.ipi me (i + 1)))
      -- `smp_call_function_single` for the CPU it runs on
      else if i = c then some (s.setPc t (.depthOf me i))
      else some ({ s with slot := update s.slot t (some i) }.setPc t (.ipiWait me i))
    else some (s.setPc t (.wait (some me) 0))
  | .ipiWait me i => if s.slot t = none then some (s.setPc t (.ipi me (i + 1))) else none
  | .depthOf me i => some (s.setPc t (.depth me i c))
  | .depth me i d =>
    if (s.sections d).length = 0 then some (s.setPc t (.note (.callback me i)))
    else some (s.setPc t (.ipi me (i + 1)))
  | .wait me i =>
    if i < s.ncpu then
      if i = me.getD c ∨ s.qs i ≠ s.snapshot t i then some (s.setPc t (.wait me (i + 1)))
      else none
    else some (s.ret t)

/-- **All steps.** -/
def graceStep (s : Sys τ) : Act τ → Option (Sys τ)
  | .switch c next =>
    if c < s.ncpu ∧ s.sections c = [] ∧ (∀ d < s.ncpu, next ≠ none → s.running d ≠ next) then
      some { s.incQs c with running := update s.running c next }
    else none
  | .note c => if c < s.ncpu ∧ s.sections c = [] then some (s.incQs c) else none
  | .lock c =>
    some { s with
      sections := update s.sections c (s.clock :: s.sections c)
      clock := s.clock + 1 }
  | .unlock c => some { s with sections := update s.sections c (s.sections c).tail }
  | .ipi c t =>
    if s.slot t = some c then
      -- `rcu_expedited_cb`
      let s' := if (s.sections c).length = 0 then s.incQs c else s
      some { s' with slot := update s.slot t none }
    else none
  | .call t c exp =>
    if s.Executes t c ∧ s.pc t = .idle then
      some ({ s with start := update s.start t s.clock }.setPc t (.snap exp 0))
    else none
  | .bail t c =>
    if s.Executes t c ∧ s.pc t = .idle then some (s.setPc t (.note .bail)) else none
  | .run t c => if s.Executes t c then graceRun s t c (s.pc t) else none

/-- No readers, no callers. -/
def boot (ncpu : ℕ) (running : ℕ → Option τ) (qs : ℕ → BitVec 64) : Sys τ where
  ncpu := ncpu
  running := running
  sections _ := []
  qs := qs
  pc _ := .idle
  snapshot _ _ := 0
  slot _ := none
  clock := 0
  start _ := 0
  returns := 0
  early := false

/-- **An increment is made on the CPU that was read**: the task has not been moved in between. -/
def Local (s : Sys τ) : Act τ → Prop
  | .run t c => match s.pc t with
    | .inc d _ => d = c
    | _ => True
  | _ => True

instance (s : Sys τ) : (a : Act τ) → Decidable (Local s a)
  | .run t c =>
    match h : s.pc t with
    | .inc d _ => decidable_of_iff (d = c) (by simp [Local, h])
    | .idle | .snap .. | .note _ | .me | .ipi .. | .ipiWait .. | .depthOf .. | .depth ..
    | .wait .. => isTrue (by simp [Local, h])
  | .switch .. | .note _ | .lock _ | .unlock _ | .ipi .. | .call .. | .bail .. => isTrue trivial

end Makaos.RcuGrace
