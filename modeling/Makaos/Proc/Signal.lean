import Makaos.Lib.Transition
import Makaos.Lib.WordMemory

/-!
Signal handlers: `signal_deliver_pending` and `signal_setup_frame` on the way out of a system call,
and `sys_sigreturn`.

The context that a handler interrupts is written to the user stack, and the task remembers the
address of the frame, one address only. `sys_sigreturn` reads the frame at that address and forgets
it. What the interrupted system call returns is not in the frame.

* `Sigframe`, `Sigframe.words`: the frame and its layout.
* `setupFrame`, `deliverPending`, `sysSigreturn`: the functions.
* `signalStep`: a task that runs, makes system calls and is interrupted.
* `Restored`: what a return from a handler has to bring back.
* `Flat`: **a handler is entered only while no other one is running, and when the system call
  returns 0.**
-/

namespace Makaos.Signal

open WordMemory Function

/-! ### The state of a task -/

/-- The saved registers of a system call that the signal code uses. -/
structure Kframe where
  rip : BitVec 64
  rsp : BitVec 64
  rflags : BitVec 64
  rbp : BitVec 64
  rbx : BitVec 64
  r12 : BitVec 64
  r13 : BitVec 64
  r14 : BitVec 64
  r15 : BitVec 64
  rdi : BitVec 64
  deriving DecidableEq

/-- `k_sigaction_t`. -/
structure Sigaction where
  handler : BitVec 64
  restorer : BitVec 64
  mask : BitVec 32
  deriving DecidableEq

/-- `sigframe_t`. -/
structure Sigframe where
  rip : BitVec 64
  rsp : BitVec 64
  rflags : BitVec 64
  rbp : BitVec 64
  rbx : BitVec 64
  r12 : BitVec 64
  r13 : BitVec 64
  r14 : BitVec 64
  r15 : BitVec 64
  blocked : BitVec 32
  deriving DecidableEq

namespace Sigframe

/-- The frame in memory; the mask and its padding, which is 0, make up the last word. -/
def words (f : Sigframe) : List (BitVec 64) :=
  [f.rip, f.rsp, f.rflags, f.rbp, f.rbx, f.r12, f.r13, f.r14, f.r15, f.blocked.setWidth 64]

/-- The frame read from memory. -/
def ofWords : List (BitVec 64) → Option Sigframe
  | [rip, rsp, rflags, rbp, rbx, r12, r13, r14, r15, last] =>
    some ⟨rip, rsp, rflags, rbp, rbx, r12, r13, r14, r15, last.setWidth 32⟩
  | _ => none

end Sigframe

/-- What a handler interrupts: what goes into the frame, and what the system call returns. -/
structure Context where
  frame : Sigframe
  rax : BitVec 64
  deriving DecidableEq

/-- Where a task is. -/
inductive Phase where
  /-- In user mode. -/
  | user
  /-- A system call has its result and is about to deliver signals. -/
  | leaving
  | dead
  deriving DecidableEq

/-- A task: its user memory and which addresses a mapping covers, the saved registers, the result of
the system call, and the signal state. `saved` are books: the contexts whose handlers have not
returned, the last one first. -/
structure Task where
  phase : Phase
  mem : BitVec 64 → BitVec 64
  vma : BitVec 64 → Bool
  kf : Kframe
  rax : BitVec 64
  pending : BitVec 32
  blocked : BitVec 32
  handlers : ℕ → Sigaction
  sigframeRsp : BitVec 64
  saved : List Context

/-! ### Delivery -/

def nsig : ℕ := 32
def sigkill : ℕ := 9
def sigchld : ℕ := 17
def sigwinch : ℕ := 28
def sigDfl : BitVec 64 := 0
def sigIgn : BitVec 64 := 1

/-- `USER_ADDR_CEIL`. -/
def userAddrCeil : BitVec 64 := 1 <<< 47

/-- `1u << (sig - 1)`. -/
def sigBit (sig : ℕ) : BitVec 32 := 1 <<< (sig - 1)

/-- `sizeof(sigframe_t)`. -/
def frameSize : BitVec 64 := 80

/-- `sig_user_range_ok`. -/
def sigUserRangeOk (addr len : BitVec 64) : Bool :=
  addr ≠ 0 ∧ addr < userAddrCeil ∧ ¬ (addr + len < addr) ∧ ¬ (userAddrCeil < addr + len)

/-- The handler and the restorer are user addresses. -/
def Sigaction.ok (ka : Sigaction) : Bool :=
  ka.handler ≠ 0 ∧ ka.handler < userAddrCeil ∧ ka.restorer ≠ 0 ∧ ka.restorer < userAddrCeil

namespace Task

/-- Where the frame goes: below the red zone, aligned to 16. -/
def frameBase (t : Task) : BitVec 64 := (t.kf.rsp - 128 - frameSize) &&& ~~~ 0xF

/-- The context of the task. -/
def frame (t : Task) : Sigframe where
  rip := t.kf.rip
  rsp := t.kf.rsp
  rflags := t.kf.rflags
  rbp := t.kf.rbp
  rbx := t.kf.rbx
  r12 := t.kf.r12
  r13 := t.kf.r13
  r14 := t.kf.r14
  r15 := t.kf.r15
  blocked := t.blocked

/-- No frame can be set up: `SIGKILL` becomes pending, with the default action. -/
def forceKill (t : Task) : Task :=
  { t with
    pending := t.pending ||| sigBit sigkill
    handlers := update t.handlers sigkill { t.handlers sigkill with handler := sigDfl } }

end Task

/-- `signal_setup_frame`. -/
def setupFrame (t : Task) (sig : ℕ) (ka : Sigaction) : Task :=
  let base := t.frameBase
  if !sigUserRangeOk (base - 8) (frameSize + 8) then t.forceKill
  else if !ka.ok then t.forceKill
  else if !t.vma (base - 8) || !t.vma (base + frameSize - 1) then t.forceKill
  else
    { t with
      mem := update (store t.mem base t.frame.words) (base - 8) ka.restorer
      sigframeRsp := base
      blocked := t.blocked ||| sigBit sig ||| ka.mask
      kf := { t.kf with
        rip := ka.handler
        rsp := base - 8
        rflags := 0x202
        rdi := BitVec.ofNat 64 sig }
      saved := ⟨t.frame, t.rax⟩ :: t.saved }

namespace Task

/-- The lowest-numbered pending signal that is not blocked. -/
def pick (t : Task) : Option ℕ :=
  ((List.range 32).find? fun bit => (t.pending &&& ~~~ t.blocked).getLsbD bit).map (· + 1)

/-- The action for a signal. -/
def action (t : Task) (sig : ℕ) : Sigaction :=
  if sig < nsig then t.handlers sig else { t.handlers 0 with handler := sigDfl }

/-- The signal whose handler is to be entered. -/
def catches (t : Task) : Option ℕ :=
  t.pick.filter fun sig => (t.action sig).handler ≠ sigDfl ∧ (t.action sig).handler ≠ sigIgn

end Task

/-- `signal_deliver_pending(1)`. -/
def deliverPending (t : Task) : Task :=
  match t.pick with
  | none => t
  | some sig =>
    let ka := t.action sig
    let t := { t with pending := t.pending &&& ~~~ sigBit sig }
    if ka.handler = sigIgn then t
    else if ka.handler = sigDfl ∧ (sig = sigwinch ∨ sig = sigchld) then t
    else if ka.handler ≠ sigDfl then setupFrame t sig ka
    else { t with phase := .dead }

/-! ### The return from a handler -/

/-- `HHDM_OFFSET`. -/
def hhdmOffset : BitVec 64 := 0xFFFF800000000000

/-- `_access_ok`. -/
def accessOk (addr len : BitVec 64) : Bool :=
  if addr = 0 then false
  else if hhdmOffset ≤ addr then false
  else if len ≠ 0 ∧ addr + len < addr then false
  else if len ≠ 0 ∧ hhdmOffset < addr + len then false
  else true

def einval : BitVec 64 := -22
def efault : BitVec 64 := -14

/-- The flags that user code may set. -/
def userFlags : BitVec 64 := 0xCD5

/-- `sys_sigreturn`, with its result. -/
def sysSigreturn (t : Task) : Task :=
  if t.sigframeRsp = 0 then { t with rax := einval }
  else if !accessOk t.sigframeRsp frameSize then { t with rax := efault }
  else
    match Sigframe.ofWords (load t.mem t.sigframeRsp 10) with
    | none => { t with rax := efault }
    | some f =>
      if userAddrCeil ≤ f.rip ∨ userAddrCeil ≤ f.rsp then { t with rax := einval }
      else
        { t with
          kf := { t.kf with
            rip := f.rip
            rsp := f.rsp
            rflags := (f.rflags &&& userFlags) ||| 0x202
            rbp := f.rbp
            rbx := f.rbx
            r12 := f.r12
            r13 := f.r13
            r14 := f.r14
            r15 := f.r15 }
          blocked := f.blocked &&& ~~~ sigBit sigkill
          sigframeRsp := 0
          rax := 0 }

/-! ### The steps -/

/-- What user code has done when it enters the kernel: its registers, its memory and mappings, and
the signals that have been sent to it meanwhile. -/
structure User where
  kf : Kframe
  mem : BitVec 64 → BitVec 64
  vma : BitVec 64 → Bool
  pending : BitVec 32

/-- The task enters the kernel. -/
def Task.enter (t : Task) (u : User) : Task :=
  { t with kf := u.kf, mem := u.mem, vma := u.vma, pending := u.pending }

/-- A step. -/
inductive Act where
  /-- A system call other than `sigreturn`, up to its result; it may change the mask and the
  actions. -/
  | syscall (u : User) (rax : BitVec 64) (blocked : BitVec 32) (handlers : ℕ → Sigaction)
  /-- A handler has returned to the restorer, which calls `sigreturn`. -/
  | sigreturn (u : User)
  /-- Signals are delivered, and the system call returns. -/
  | deliver

/-- **All steps of a task.** -/
def signalStep (t : Task) : Act → Option Task
  | .syscall u rax blocked handlers =>
    if t.phase = .user then
      some { t.enter u with
        phase := .leaving
        rax := rax
        blocked := blocked
        handlers := handlers }
    else none
  | .sigreturn u =>
    if t.phase = .user then
      some { sysSigreturn (t.enter u) with phase := .leaving, saved := t.saved.tail }
    else none
  | .deliver =>
    if t.phase = .leaving then
      some (deliverPending { t with phase := .user })
    else none

/-! ### What is asked for -/

/-- **The instruction pointer, the stack pointer, the flags, the callee-saved registers, the mask
and the result of the system call are those of the context.** -/
structure Restored (c : Context) (t : Task) : Prop where
  rip : t.kf.rip = c.frame.rip
  rsp : t.kf.rsp = c.frame.rsp
  rflags : t.kf.rflags &&& userFlags = c.frame.rflags &&& userFlags
  rbp : t.kf.rbp = c.frame.rbp
  rbx : t.kf.rbx = c.frame.rbx
  r12 : t.kf.r12 = c.frame.r12
  r13 : t.kf.r13 = c.frame.r13
  r14 : t.kf.r14 = c.frame.r14
  r15 : t.kf.r15 = c.frame.r15
  blocked : t.blocked = c.frame.blocked
  rax : t.rax = c.rax

/-- User code, and the system calls it makes, leave the frame of the running handler alone. -/
def LeavesFrame (t : Task) (u : User) : Prop :=
  t.saved ≠ [] → load u.mem t.sigframeRsp 10 = load t.mem t.sigframeRsp 10

instance (t : Task) (u : User) : Decidable (LeavesFrame t u) := inferInstanceAs (Decidable (_ → _))

/-- **A handler is entered only while no other one is running and when the system call returns 0;**
the addresses are user addresses, and `SIGKILL` is not blocked. -/
def Flat (t : Task) : Act → Prop
  | .syscall u .. => LeavesFrame t u
  | .sigreturn u => LeavesFrame t u
  | .deliver => t.catches.isSome → t.saved = [] ∧ t.rax = 0 ∧ t.kf.rip < userAddrCeil ∧
      t.kf.rsp < userAddrCeil ∧ t.blocked &&& sigBit sigkill = 0

instance (t : Task) : (a : Act) → Decidable (Flat t a)
  | .syscall u .. => inferInstanceAs (Decidable (LeavesFrame t u))
  | .sigreturn u => inferInstanceAs (Decidable (LeavesFrame t u))
  | .deliver => inferInstanceAs (Decidable (t.catches.isSome → _))

end Makaos.Signal
