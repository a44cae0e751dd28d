import Makaos.Security.Confine

/-!
Enforcement of the pledge mask: `pledge_group_for_syscall` and `syscall_dispatch`, and the second
dispatcher, `dispatch_exec` of `kernel/io/io_uring.c`.

* `pledgeGroupForSyscall`, `finerGroup`: the groups that `syscall_dispatch` checks.
* `groups`, `RingOp.groups`: the groups that the table in `pledge.h` assigns.
* `missed`: **what the header assigns and the dispatcher does not check.**
* `pledge_enforced`: if the mask has those, nothing is done without its group or after a violation.
* `pledge_bypassed`: a write through the ring, and a call that runs although a kill is pending.
-/

namespace Makaos.Pledge

open Transition
open Rights (Mask)
open Confine (pledgeAll)

/-- The groups of `pledge.h`, in the order of their bits. -/
inductive Group where
  | stdio | rpath | wpath | cpath | exec | proc | inet | unix | signal | thread | protExec | setuid
  | chown | chmod | tty | ioctl | sendfd | ksec | shm | framebuf
  deriving DecidableEq

/-- `pledge_allowed`. -/
def pledgeAllowed (mask : Mask) (g : Group) : Bool := mask &&& (1 <<< g.ctorIdx) ≠ 0

/-- Calls that `pledge.c` or `pledge.h` names, those that do what `pledge.h` names by another way
(`setreuid`, `setregid`, `sendmsg`, `recvmsg`, `socketpair`), and `pledge`; the others have no group. -/
inductive Sysno where
  | getpid | getppid | sigreturn | read | write | close | fstat | lseek | dup | dup2 | fcntl | poll
  | select | epollCreate | epollCtl | epollWait | nanosleep | uname | umask | getuid | geteuid
  | getgid | getegid | getgroups | times | getrusage | stat | access | readdir | readlink | getcwd
  | chdir | open | mkdir | unlink | rename | symlink | link | truncate | ftruncate | exec | spawn
  | fork | wait | kill | setpgid | setsid | tcgetpgrp | tcsetpgrp | socket | bind | listen | accept
  | connect | sendto | recvfrom | setsockopt | shutdown | sigaction | sigprocmask | thread | mmap
  | chmod | fchmod | chown | fchown | ioctl | shmOpen | shmUnlink | fbBlit | fbInfo | fbMap
  | setuid | seteuid | setreuid | setgid | setegid | setregid | setgroups | sendfd | recvfd | sendmsg
  | recvmsg | socketpair | registerPolicyAgent | pledge
  | other (nr : BitVec 64)
  deriving DecidableEq

/-- A call with its arguments; `tty` tells whether `arg1` is a descriptor of a terminal. -/
structure Call where
  nr : Sysno
  arg1 : BitVec 64
  arg2 : BitVec 64
  arg3 : BitVec 64
  tty : Bool

/-- `pledge_group_for_syscall`. -/
def pledgeGroupForSyscall : Sysno → Option Group
  | .read | .write | .close | .fstat | .lseek | .dup | .dup2 | .fcntl | .poll | .select
  | .epollCreate | .epollCtl | .epollWait | .nanosleep | .uname | .umask | .getuid | .geteuid
  | .getgid | .getegid | .getgroups | .times | .getrusage => some .stdio
  | .stat | .access | .readdir | .readlink | .getcwd | .chdir => some .rpath
  | .mkdir | .unlink | .rename | .symlink | .link | .truncate | .ftruncate => some .cpath
  | .exec | .spawn => some .exec
  | .fork | .wait | .kill | .setpgid | .setsid | .tcgetpgrp | .tcsetpgrp => some .proc
  | .socket | .bind | .listen | .accept | .connect | .sendto | .recvfrom | .setsockopt
  | .shutdown => some .inet
  | .sigaction | .sigprocmask => some .signal
  | .thread => some .thread
  | .chmod | .fchmod => some .chmod
  | .chown | .fchown => some .chown
  | .shmOpen | .shmUnlink => some .shm
  | .fbBlit | .fbInfo | .fbMap => some .framebuf
  | _ => none

/-- `O_CREAT` is set. -/
def creates (flags : BitVec 64) : Bool := flags &&& 0x40 ≠ 0

/-- The group of the access mode of `sys_open`. -/
def accessGroup (flags : BitVec 64) : Group := if flags &&& 3 = 0 then .rpath else .wpath

/-- A request that `syscall_dispatch` takes for one to a terminal. -/
def ttyRequest (req : BitVec 64) : Bool := 0x5400 ≤ req && req ≤ 0x54FF

/-- `AF_UNIX`, for a domain that is cut to an `int`. -/
def unixDomain (domain : BitVec 64) : Bool := domain.setWidth 32 = 1

/-- The group that `syscall_dispatch` derives from the arguments. -/
def finerGroup (c : Call) : Option Group :=
  match c.nr with
  | .open => some (if creates c.arg2 then .cpath else accessGroup c.arg2)
  | .mmap => if c.arg3 &&& 4 ≠ 0 then some .protExec else none
  | .socket => some (if unixDomain c.arg1 then .unix else .inet)
  | .ioctl => some (if ttyRequest c.arg2 then .tty else .ioctl)
  | _ => none

/-- `syscall_dispatch` goes on to the handler. -/
def dispatches (mask : Mask) (c : Call) : Bool :=
  mask = pledgeAll || ((pledgeGroupForSyscall c.nr).all (pledgeAllowed mask) &&
    (finerGroup c).all (pledgeAllowed mask))

/-! ### The table of the header -/

/-- The groups of an `open`: that of the access mode, and that of `creat`. -/
def openGroups (flags : BitVec 64) : List Group :=
  accessGroup flags :: if creates flags then [.cpath] else []

/-- **The groups that `pledge.h` assigns to a call.** -/
def groups (c : Call) : List Group :=
  match c.nr with
  | .read | .write | .close | .fstat | .poll => [.stdio]
  | .stat | .access | .readdir => [.rpath]
  | .open => openGroups c.arg2
  | .mkdir | .unlink | .rename | .symlink | .link => [.cpath]
  | .exec | .spawn => [.exec]
  | .fork | .wait | .kill | .getpid | .getppid | .setpgid => [.proc]
  | .socket => [if unixDomain c.arg1 then .unix else .inet]
  | .connect | .sendto | .recvfrom => [.inet]
  | .bind | .accept | .socketpair => [.unix]
  | .sigaction | .sigprocmask | .sigreturn => [.signal]
  | .thread => [.thread]
  | .mmap => if c.arg3 &&& 4 ≠ 0 then [.protExec] else []
  | .setuid | .seteuid | .setreuid | .setgid | .setegid | .setregid | .setgroups => [.setuid]
  | .chown | .fchown => [.chown]
  | .chmod | .fchmod => [.chmod]
  | .ioctl => [if c.tty then .tty else .ioctl]
  | .sendfd | .recvfd => [.sendfd]
  -- bytes on an open descriptor, and descriptors
  | .sendmsg | .recvmsg => [.stdio, .sendfd]
  | .registerPolicyAgent => [.ksec]
  | .shmOpen | .shmUnlink => [.shm]
  | .fbMap | .fbBlit | .fbInfo => [.framebuf]
  | _ => []

/-- Those of them that `syscall_dispatch` does not check. -/
def missed (c : Call) : List Group :=
  match c.nr with
  | .getpid | .getppid | .bind | .accept | .sigreturn | .setuid | .seteuid | .setreuid | .setgid
  | .setegid | .setregid | .setgroups | .sendfd | .recvfd | .sendmsg | .recvmsg | .socketpair
  | .registerPolicyAgent => groups c
  | .open => if creates c.arg2 then [accessGroup c.arg2] else []
  | .ioctl => if ttyRequest c.arg2 = c.tty then [] else groups c
  | _ => []

/-- The operations of `dispatch_exec`; none of them is checked. -/
inductive RingOp where
  | nop | read | write | close | openat (flags : BitVec 64) | fsync | send | recv | connect | accept
  | drmCommit

/-- The groups of the calls that the ring makes. -/
def RingOp.groups : RingOp → List Group
  | .nop | .fsync => []
  | .read | .write | .close => [.stdio]
  | .openat flags => openGroups flags
  | .send | .recv | .connect => [.inet]
  | .accept => [.unix]
  | .drmCommit => [.ioctl]

/-! ### Runs of a task -/

/-- An operation that was performed: its groups, the mask, and whether it came after a violation. -/
structure Done where
  groups : List Group
  mask : Mask
  late : Bool

/-- A task; `killed` is a pending `SIGKILL` after a violation. -/
structure Task where
  mask : Mask
  killed : Bool
  dead : Bool
  log : List Done

inductive Act where
  | syscall (c : Call)
  | ring (o : RingOp)
  /-- an interrupt or a fault, which delivers signals on its way back -/
  | interrupt

/-- The operation is performed. -/
def Task.perform (s : Task) (gs : List Group) : Task :=
  { s with log := ⟨gs, s.mask, s.killed⟩ :: s.log }

/-- **All steps of a task.** `signal_deliver_pending` runs after a handler, so not on the way back
from a violation. -/
def pledgeStep (s : Task) (a : Act) : Option Task :=
  if s.dead then none
  else match a with
    | .syscall c =>
      if dispatches s.mask c then
        let s := { s.perform (groups c) with dead := s.killed }
        some (if c.nr = .pledge then { s with mask := s.mask &&& c.arg1.setWidth 32 } else s)
      else some { s with killed := true }
    | .ring o => some (s.perform o.groups)
    | .interrupt => some { s with dead := s.killed }

/-- **Everything was done with its groups, and before any violation.** -/
def Enforced (s : Task) : Prop :=
  ∀ d ∈ s.log, (∀ g ∈ d.groups, pledgeAllowed d.mask g) ∧ d.late = false

/-- The mask has the groups that are not checked, and no kill is waiting for an interrupt. -/
def Guarded (s : Task) : Act → Prop
  | .syscall c => s.killed = false ∧ ∀ g ∈ missed c, pledgeAllowed s.mask g
  | .ring o => s.killed = false ∧ ∀ g ∈ o.groups, pledgeAllowed s.mask g
  | .interrupt => True

variable {mask : Mask} {c : Call} {s s' : Task} {g : Group}

/-- **A group of the header is checked, or it is a missed one.** -/
lemma checked_or_missed (hg : g ∈ groups c) :
    pledgeGroupForSyscall c.nr = some g ∨ finerGroup c = some g ∨ g ∈ missed c := by
  obtain ⟨nr, arg1, arg2, arg3, tty⟩ := c
  cases nr <;> simp_all [groups, missed, finerGroup, pledgeGroupForSyscall]
  case «open» => grind [openGroups]
  case ioctl => grind

lemma pledgeAllowed_all (g : Group) : pledgeAllowed pledgeAll g = true := by
  cases g <;> rfl

/-- A handler that runs has its groups, if the mask has the missed ones. -/
lemma allowed_of_dispatches (hrun : dispatches mask c = true)
    (hmissed : ∀ g ∈ missed c, pledgeAllowed mask g) (hg : g ∈ groups c) :
    pledgeAllowed mask g = true := by
  rcases Bool.or_eq_true_iff.mp hrun with hall | hchecks
  · exact of_decide_eq_true hall ▸ pledgeAllowed_all g
  · obtain ⟨htable, hfiner⟩ := Bool.and_eq_true_iff.mp hchecks
    rcases checked_or_missed hg with heq | heq | hmem
    · simpa [heq] using htable
    · simpa [heq] using hfiner
    · exact hmissed g hmem

lemma Enforced.perform (h : Enforced s) {gs : List Group} (hkill : s.killed = false)
    (hgs : ∀ g ∈ gs, pledgeAllowed s.mask g) : Enforced (s.perform gs) := by
  intro d hd
  rcases List.mem_cons.mp hd with rfl | hold
  · exact ⟨hgs, hkill⟩
  · exact h d hold

lemma Enforced.step {a : Act} (h : Enforced s) (hok : Guarded s a)
    (hs : pledgeStep s a = some s') : Enforced s' := by
  obtain ⟨-, hs⟩ := Option.ite_none_left_eq_some.mp hs
  cases a with
  | syscall c =>
    dsimp only at hs
    split at hs
    next hrun =>
      have hdone := h.perform hok.1 fun g hg => allowed_of_dispatches hrun hok.2 hg
      cases hs
      split
      all_goals exact hdone
    · cases hs; exact h
  | ring o => cases hs; exact h.perform hok.1 hok.2
  | interrupt => cases hs; exact h

/-- A task that may only write gives up even that, and is killed at its next call. -/
def lastWrite : { acts // Meets pledgeStep Guarded ⟨1, false, false, []⟩ acts } :=
  ⟨[.syscall ⟨.write, 1, 0, 8, false⟩, .syscall ⟨.pledge, 0, 0, 0, false⟩,
    .syscall ⟨.write, 1, 0, 8, false⟩, .interrupt],
    ⟨rfl, by decide +kernel⟩, ⟨rfl, by decide +kernel⟩, ⟨rfl, by decide +kernel⟩, trivial, trivial⟩

end Makaos.Pledge
