import Makaos.Proc.Signal

/-!
`SIGKILL`: the system calls that change the mask and the actions, the sending of signals, and their
delivery on every path.

* `sysSigaction`, `sysSigprocmask`, `signalSend`, `deliver`: the functions.
* `Killable`: `SIGKILL` is not blocked, has its default action and is in the mask of no action.
* `sigkill_kills`: **if no action with `SIGKILL` in its mask is set, then `SIGKILL` is never blocked,
  and a delivery while it is pending is the end of the task, unless a signal before it is caught or
  ignored.**
* `sigkill_shadowed`: a handler that masks `SIGKILL`, and one for a signal with a lower number.
-/

namespace Makaos.Signal

open Function Transition Option

/-! ### The functions -/

def sigsegv : ℕ := 11

/-- `sigaction_addr_ok`. -/
def sigactionAddrOk (a : BitVec 64) : Bool := a ≤ 1 || a < userAddrCeil

/-- `sys_sigaction`: whether the old action can be copied out, if it is asked for, and the new one,
if there is one, as far as it can be read. -/
def sysSigaction (t : Task) (sig : ℕ) (oldOk : Bool) (act : Option (Option Sigaction)) : Task :=
  if sig < 1 ∨ nsig ≤ sig then { t with rax := einval }
  else if sig = sigkill ∨ sig = sigsegv then { t with rax := einval }
  else if !oldOk then { t with rax := efault }
  else
    match act with
    | none => { t with rax := 0 }
    | some none => { t with rax := efault }
    | some (some ka) =>
      if !sigactionAddrOk ka.handler then { t with rax := einval }
      else if !sigactionAddrOk ka.restorer then { t with rax := einval }
      else { t with handlers := update t.handlers sig ka, rax := 0 }

/-- `sys_sigprocmask`; `how` is `SIG_BLOCK`, `SIG_UNBLOCK` or `SIG_SETMASK`. -/
def sysSigprocmask (t : Task) (how : ℕ) (oldOk : Bool) (set : Option (Option (BitVec 32))) : Task :=
  if !oldOk then { t with rax := efault }
  else
    match set with
    | none => { t with rax := 0 }
    | some none => { t with rax := efault }
    | some (some set) =>
      let set := set &&& ~~~ sigBit sigkill
      if how = 0 then { t with blocked := t.blocked ||| set, rax := 0 }
      else if how = 1 then { t with blocked := t.blocked &&& ~~~ set, rax := 0 }
      else if how = 2 then { t with blocked := set, rax := 0 }
      else { t with rax := einval }

/-- `signal_send`. -/
def signalSend (t : Task) (sig : ℕ) : Task :=
  if sig < 1 ∨ nsig ≤ sig then t
  else
    { t with
      blocked := if sig = sigkill then t.blocked &&& ~~~ sigBit sig else t.blocked
      pending := t.pending ||| sigBit sig }

/-- `signal_deliver_pending`, on a path that may set up a frame or not, for a kernel thread or
not. -/
def deliver (t : Task) (maySetupFrame kthread : Bool) : Task :=
  match t.pick with
  | none => t
  | some sig =>
    let ka := t.action sig
    let t := { t with pending := t.pending &&& ~~~ sigBit sig }
    if ka.handler = sigIgn then t
    else if ka.handler = sigDfl ∧ (sig = sigwinch ∨ sig = sigchld) then t
    else if ka.handler ≠ sigDfl ∧ maySetupFrame ∧ !kthread then setupFrame t sig ka
    else if ka.handler ≠ sigDfl ∧ !kthread then
      { t with pending := t.pending ||| sigBit sig }
    else { t with phase := .dead }

/-- On the way out of a system call of a user task it is the delivery of that path. -/
lemma deliver_syscall (t : Task) : deliver t true false = deliverPending t := by
  rw [deliver, deliverPending]
  cases t.pick with
  | none => rfl
  | some sig =>
    by_cases hdfl : (t.action sig).handler = sigDfl
    · simp [hdfl]
    · simp [hdfl]

/-- A step. -/
inductive KillAct where
  /-- User code runs, and other code of the kernel that leaves the mask and the actions alone. -/
  | user (u : User) (rax : BitVec 64)
  | sigaction (sig : ℕ) (oldOk : Bool) (act : Option (Option Sigaction))
  | sigprocmask (how : ℕ) (oldOk : Bool) (set : Option (Option (BitVec 32)))
  | sigreturn
  | send (sig : ℕ)
  | deliver (maySetupFrame : Bool)

/-- **All steps** of a task that is not dead. -/
def killStep (kthread : Bool) (t : Task) (a : KillAct) : Option Task :=
  if t.phase = .dead then none
  else
    match a with
    | .user u rax => some { t.enter u with rax := rax }
    | .sigaction sig oldOk act => some (sysSigaction t sig oldOk act)
    | .sigprocmask how oldOk set => some (sysSigprocmask t how oldOk set)
    | .sigreturn => some (sysSigreturn t)
    | .send sig => some (signalSend t sig)
    | .deliver may => some (deliver t may kthread)

/-! ### What is asked for -/

/-- The mask has `SIGKILL`. -/
def hasKill (m : BitVec 32) : Bool := m.getLsbD (sigkill - 1)

/-- **`SIGKILL` is not blocked, has its default action, and is in the mask of no action.** -/
structure Killable (t : Task) : Prop where
  blocked : hasKill t.blocked = false
  default : (t.handlers sigkill).handler = sigDfl
  masks : ∀ sig, hasKill (t.handlers sig).mask = false

/-- No action is set whose mask has `SIGKILL`. -/
def Unmasked (_ : Task) : KillAct → Prop
  | .sigaction _ _ (some (some ka)) => hasKill ka.mask = false
  | _ => True

instance (t : Task) : (a : KillAct) → Decidable (Unmasked t a)
  | .sigaction _ _ (some (some _)) => inferInstanceAs (Decidable (_ = false))
  | .sigaction _ _ (some none) | .sigaction _ _ none | .user .. | .sigprocmask .. | .sigreturn
  | .send .. | .deliver .. => inferInstanceAs (Decidable True)

/-- Signals with a lower number that can be delivered have their default action. -/
def Foremost (t : Task) : Prop :=
  ∀ sig, 0 < sig → sig < sigkill → (t.pending &&& ~~~ t.blocked).getLsbD (sig - 1) = true →
    (t.handlers sig).handler = sigDfl

/-! ### Masks -/

variable {t t' : Task} {sig : ℕ} {m m' : BitVec 32}

lemma hasKill_or : hasKill (m ||| m') = (hasKill m || hasKill m') := BitVec.getLsbD_or

lemma hasKill_and : hasKill (m &&& m') = (hasKill m && hasKill m') := BitVec.getLsbD_and

lemma hasKill_without : hasKill (m &&& ~~~ sigBit sigkill) = false := by
  rw [hasKill_and, show hasKill (~~~ sigBit sigkill) = false by decide, Bool.and_false]

lemma hasKill_sigBit (hpos : 0 < sig) (hne : sig ≠ sigkill) : hasKill (sigBit sig) = false := by
  have hne' : sig - 1 ≠ 8 := by
    rw [sigkill] at hne
    omega
  have hshift : ∀ k, k ≠ 8 → (1#32 <<< k).getLsbD 8 = false := by
    intro k hk
    simp
    omega
  exact hshift (sig - 1) hne'

/-! ### The signal that is delivered -/

/-- **The picked signal is the first one that can be delivered.** -/
lemma pick_spec (h : t.pick = some sig) :
    0 < sig ∧ sig ≤ 32 ∧ (t.pending &&& ~~~ t.blocked).getLsbD (sig - 1) = true ∧
      ∀ j, j < sig - 1 → (t.pending &&& ~~~ t.blocked).getLsbD j = false := by
  obtain ⟨i, hfind, rfl⟩ := map_eq_some_iff.mp h
  obtain ⟨hbit, hmem, hlower⟩ := List.find?_range_eq_some.mp hfind
  have hlt : i < 32 := List.mem_range.mp hmem
  refine ⟨Nat.succ_pos i, hlt, hbit, fun j hj => ?_⟩
  simpa only [Bool.not_eq_true'] using hlower j hj

lemma pick_of_bit {i : ℕ} (hi : i < 32) (h : (t.pending &&& ~~~ t.blocked).getLsbD i = true) :
    ∃ sig, t.pick = some sig ∧ sig ≤ i + 1 := by
  have hsome : t.pick.isSome := by
    rw [Task.pick, isSome_map, List.find?_isSome]
    exact ⟨i, List.mem_range.mpr hi, h⟩
  obtain ⟨sig, hpick⟩ := isSome_iff_exists.mp hsome
  refine ⟨sig, hpick, ?_⟩
  by_contra hgt
  have hclear := (pick_spec hpick).2.2.2 i (by omega)
  rw [h] at hclear
  nomatch hclear

/-! ### The invariant -/

namespace Killable

section

variable (h : Killable t) {oldOk : Bool}
include h

lemma congr (hblocked : t'.blocked = t.blocked := by rfl)
    (hhandlers : t'.handlers = t.handlers := by rfl) : Killable t' where
  blocked := hblocked ▸ h.blocked
  default := hhandlers ▸ h.default
  masks := hhandlers ▸ h.masks

lemma withBlocked (hblocked : hasKill t'.blocked = false)
    (hhandlers : t'.handlers = t.handlers := by rfl) : Killable t' where
  blocked := hblocked
  default := hhandlers ▸ h.default
  masks := hhandlers ▸ h.masks

lemma sigaction {act : Option (Option Sigaction)}
    (hok : Unmasked t (.sigaction sig oldOk act)) : Killable (sysSigaction t sig oldOk act) := by
  fun_cases sysSigaction t sig oldOk act
  case case8 hsig _ ka _ _ =>
    have hne : sig ≠ sigkill := fun heq => hsig (.inl heq)
    refine ⟨h.blocked, ?_, fun sig' => ?_⟩
    · exact (congrArg _ (update_of_ne hne.symm _ _)).trans h.default
    · show hasKill (update t.handlers sig ka sig').mask = false
      rcases eq_or_ne sig' sig with rfl | hsig'
      · rwa [update_self]
      · rw [update_of_ne hsig']
        exact h.masks sig'
  all_goals exact h.congr

lemma sigprocmask {how : ℕ} {set : Option (Option (BitVec 32))} :
    Killable (sysSigprocmask t how oldOk set) := by
  fun_cases sysSigprocmask t how oldOk set
  case case4 set set' _ =>
    exact h.withBlocked (by rw [hasKill_or, h.blocked, hasKill_without]; rfl)
  case case5 =>
    exact h.withBlocked (by rw [hasKill_and, h.blocked]; rfl)
  case case6 => exact h.withBlocked hasKill_without
  all_goals exact h.congr

lemma sigreturn : Killable (sysSigreturn t) := by
  fun_cases sysSigreturn t
  case case5 => exact h.withBlocked hasKill_without
  all_goals exact h.congr

lemma send : Killable (signalSend t sig) := by
  rw [signalSend]
  split
  · exact h
  · refine h.withBlocked ?_
    dsimp only
    split_ifs with hkill
    · rw [hkill, hasKill_without]
    · exact h.blocked

lemma forceKill : Killable t.forceKill := by
  refine ⟨h.blocked, ?_, fun sig => ?_⟩
  · show (update t.handlers sigkill { t.handlers sigkill with handler := sigDfl } sigkill).handler = _
    rw [update_self]
  show hasKill (update t.handlers sigkill { t.handlers sigkill with handler := sigDfl } sig).mask = _
  rcases eq_or_ne sig sigkill with rfl | hne
  · rw [update_self]
    exact h.masks sigkill
  · rw [update_of_ne hne]
    exact h.masks sig

/-- A handler is entered with its signal and its mask blocked. -/
lemma setupFrame {ka : Sigaction} (hpos : 0 < sig) (hne : sig ≠ sigkill)
    (hmask : hasKill ka.mask = false) : Killable (setupFrame t sig ka) := by
  fun_cases Signal.setupFrame t sig ka
  case case4 =>
    refine h.withBlocked ?_
    rw [hasKill_or, hasKill_or, h.blocked, hasKill_sigBit hpos hne, hmask]
    rfl
  all_goals exact h.forceKill

lemma deliver {may kthread : Bool} : Killable (deliver t may kthread) := by
  have hmask : ∀ sig, hasKill (t.action sig).mask = false := by
    intro sig
    rw [Task.action]
    split
    · exact h.masks sig
    · exact h.masks 0
  fun_cases Signal.deliver t may kthread
  case case4 sig hpick ka s hign hdef hcatch =>
    have hne : sig ≠ sigkill := by
      rintro rfl
      exact hcatch.1 h.default
    have hs : Killable s := h.congr
    exact hs.setupFrame (pick_spec hpick).1 hne (hmask sig)
  all_goals exact h.congr

/-- **Every step keeps it**, if no action is set whose mask has `SIGKILL`. -/
lemma step {kthread : Bool} {a : KillAct} (hok : Unmasked t a)
    (hs : killStep kthread t a = some t') : Killable t' := by
  unfold killStep at hs
  split at hs
  · nomatch hs
  · cases a with
    | user u rax => exact some.inj hs ▸ h.congr
    | sigaction sig oldOk act => exact some.inj hs ▸ h.sigaction hok
    | sigprocmask how oldOk set => exact some.inj hs ▸ h.sigprocmask
    | sigreturn => exact some.inj hs ▸ h.sigreturn
    | send sig => exact some.inj hs ▸ h.send
    | deliver may => exact some.inj hs ▸ h.deliver

/-- **A delivery while `SIGKILL` is pending is the end of the task**, if nothing is caught before
it. -/
lemma kills (hpending : hasKill t.pending = true) (hfore : Foremost t)
    (may kthread : Bool) : (Signal.deliver t may kthread).phase = .dead := by
  have hbit : (t.pending &&& ~~~ t.blocked).getLsbD 8 = true := by
    have hnot : (~~~ t.blocked).getLsbD 8 = true := by
      simpa [hasKill, sigkill] using h.blocked
    rwa [BitVec.getLsbD_and, hnot, Bool.and_true]
  obtain ⟨sig, hpick, hle⟩ := pick_of_bit (by decide) hbit
  obtain ⟨hpos, -, hset, -⟩ := pick_spec hpick
  have hdfl : (t.action sig).handler = sigDfl := by
    rw [Task.action, if_pos (by rw [nsig]; omega)]
    rcases (Nat.lt_or_eq_of_le hle : sig < sigkill ∨ sig = sigkill) with hlt | rfl
    · exact hfore sig hpos hlt hset
    · exact h.default
  have hdef : ¬ (sig = sigwinch ∨ sig = sigchld) := by
    rw [sigwinch, sigchld]
    omega
  simp [Signal.deliver, hpick, hdfl, hdef, sigDfl, sigIgn]

end

end Killable

/-! ### Runs -/

/-- **If no action is set whose mask has `SIGKILL`, then it is never blocked, and the delivery of a
pending one is the end of the task, on every path, unless a signal before it is caught or
ignored.** -/
theorem sigkill_kills {kthread : Bool} {t₀ : Task} {acts : List KillAct} (h₀ : Killable t₀)
    (hrun : exec (killStep kthread) t₀ acts = some t)
    (hok : Meets (killStep kthread) Unmasked t₀ acts) : hasKill t.blocked = false ∧
      (hasKill t.pending = true → Foremost t → ∀ may, (deliver t may kthread).phase = .dead) := by
  have hinv : Killable t := exec_invariant (fun h => h.step) hrun hok h₀
  exact ⟨hinv.blocked, fun hpending hfore may => hinv.kills hpending hfore may kthread⟩

/-- A new task. -/
def newTask : Task where
  phase := .user
  mem _ := 0
  vma _ := true
  kf := ⟨0x400100, 0x7000000, 0x202, 0, 0, 0, 0, 0, 0, 0⟩
  rax := 0
  pending := 0
  blocked := 0
  handlers _ := ⟨sigDfl, 0, 0⟩
  sigframeRsp := 0
  saved := []

lemma newTask_killable : Killable newTask where
  blocked := by decide
  default := rfl
  masks sig := by simp [newTask, hasKill]

/-- Signal 1 is caught, with `mask` blocked in its handler; then it is sent, and `SIGKILL`. -/
def hangupThenKill (mask : BitVec 32) : List KillAct :=
  [.sigaction 1 true (some (some ⟨0x401000, 0x402000, mask⟩)), .send sigkill, .send 1]

/-- Signal 15 is caught, every other one blocked as far as that goes, the handler of 15 is entered,
and `SIGKILL` is sent. -/
def caughtThenKilled : List KillAct :=
  [.sigaction 15 true (some (some ⟨0x401000, 0x402000, 0⟩)),
    .sigprocmask 2 true (some (some (~~~ sigBit 15))), .send 15, .deliver true, .send sigkill]

theorem sigkill_kills_newTask : ∃ t, exec (killStep false) newTask caughtThenKilled = some t ∧
      t.kf.rip = 0x401000 ∧ hasKill t.blocked = false ∧ (deliver t false false).phase = .dead := by
  refine exists_of_run (fun t => t.kf.rip = 0x401000 ∧ hasKill t.pending = true ∧
    ∀ sig ∈ List.range 9, (t.handlers sig).handler = sigDfl) fun t hrun hend => ?_
  obtain ⟨hrip, hpending, hhandlers⟩ := hend
  obtain ⟨hblocked, hkills⟩ := sigkill_kills newTask_killable hrun (by decide +kernel)
  exact ⟨hrip, hblocked, hkills hpending (fun sig _ hlt _ => hhandlers sig (List.mem_range.mpr hlt))
    false⟩

/-- **While signal 1 is caught, a pending `SIGKILL` does not kill: on the way out of a system call the
handler is entered, elsewhere nothing happens at all; and in the handler `SIGKILL` is blocked, if its
mask says so.** -/
theorem sigkill_shadowed : (∃ t, exec (killStep false) newTask (hangupThenKill 0) = some t ∧
      hasKill t.pending = true ∧ (deliver t true false).phase ≠ .dead ∧
      (deliver t false false).phase ≠ .dead ∧ (deliver t false false).pending = t.pending) ∧
    (∃ t, exec (killStep false) newTask
        (hangupThenKill (sigBit sigkill) ++ [.deliver true]) = some t ∧
      hasKill t.blocked = true ∧ hasKill t.pending = true ∧ t.pick = none) := by
  constructor
  · exact exists_of_any _ _ _ _
  · exact exists_of_any _ _ _ _

end Makaos.Signal
