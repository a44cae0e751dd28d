import Makaos.Proc.Signal

/-!
A signal handler is transparent, if it is not interrupted by another one and the system call it
interrupts returns 0.

* `Held`: the frame of the running handler, in memory.
* `handlers_transparent`: **in every flat run every return from a handler brings back the context
  that the handler has interrupted.**
* `handlers_not_transparent`: after the return of an inner handler the outer one cannot return, and
  the result of an interrupted system call is lost.
-/

namespace Makaos.Signal

open Function Transition Option List BitVec
open WordMemory

/-! ### The frame in memory -/

@[simp] lemma Sigframe.words_length (f : Sigframe) : f.words.length = 10 := rfl

/-- **The frame is read as it was written.** -/
lemma Sigframe.ofWords_words (f : Sigframe) : Sigframe.ofWords f.words = some f := by
  simp [Sigframe.words, Sigframe.ofWords]

lemma load_update_below (mem : BitVec 64 → BitVec 64) (base w : BitVec 64) :
    load (update mem (base - 8) w) base 10 = load mem base 10 := by
  refine load_congr fun k hk => update_of_ne (fun heq => ?_) _ _
  have hne : wordAt (base - 8) (k + 1) ≠ base - 8 := wordAt_ne_base (Nat.succ_pos k) (by omega)
  refine hne ?_
  rwa [← wordAt_succ, sub_add_cancel]

lemma load_frame (mem : BitVec 64 → BitVec 64) (base w : BitVec 64) (f : Sigframe) :
    Sigframe.ofWords (load (update (store mem base f.words) (base - 8) w) base 10) = some f := by
  rw [load_update_below]
  have hload : load (store mem base f.words) base f.words.length = f.words := load_store (by simp)
  rw [Sigframe.words_length] at hload
  rw [hload, Sigframe.ofWords_words]

/-- A frame that may be written may be read. -/
lemma accessOk_of_range {base : BitVec 64} (h : sigUserRangeOk (base - 8) (frameSize + 8) = true) :
    base ≠ 0 ∧ accessOk base frameSize = true := by
  have hceil : userAddrCeil = 0x800000000000 := rfl
  have h' := of_decide_eq_true h
  have goal : base ≠ 0 ∧ (base ≠ 0 ∧ base < hhdmOffset ∧ ¬ (base + frameSize < base) ∧
      ¬ (hhdmOffset < base + frameSize)) := by
    simp only [frameSize, hceil, hhdmOffset] at h' ⊢
    bv_omega
  obtain ⟨h0, -, hlt, hwrap, hend⟩ := goal
  rw [accessOk, if_neg h0, if_neg (BitVec.not_le.mpr hlt), if_neg (hwrap ·.2), if_neg (hend ·.2)]
  exact ⟨h0, rfl⟩

/-! ### Masks -/

/-- The flags that the kernel sets are not among those of the user. -/
lemma flags_restored (x : BitVec 64) :
    ((x &&& userFlags) ||| 0x202) &&& userFlags = x &&& userFlags := by
  have hzero : (0x202 : BitVec 64) &&& userFlags = 0 := by decide
  rw [BitVec.and_or_distrib_right, BitVec.and_assoc, BitVec.and_self, hzero]
  exact BitVec.or_zero

lemma mask_restored {w : ℕ} {x m : BitVec w} (h : x &&& m = 0) : x &&& ~~~ m = x := by
  calc x &&& ~~~ m = (x &&& m) ||| (x &&& ~~~ m) := by rw [h]; exact zero_or.symm
    _ = x := by rw [← and_or_distrib_left]; simp

/-! ### The frame of the running handler -/

/-- **The frame of the one handler that has not returned.** -/
structure Held (t : Task) (c : Context) : Prop where
  saved : t.saved = [c]
  frame : Sigframe.ofWords (load t.mem t.sigframeRsp 10) = some c.frame
  base : t.sigframeRsp ≠ 0
  access : accessOk t.sigframeRsp frameSize = true
  rip : c.frame.rip < userAddrCeil
  rsp : c.frame.rsp < userAddrCeil
  mask : c.frame.blocked &&& sigBit sigkill = 0
  rax : c.rax = 0

/-- No handler is running, or one. -/
def Inv (t : Task) : Prop := t.saved = [] ∨ ∃ c, Held t c

variable {t t' : Task} {c : Context}

lemma Held.congr (h : Held t c) (hsaved : t'.saved = t.saved)
    (hrsp : t'.sigframeRsp = t.sigframeRsp)
    (hload : load t'.mem t.sigframeRsp 10 = load t.mem t.sigframeRsp 10) : Held t' c where
  __ := h
  saved := hsaved.trans h.saved
  frame := by rw [hrsp, hload]; exact h.frame
  base := hrsp ▸ h.base
  access := hrsp ▸ h.access

lemma Inv.congr (h : Inv t) (hsaved : t'.saved = t.saved) (hrsp : t'.sigframeRsp = t.sigframeRsp)
    (hload : t.saved ≠ [] → load t'.mem t.sigframeRsp 10 = load t.mem t.sigframeRsp 10) :
    Inv t' := by
  rcases h with h | ⟨c, h⟩
  · exact .inl (hsaved.trans h)
  · exact .inr ⟨c, h.congr hsaved hrsp (hload (by simp [h.saved]))⟩

/-! ### Delivery -/

/-- A handler is entered: its frame is in memory, and its address is remembered. -/
structure Entered (t t' : Task) : Prop where
  saved : t'.saved = ⟨t.frame, t.rax⟩ :: t.saved
  rsp : t'.sigframeRsp = t.frameBase
  mem : ∃ w, t'.mem = update (store t.mem t.frameBase t.frame.words) (t.frameBase - 8) w
  range : sigUserRangeOk (t.frameBase - 8) (frameSize + 8) = true

/-- Memory, the address of the frame and the books are as before. -/
structure Aside (t t' : Task) : Prop where
  saved : t'.saved = t.saved
  rsp : t'.sigframeRsp = t.sigframeRsp
  mem : t'.mem = t.mem

lemma setupFrame_spec (t : Task) (sig : ℕ) (ka : Sigaction) :
    Aside t (setupFrame t sig ka) ∨ Entered t (setupFrame t sig ka) := by
  simp only [setupFrame]
  split
  · exact .inl ⟨rfl, rfl, rfl⟩
  next hrange =>
      split
      · exact .inl ⟨rfl, rfl, rfl⟩
      · split
        · exact .inl ⟨rfl, rfl, rfl⟩
        · exact .inr ⟨rfl, rfl, ⟨_, rfl⟩, by simpa using hrange⟩

/-- **A delivery leaves the frames alone, or enters the handler of a caught signal.** -/
lemma deliverPending_spec (t : Task) :
    Aside t (deliverPending t) ∨ (t.catches.isSome ∧ Entered t (deliverPending t)) := by
  rw [deliverPending]
  cases hpick : t.pick with
  | none => exact .inl ⟨rfl, rfl, rfl⟩
  | some sig =>
    simp only
    split
    · exact .inl ⟨rfl, rfl, rfl⟩
    next hign =>
        split
        · exact .inl ⟨rfl, rfl, rfl⟩
        · split
          case isFalse => exact .inl ⟨rfl, rfl, rfl⟩
          case isTrue hdfl =>
              rcases setupFrame_spec { t with pending := t.pending &&& ~~~ sigBit sig } sig
                (t.action sig) with h | h
              · exact .inl ⟨h.saved, h.rsp, h.mem⟩
              · refine .inr ⟨?_, h.saved, h.rsp, h.mem, h.range⟩
                simp [Task.catches, hpick, hdfl, hign]

lemma Entered.held (h : Entered t t') (hsaved : t.saved = []) (hrax : t.rax = 0)
    (hrip : t.kf.rip < userAddrCeil) (hrsp : t.kf.rsp < userAddrCeil)
    (hmask : t.blocked &&& sigBit sigkill = 0) : Held t' ⟨t.frame, t.rax⟩ := by
  obtain ⟨w, hmem⟩ := h.mem
  obtain ⟨hne, haccess⟩ := accessOk_of_range h.range
  exact
    { saved := by rw [h.saved, hsaved]
      frame := by rw [h.rsp, hmem]; exact load_frame ..
      base := h.rsp ▸ hne
      access := h.rsp ▸ haccess
      rip := hrip
      rsp := hrsp
      mask := hmask
      rax := hrax }

/-! ### The return -/

/-- **A return from the running handler brings its context back.** -/
lemma sysSigreturn_restores (h : Held t c) : Restored c (sysSigreturn t) := by
  have hcond : ¬ (userAddrCeil ≤ c.frame.rip ∨ userAddrCeil ≤ c.frame.rsp) := by
    rintro (hle | hle)
    · exact absurd h.rip (BitVec.not_lt.mpr hle)
    · exact absurd h.rsp (BitVec.not_lt.mpr hle)
  rw [sysSigreturn, if_neg h.base, h.access, h.frame]
  simp only [Bool.not_true, Bool.false_eq_true, if_false, if_neg hcond]
  exact
    { rip := rfl
      rsp := rfl
      rflags := flags_restored _
      rbp := rfl
      rbx := rfl
      r12 := rfl
      r13 := rfl
      r14 := rfl
      r15 := rfl
      blocked := mask_restored h.mask
      rax := h.rax.symm }

/-! ### Runs -/

lemma Inv.step {a : Act} (h : Inv t) (hok : Flat t a) (hs : signalStep t a = some t') : Inv t' := by
  cases a with
  | syscall u rax blocked handlers =>
    simp only [signalStep] at hs
    split at hs
    case isFalse => nomatch hs
    case isTrue =>
        cases hs
        exact h.congr rfl rfl hok
  | sigreturn u =>
    simp only [signalStep] at hs
    split at hs
    case isFalse => nomatch hs
    case isTrue =>
        cases hs
        refine .inl ?_
        rcases h with h | ⟨c, h⟩
        · exact congrArg tail h
        · exact congrArg tail h.saved
  | deliver =>
    simp only [signalStep] at hs
    split at hs
    case isFalse => nomatch hs
    case isTrue =>
        cases hs
        rcases deliverPending_spec { t with phase := .user } with haside | ⟨hcatch, hentered⟩
        · refine h.congr haside.saved haside.rsp fun _ => ?_
          rw [haside.mem]
        · obtain ⟨hsaved, hrax, hrip, hrsp, hmask⟩ := hok hcatch
          exact .inr ⟨_, hentered.held hsaved hrax hrip hrsp hmask⟩

/-- **In every flat run every return from a handler succeeds and brings back the context that the
handler has interrupted.** -/
theorem handlers_transparent {t₀ : Task} {acts : List Act} {rest : List Context} {u : User}
    (h₀ : t₀.saved = []) (hrun : exec signalStep t₀ acts = some t)
    (hok : Meets signalStep Flat t₀ acts) (hsaved : t.saved = c :: rest)
    (hphase : t.phase = .user) (hu : Flat t (.sigreturn u)) :
    ∃ t', signalStep t (.sigreturn u) = some t' ∧ Restored c t' ∧ t'.saved = rest := by
  have hinv : Inv t := exec_invariant Inv.step hrun hok (.inl h₀)
  rcases hinv with hnone | ⟨c', h⟩
  · rw [hnone] at hsaved
    nomatch hsaved
  · obtain ⟨rfl, rfl⟩ : c' = c ∧ [] = rest := by simpa [h.saved] using hsaved
    have hheld : Held (t.enter u) c' := h.congr rfl rfl (hu (by simp [h.saved]))
    have hback := sysSigreturn_restores hheld
    refine ⟨_, if_pos hphase, ?_, congrArg tail h.saved⟩
    exact { hback with }

/-! ### Two runs -/

/-- Signals 10 and 12 have handlers. -/
def handlersFor (sig : ℕ) : Sigaction :=
  if sig = 10 ∨ sig = 12 then ⟨0x401000, 0x402000, 0⟩ else ⟨sigDfl, 0, 0⟩

/-- The registers of user code at `rip` with its stack at `rsp`. -/
def regs (rip rsp : BitVec 64) : Kframe := ⟨rip, rsp, 0x246, 1, 2, 3, 4, 5, 6, 7⟩

/-- A system call that returns `rax`, with signal 10 pending. -/
def interrupted (rax : BitVec 64) : Task where
  phase := .leaving
  mem _ := 0
  vma _ := true
  kf := regs 0x400100 0x7000000
  rax := rax
  pending := sigBit 10
  blocked := 0
  handlers := handlersFor
  sigframeRsp := 0
  saved := []

/-- User code at `rip` enters the kernel with the memory of `t`; `pending` has been sent to it. -/
def userAt (t : Task) (rip rsp : BitVec 64) (pending : BitVec 32) : User where
  kf := regs rip rsp
  mem := t.mem
  vma := t.vma
  pending := pending

/-- The handler of signal 10 has been entered. -/
def inHandler (rax : BitVec 64) : Task := deliverPending { interrupted rax with phase := .user }

theorem handlers_transparent_inHandler :
    ∃ t t' c, exec signalStep (interrupted 0) [.deliver] = some t ∧ t.saved = [c] ∧
      signalStep t (.sigreturn (userAt (inHandler 0) 0x402000 0x6fffff0 0)) = some t' ∧
      Restored c t' := by
  obtain ⟨t, hrun, hphase, hsaved, hu⟩ := exists_of_any signalStep (interrupted 0) [.deliver]
    (fun t => t.phase = .user ∧ t.saved = [⟨(interrupted 0).frame, 0⟩] ∧
      Flat t (.sigreturn (userAt (inHandler 0) 0x402000 0x6fffff0 0)))
  obtain ⟨t', hs, hback, -⟩ := handlers_transparent rfl hrun (by decide +kernel) hsaved hphase hu
  exact ⟨t, t', _, hrun, hsaved, hs, hback⟩

/-- The handler of signal 10 makes a system call, on whose way out signal 12 is delivered. -/
def inInner : Task :=
  deliverPending { inHandler 0 with
    kf := regs 0x401010 0x6fffe00, pending := sigBit 12, rax := 0, phase := .user }

/-- The handler of signal 12 interrupts that of signal 10 and returns. -/
def innerReturns : List Act :=
  [.deliver, .syscall (userAt (inHandler 0) 0x401010 0x6fffe00 (sigBit 12)) 0 (sigBit 10) handlersFor,
    .deliver, .sigreturn (userAt inInner 0x402000 0x6fffd00 0), .deliver]

/-- **The outer handler cannot return after the inner one has, and a handler that returns loses the
result of the system call it has interrupted.** -/
theorem handlers_not_transparent :
    (∃ t t' c, exec signalStep (interrupted 0) innerReturns = some t ∧ t.saved = [c] ∧
      t.phase = .user ∧
      signalStep t (.sigreturn (userAt inInner 0x402000 0x6fffff0 0)) = some t' ∧
      t'.rax = einval ∧ t'.kf.rip = 0x402000 ∧ ¬ Restored c t') ∧
    (∃ t t' c, exec signalStep (interrupted 5) [.deliver] = some t ∧ t.saved = [c] ∧
      c.rax = 5 ∧
      signalStep t (.sigreturn (userAt (inHandler 5) 0x402000 0x6fffff0 0)) = some t' ∧
      t'.rax = 0 ∧ ¬ Restored c t') := by
  constructor
  · obtain ⟨t, hrun, hsaved, hphase, hnext⟩ := exists_of_any signalStep (interrupted 0)
      innerReturns (fun t => t.saved = [⟨(interrupted 0).frame, 0⟩] ∧ t.phase = .user ∧
        (signalStep t (.sigreturn (userAt inInner 0x402000 0x6fffff0 0))).any (fun t' =>
          decide (t'.rax = einval ∧ t'.kf.rip = 0x402000)) = true)
    obtain ⟨t', hs, hlast⟩ := (any_eq_true _ _).mp hnext
    obtain ⟨hrax, hrip⟩ := of_decide_eq_true hlast
    refine ⟨t, t', _, hrun, hsaved, hphase, hs, hrax, hrip, fun hback => ?_⟩
    exact absurd (hrip.symm.trans hback.rip) (by decide)
  · obtain ⟨t, hrun, hsaved, hnext⟩ := exists_of_any signalStep (interrupted 5)
      [.deliver] (fun t => t.saved = [⟨(interrupted 5).frame, 5⟩] ∧
        (signalStep t (.sigreturn (userAt (inHandler 5) 0x402000 0x6fffff0 0))).any (fun t' =>
          decide (t'.rax = 0)) = true)
    obtain ⟨t', hs, hlast⟩ := (any_eq_true _ _).mp hnext
    have hrax : t'.rax = 0 := of_decide_eq_true hlast
    refine ⟨t, t', _, hrun, hsaved, rfl, hs, hrax, fun hback => ?_⟩
    exact absurd (hrax.symm.trans hback.rax) (by decide)

end Makaos.Signal
