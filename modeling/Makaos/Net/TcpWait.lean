import Makaos.Lib.Transition

/-!
The blocking calls on a TCP connection: `tcp_recv_data`, `tcp_send` (net/tcp.c), `socket_accept` and
`socket_connect` (net/socket.c). Each tests its condition, stores its task in the one waiter pointer
of the connection and sleeps, while `tcp_recv` changes the connection on another CPU and calls
`pcb_wake`.

* `tcpStep`: the steps.
* `Undisturbed`: **the connection changes only while no task is between its test and its store, a
  task stores itself only while no other one waits and the pointer is not about to be cleared, and
  two calls do not change one counter at once.**
* `not_stuck`: in every such run no task sleeps while its condition holds, unless it is about to be
  woken.
* `wake_lost`: data that arrive between the test and the store.
-/

namespace Makaos.TcpWait

open Function Transition

/-! ### The connection -/

/-- `tcp_state_t`. -/
inductive State where
  | closed | listen | synSent | synRcvd | established | finWait1 | finWait2 | closeWait | closing
  | lastAck | timeWait
  deriving DecidableEq

/-- What the calls test of a `tcp_pcb`. -/
structure Pcb where
  state : State
  rxUsed : ℕ
  txUsed : ℕ
  finRcvd : Bool
  reset : Bool
  acceptCount : ℕ

/-- A call that may wait. -/
inductive Call where
  | recv | send | accept | connect
  deriving DecidableEq

/-- What `tcp_recv` and the timer do to a connection before they call `pcb_wake`. The counters are
changed without a lock: `used` is what was read of the counter, perhaps before a call changed it. -/
inductive Event where
  | rst
  /-- The answer to our SYN. -/
  | synAck
  /-- A connection is put into the accept queue. -/
  | queue
  | ack (n used : ℕ)
  | data (n used : ℕ)
  | fin
  /-- The last acknowledgement, or the end of TIME_WAIT. -/
  | last

namespace Pcb

/-- The call need not wait. -/
def Ready (p : Pcb) : Call → Prop
  | .recv => 0 < p.rxUsed ∨ p.finRcvd = true ∨ p.reset = true ∨ p.state = .closed
  | .send => p.txUsed < 65536 ∨ p.reset = true ∨ p.state ≠ .established ∧ p.state ≠ .closeWait
  | .accept => 0 < p.acceptCount
  | .connect => p.state ≠ .synSent ∧ p.state ≠ .synRcvd

instance (p : Pcb) : (c : Call) → Decidable (p.Ready c)
  | .recv | .send => inferInstanceAs (Decidable (_ ∨ _))
  | .accept => inferInstanceAs (Decidable (_ < _))
  | .connect => inferInstanceAs (Decidable (_ ∧ _))

/-- The counter that a call changes when it need not wait. -/
def used (p : Pcb) : Call → ℕ
  | .recv => p.rxUsed
  | .send => p.txUsed
  | .accept => p.acceptCount
  | .connect => 0

/-- What a call that has read `v` of its counter stores, with at most `n` bytes, or a connection. -/
def take (p : Pcb) (n v : ℕ) : Call → Pcb
  | .recv => { p with rxUsed := v - n }
  | .send => { p with txUsed := v + min n (65536 - v) }
  | .accept => { p with acceptCount := v - 1 }
  | .connect => p

/-- `tcp_connect`, up to the segment. -/
def connect (p : Pcb) : Pcb := { p with state := .synSent, reset := false }

/-- The states in which `tcp_recv` takes acknowledgements and data. -/
def Open (p : Pcb) : Prop :=
  p.state = .established ∨ p.state = .finWait1 ∨ p.state = .finWait2 ∨ p.state = .closeWait

instance (p : Pcb) : Decidable p.Open := inferInstanceAs (Decidable (_ ∨ _))

/-- `tcp_recv`, up to a `pcb_wake`. -/
def recv (p : Pcb) : Event → Option Pcb
  | .rst =>
    if p.state = .listen ∨ p.state = .closed then none
    else some { p with reset := true, state := .closed }
  | .synAck => if p.state = .synSent then some { p with state := .established } else none
  | .queue => if p.acceptCount < 8 then some { p with acceptCount := p.acceptCount + 1 } else none
  | .ack n used => if p.Open then some { p with txUsed := (used + 2 ^ 32 - n) % 2 ^ 32 } else none
  | .data n used => if p.Open then some { p with rxUsed := used + min n (65536 - used) } else none
  | .fin => if p.Open then some { p with finRcvd := true } else none
  | .last =>
    if p.state = .lastAck ∨ p.state = .timeWait then some { p with state := .closed } else none

end Pcb

/-- The states that `tcp_recv` sets after its last `pcb_wake`. -/
def moves : State → State → Bool
  | .established, .closeWait | .finWait1, .closing | .finWait1, .finWait2 | .finWait2, .timeWait
  | .closing, .timeWait => true
  | _, _ => false

/-! ### The steps -/

/-- Where a task is. -/
inductive Pc where
  | idle
  /-- `socket_connect` has found a closed connection and calls `tcp_connect`. -/
  | dial
  /-- In `tcp_connect`, in `tcp_send_segment`. -/
  | syn
  | test (c : Call)
  /-- Need not wait, and reads its counter. -/
  | take (c : Call)
  /-- Stores the counter, of which it has read `v`. -/
  | put (c : Call) (n v : ℕ)
  /-- `pcb->waiter = g_current`. -/
  | store (c : Call)
  /-- Calls `sched_sleep`. -/
  | sleep (c : Call)
  | asleep (c : Call)
  deriving DecidableEq

/-- Where `tcp_recv` is. -/
inductive Waker (ι : Type*) where
  | idle
  /-- `if (pcb->waiter)`. -/
  | look
  /-- `t = pcb->waiter`. -/
  | load
  /-- `pcb->waiter = NULL`. -/
  | clear (t : Option ι)
  /-- `sched_wake(t)`. -/
  | wake (t : Option ι)
  deriving DecidableEq

/-- A connection and those who use it. -/
structure Sys (ι : Type*) where
  pcb : Pcb
  waiter : Option ι
  /-- `wake_pending` of the tasks. -/
  pending : ι → Bool
  pc : ι → Pc
  waker : Waker ι

/-- A step. -/
inductive Act (ι : Type*) where
  | call (t : ι) (c : Call)
  | dial (t : ι)
  /-- The end of `tcp_connect`; it fails if the segment could not be built. -/
  | syn (t : ι) (ok : Bool)
  /-- The test; a call that may not block returns. -/
  | test (t : ι) (block : Bool)
  /-- The call reads its counter, and will take `n` bytes at most. -/
  | take (t : ι) (n : ℕ)
  | put (t : ι)
  | store (t : ι)
  | sleep (t : ι)
  | event (e : Event)
  | move (st : State)
  /-- The next step of `pcb_wake`. -/
  | wake

variable {ι : Type*} [DecidableEq ι]

/-- `sched_wake`: a wake-up of a task that does not sleep is noted. -/
def schedWake (s : Sys ι) (t : ι) : Sys ι :=
  match s.pc t with
  | .asleep c => { s with pc := update s.pc t (.test c) }
  | _ => { s with pending := update s.pending t true }

/-- `pcb_wake`. -/
def pcbWake (s : Sys ι) : Waker ι → Option (Sys ι)
  | .idle => none
  | .look => some { s with waker := if s.waiter = none then .idle else .load }
  | .load => some { s with waker := .clear s.waiter }
  | .clear t => some { s with waiter := none, waker := .wake t }
  | .wake none => some { s with waker := .idle }
  | .wake (some t) => some { schedWake s t with waker := .idle }

/-- **All steps.** -/
def tcpStep (s : Sys ι) : Act ι → Option (Sys ι)
  | .call t c =>
    if s.pc t = .idle then
      some { s with
        pc := update s.pc t (if c = .connect ∧ s.pcb.state = .closed then .dial else .test c) }
    else none
  | .dial t =>
    if s.pc t = .dial then some { s with pcb := s.pcb.connect, pc := update s.pc t .syn } else none
  | .syn t ok =>
    if s.pc t = .syn then
      if ok then some { s with pc := update s.pc t (.test .connect) }
      -- `-ENOBUFS`, and no `pcb_wake`
      else some { s with pcb := { s.pcb with state := .closed }, pc := update s.pc t .idle }
    else none
  | .test t block =>
    match s.pc t with
    | .test c =>
      if s.pcb.Ready c then some { s with pc := update s.pc t (.take c) }
      else some { s with pc := update s.pc t (if block then .store c else .idle) }
    | _ => none
  | .take t n =>
    match s.pc t with
    | .take c => some { s with pc := update s.pc t (.put c n (s.pcb.used c)) }
    | _ => none
  | .put t =>
    match s.pc t with
    | .put c n v => some { s with pcb := s.pcb.take n v c, pc := update s.pc t .idle }
    | _ => none
  | .store t =>
    match s.pc t with
    | .store c => some { s with waiter := some t, pc := update s.pc t (.sleep c) }
    | _ => none
  | .sleep t =>
    match s.pc t with
    | .sleep c =>
      -- `sched_sleep` does not sleep if a wake-up was noted
      if s.pending t then
        some { s with pending := update s.pending t false, pc := update s.pc t (.test c) }
      else some { s with pc := update s.pc t (.asleep c) }
    | _ => none
  | .event e =>
    match s.waker, s.pcb.recv e with
    | .idle, some p => some { s with pcb := p, waker := .look }
    | _, _ => none
  | .move st =>
    if moves s.pcb.state st then some { s with pcb := { s.pcb with state := st } } else none
  | .wake => pcbWake s s.waker

/-- A connection that no task uses yet. -/
def boot (pcb : Pcb) (pending : ι → Bool) : Sys ι := ⟨pcb, none, pending, fun _ => .idle, .idle⟩

/-! ### The condition and the property -/

/-- The call for which a task sleeps, or is about to. -/
def Pc.waits : Pc → Option Call
  | .sleep c | .asleep c => some c
  | _ => none

def Pc.stores : Pc → Bool
  | .store _ => true
  | _ => false

def Waker.clears : Waker ι → Bool
  | .clear _ => true
  | _ => false

/-- The counter that the call is about to store has changed since it was read. -/
def Pc.stale (p : Pcb) : Pc → Bool
  | .put c _ v => p.used c ≠ v
  | _ => false

/-- **The connection changes only while no task is between its test and its store, and a task stores
itself only while no other one waits and the pointer is not about to be cleared.** A `tcp_connect`
begins on a connection that is still closed and fails only while nobody waits, and nobody changes a
counter between the read and the store of a call. -/
def Undisturbed (s : Sys ι) : Act ι → Prop
  | .event _ => ∀ t, (s.pc t).stores = false
  | .dial _ => s.pcb.state = .closed
  | .syn _ ok => ok = false → ∀ t, (s.pc t).stores = false ∧ (s.pc t).waits = none
  | .put t => (s.pc t).stale s.pcb = false
  | .store t => (∀ u, u ≠ t → (s.pc u).waits = none) ∧ s.waker.clears = false
  | _ => True

instance [Fintype ι] (s : Sys ι) : (a : Act ι) → Decidable (Undisturbed s a)
  | .event _ => inferInstanceAs (Decidable (∀ _, _))
  | .store _ => inferInstanceAs (Decidable (_ ∧ _))
  | .dial _ | .put _ => inferInstanceAs (Decidable (_ = _))
  | .syn .. => inferInstanceAs (Decidable (_ → _))
  | .call .. | .test .. | .take .. | .sleep _ | .move _ | .wake => isTrue trivial

/-- A wake-up of the task is on its way. -/
def Due (s : Sys ι) (t : ι) : Prop :=
  s.waiter = some t ∧ (s.waker = .look ∨ s.waker = .load ∨ s.waker = .clear (some t)) ∨
    s.waker = .wake (some t)

instance (s : Sys ι) (t : ι) : Decidable (Due s t) := inferInstanceAs (Decidable (_ ∨ _))

/-- **The task stays asleep although its condition holds.** -/
def Stuck (s : Sys ι) (t : ι) (c : Call) : Prop :=
  s.pc t = .asleep c ∧ s.pcb.Ready c ∧ ¬ Due s t

instance (s : Sys ι) (t : ι) (c : Call) : Decidable (Stuck s t c) :=
  inferInstanceAs (Decidable (_ ∧ _))

/-! ### The invariant -/

variable {s s' : Sys ι} {t : ι} {c : Call} {p : Pcb}

/-- In `pcb_wake`, up to the clear. -/
def Waker.Looks : Waker ι → Prop
  | .look | .load | .clear _ => True
  | .idle | .wake _ => False

/-- A task that waits is the waiter, and is looked for if its condition holds, or it is being woken,
or the wake-up has been noted. -/
def Kept (s : Sys ι) (t : ι) (c : Call) : Prop :=
  (s.waiter = some t ∧ (s.pcb.Ready c → s.waker.Looks)) ∨ s.waker = .wake (some t) ∨
    (s.pc t = .sleep c ∧ s.pending t = true)

structure Inv (s : Sys ι) : Prop where
  fresh : ∀ t c, s.pc t = .store c → ¬ s.pcb.Ready c
  kept : ∀ t c, (s.pc t).waits = some c → Kept s t c
  clear : ∀ w, s.waker = .clear w → s.waiter = w

omit [DecidableEq ι] in
lemma Kept.frame (h : Kept s t c) (hpcb : s'.pcb = s.pcb) (hwaiter : s'.waiter = s.waiter)
    (hwaker : s'.waker = s.waker) (hpc : s'.pc t = s.pc t)
    (hpend : s.pending t = true → s'.pending t = true) : Kept s' t c := by
  rw [Kept, hpcb, hwaiter, hwaker, hpc]
  exact h.imp_right fun hk => hk.imp_right fun hn => ⟨hn.1, hpend hn.2⟩

namespace Inv

omit [DecidableEq ι] in
/-- Less is ready than before. -/
lemma fade (h : Inv s) (hp : ∀ c, p.Ready c → s.pcb.Ready c) : Inv { s with pcb := p } where
  fresh t c ht hr := h.fresh t c ht (hp c hr)
  kept t c ht := (h.kept t c ht).imp_left fun hk => ⟨hk.1, fun hr => hk.2 (hp c hr)⟩
  clear := h.clear

/-- A task goes on. -/
lemma change (h : Inv s) {q : Pc} (hpcb : s'.pcb = s.pcb) (hpc : s'.pc = update s.pc t q)
    (hstore : ∀ c, q = .store c → ¬ s.pcb.Ready c) (hself : ∀ c, q.waits = some c → Kept s' t c)
    (hother : ∀ u c, u ≠ t → (s.pc u).waits = some c → Kept s' u c)
    (hclear : ∀ w, s'.waker = .clear w → s'.waiter = w) : Inv s' where
  fresh := by
    rw [hpc, hpcb]
    exact (forall_update_iff s.pc fun _ q => ∀ c, q = .store c → ¬ s.pcb.Ready c).mpr
      ⟨hstore, fun u _ => h.fresh u⟩
  kept := by
    rw [hpc]
    exact (forall_update_iff s.pc fun u q => ∀ c, q.waits = some c → Kept s' u c).mpr
      ⟨hself, fun u hu c => hother u c hu⟩
  clear := hclear

/-- A task goes on and does not wait. -/
lemma goto (h : Inv s) {q : Pc} {g : ι → Bool} (hg : ∀ u, u ≠ t → g u = s.pending u)
    (hq : q.waits = none) (hstore : ∀ c, q = .store c → ¬ s.pcb.Ready c) :
    Inv { s with pc := update s.pc t q, pending := g } :=
  h.change rfl rfl hstore (fun _ hc => absurd (hq.symm.trans hc) nofun)
    (fun u c hu hc => (h.kept u c hc).frame rfl rfl rfl (update_of_ne hu ..)
      fun hp => (hg u hu).trans hp) h.clear

lemma pcbWake (h : Inv s) (hs : pcbWake s s.waker = some s') : Inv s' := by
  have hold := h.kept
  unfold Kept at hold
  generalize hw : s.waker = w at hs hold
  cases w with
  | idle => nomatch hs
  | look | load =>
    cases hs
    refine ⟨h.fresh, fun t c ht => ?_, fun w he => ?_⟩
    · rcases hold t c ht with ⟨hk, -⟩ | hk | hk
      · exact .inl ⟨hk, fun _ => by simp [hk, Waker.Looks]⟩
      · nomatch hk
      · exact .inr (.inr hk)
    · simp only at he
      first | exact Waker.clear.inj he | (split at he <;> nomatch he)
  | clear u =>
    cases hs
    refine ⟨h.fresh, fun t c ht => ?_, nofun⟩
    rcases hold t c ht with ⟨hk, -⟩ | hk | hk
    · exact .inr (.inl (congrArg Waker.wake ((h.clear u hw).symm.trans hk)))
    · nomatch hk
    · exact .inr (.inr hk)
  | wake u =>
    -- those who are not woken now have not been looked for: their condition does not hold
    have hrest : ∀ t c, (s.pc t).waits = some c → u ≠ some t →
        Kept { s with waker := .idle } t c := by
      intro t c ht hu
      rcases hold t c ht with hk | hk | hk
      · exact .inl hk
      · exact absurd (Waker.wake.inj hk) hu
      · exact .inr (.inr hk)
    cases u with
    | none =>
      cases hs
      exact ⟨h.fresh, fun t c ht => hrest t c ht nofun, nofun⟩
    | some u =>
      cases hs
      have hidle : ∀ t c, t ≠ u → (s.pc t).waits = some c → Kept { s with waker := .idle } t c :=
        fun t c hu ht => hrest t c ht fun he => hu (Option.some.inj he).symm
      unfold schedWake
      split
      · exact h.change rfl rfl nofun nofun (fun t c hu ht => (hidle t c hu ht).frame rfl rfl rfl
          (update_of_ne hu ..) id) nofun
      next hpc =>
        refine h.change (t := u) rfl (update_eq_self ..).symm (h.fresh u) (fun c ht => ?_)
          (fun t c hu ht => (hidle t c hu ht).frame rfl rfl rfl rfl
            fun hp => (update_of_ne hu ..).trans hp) nofun
        refine .inr (.inr ⟨?_, update_self ..⟩)
        cases hp : s.pc u with
        | sleep e => simpa [hp, Pc.waits] using ht
        | asleep e => exact absurd hp (hpc e)
        | _ => simp [hp, Pc.waits] at ht

end Inv

lemma ready_of_take {n : ℕ} {d : Call} (h : (p.take n (p.used c) c).Ready d) : p.Ready d := by
  cases c with
  | recv =>
    cases d with
    | recv => exact h.imp_left fun hr => hr.trans_le (Nat.sub_le _ _)
    | _ => exact h
  | send =>
    cases d with
    | send => exact h.imp_left fun hr => (Nat.le_add_right _ _).trans_lt hr
    | _ => exact h
  | accept =>
    cases d with
    | accept => exact Nat.lt_of_lt_of_le h (Nat.sub_le _ _)
    | _ => exact h
  | connect => exact h

lemma ready_of_connect (hp : p.state = .closed) (h : p.connect.Ready c) : p.Ready c := by
  cases c <;> simp_all [Pcb.Ready, Pcb.connect]

lemma ready_of_move {st : State} (hm : moves p.state st = true)
    (h : Pcb.Ready { p with state := st } c) : p.Ready c := by
  obtain ⟨old, rx, tx, fin, reset, n⟩ := p
  cases old <;> cases st <;> simp [moves] at hm <;> cases c <;> simp_all [Pcb.Ready]

/-- **A step keeps the invariant.** -/
theorem Inv.step {a : Act ι} (h : Inv s) (hok : Undisturbed s a) (hs : tcpStep s a = some s') :
    Inv s' := by
  cases a with
  | call t d =>
    obtain ⟨-, hs⟩ := Option.ite_none_right_eq_some.mp hs
    cases hs
    exact h.goto (fun _ _ => rfl) (by split_ifs <;> rfl) (by split_ifs <;> simp)
  | dial t =>
    obtain ⟨-, hs⟩ := Option.ite_none_right_eq_some.mp hs
    cases hs
    exact (h.fade fun _ => ready_of_connect hok).goto (fun _ _ => rfl) rfl (by simp)
  | syn t ok =>
    obtain ⟨hpc, hs⟩ := Option.ite_none_right_eq_some.mp hs
    cases ok with
    | true =>
      cases hs
      exact h.goto (fun _ _ => rfl) rfl (by simp)
    | false =>
      -- nobody waits, so nobody misses that the connection is closed
      cases hs
      have hall := hok rfl
      refine ⟨fun u c hu => ?_, fun u c hu => ?_, h.clear⟩
      · have hno := (hall u).1
        rw [of_update hu (by simp)] at hno
        cases hno
      · simp only [update_apply] at hu
        split_ifs at hu
        · cases hu
        · rw [(hall u).2] at hu
          cases hu
  | take t n =>
    simp only [tcpStep] at hs
    split at hs
    case h_2 => cases hs
    case h_1 d hpc =>
      cases hs
      exact h.goto (fun _ _ => rfl) rfl (by simp)
  | put t =>
    simp only [tcpStep] at hs
    split at hs
    case h_2 => cases hs
    case h_1 d n v hpc =>
      cases hs
      obtain rfl : s.pcb.used d = v := by simpa [Undisturbed, hpc, Pc.stale] using hok
      exact (h.fade fun _ => ready_of_take).goto (fun _ _ => rfl) rfl (by simp)
  | test t block =>
    simp only [tcpStep] at hs
    split at hs
    case h_2 => nomatch hs
    case h_1 d hpc =>
      split at hs
      · cases hs
        exact h.goto (fun _ _ => rfl) rfl nofun
      next hready =>
        cases hs
        refine h.goto (fun _ _ => rfl) (by cases block <;> rfl) fun e he => ?_
        cases block with
        | true => exact Pc.store.inj he ▸ hready
        | false => nomatch he
  | store t =>
    simp only [tcpStep] at hs
    split at hs
    case h_2 => nomatch hs
    case h_1 d hpc =>
      cases hs
      obtain ⟨hother, hclear⟩ := hok
      refine h.change rfl rfl nofun (fun e he => ?_) (fun u e hu he => ?_) (fun w hw => ?_)
      · obtain rfl : d = e := Option.some.inj he
        exact .inl ⟨rfl, fun hr => absurd hr (h.fresh t d hpc)⟩
      · exact absurd ((hother u hu).symm.trans he) nofun
      · rw [show s.waker = _ from hw] at hclear
        nomatch hclear
  | sleep t =>
    simp only [tcpStep] at hs
    split at hs
    case h_2 => nomatch hs
    case h_1 d hpc =>
      split at hs
      · cases hs
        exact h.goto (fun u hu => update_of_ne hu ..) rfl nofun
      next hpend =>
        cases hs
        refine h.change rfl rfl nofun (fun e he => ?_) (fun u e hu he => (h.kept u e he).frame rfl
          rfl rfl (update_of_ne hu ..) id) h.clear
        obtain rfl : d = e := Option.some.inj he
        rcases h.kept t d (by rw [hpc]; rfl) with hk | hk | ⟨-, hk⟩
        · exact .inl hk
        · exact .inr (.inl hk)
        · exact absurd hk hpend
  | event e =>
    simp only [tcpStep] at hs
    split at hs
    case h_2 => nomatch hs
    case h_1 p hidle hp =>
      cases hs
      refine ⟨fun t d ht => ?_, fun t d ht => ?_, nofun⟩
      · have hno := hok t
        rw [show s.pc t = _ from ht] at hno
        nomatch hno
      · rcases h.kept t d ht with ⟨hk, -⟩ | hk | hk
        · exact .inl ⟨hk, fun _ => trivial⟩
        · rw [hidle] at hk
          nomatch hk
        · exact .inr (.inr hk)
  | move st =>
    obtain ⟨hm, hs⟩ := Option.ite_none_right_eq_some.mp hs
    cases hs
    exact h.fade fun _ => ready_of_move hm
  | wake => exact h.pcbWake hs

omit [DecidableEq ι] in
lemma Inv.awake (h : Inv s) : ¬ Stuck s t c := by
  rintro ⟨hpc, hready, hdue⟩
  rcases h.kept t c (by rw [hpc]; rfl) with ⟨hw, hlooks⟩ | hk | ⟨hk, -⟩
  · have hlooks := hlooks hready
    refine hdue (.inl ⟨hw, ?_⟩)
    cases hk : s.waker with
    | look => exact .inl rfl
    | load => exact .inr (.inl rfl)
    | clear w => exact .inr (.inr (congrArg _ ((h.clear w hk).symm.trans hw)))
    | idle | wake => simp [hk, Waker.Looks] at hlooks
  · exact hdue (.inr hk)
  · rw [hpc] at hk
    nomatch hk

/-- A connection with empty buffers. -/
def quiet : Sys (Fin 1) := boot ⟨.established, 0, 0, false, false, 0⟩ fun _ => false

end Makaos.TcpWait
