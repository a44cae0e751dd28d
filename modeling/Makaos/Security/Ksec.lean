import Makaos.Lib.Transition

/-!
The policy channel (`kernel/security/ksec.c`): tasks in `ksec_request`, the thread that reads the
answers, and the policy agent. There is one slot for the request that waits for its answer.

* `taskRun`: `ksec_next_seq` and `ksec_request`, one access to a shared variable at a time.
* `readerRun`: `ksec_reader_thread`.
* `Orderly`: **a request is begun while no other one is in progress, and the agent answers a request
  once.**
* `Progress`: how far the request of the waiting task is.
* `answers_match`: in every orderly run a request is read once, and every answer goes to the task that
  asked.
* `answer_mixed_up`: two tasks ask at once, and one gets the answer to the other.
-/

namespace Makaos.Ksec

open Function Transition List Option

variable {τ : Type*}

/-! ### The state -/

/-- A request: its sequence number, and a number of its own for the books. -/
structure Request where
  seq : BitVec 32
  id : ℕ
  deriving DecidableEq

/-- An answer: the sequence number it echoes, the verdict, and in the books the request it answers. -/
structure Response where
  seq : BitVec 32
  verdict : ℕ
  id : ℕ
  deriving DecidableEq

/-- Where a task is. -/
inductive Pc where
  | idle
  /-- `++s_seq` has loaded the counter -/
  | seqLoaded (v : BitVec 32)
  | built (r : Request)
  /-- `s_pending.seq`, `waiter` and `done` are set, in this order -/
  | seqSet (r : Request)
  | waiterSet (r : Request)
  | doneCleared (r : Request)
  /-- the request could not be written -/
  | failed (r : Request)
  /-- in the loop that waits for `done` -/
  | waiting (r : Request)
  | copied (r : Request) (p : Response)
  | returned (r : Request) (p : Option Response)
  deriving DecidableEq

/-- Where the reader thread is with an answer. -/
inductive Reader where
  | idle
  | got (p : Response)
  | waiterSeen (p : Response)
  | seqMatched (p : Response)
  | accepted (p : Response)
  | stored (p : Response)
  | wake
  deriving DecidableEq

/-- The counter, the slot, the two pipes, and who is where. `next`, `read` and `answered` are books:
the next number for a request, the requests that the agent has read, and those it has answered. -/
structure Sys (τ : Type*) where
  counter : BitVec 32
  seq : BitVec 32
  waiter : Option τ
  resp : Response
  done : Bool
  reqs : List Request
  resps : List Response
  pc : τ → Pc
  reader : Reader
  next : ℕ
  read : List Request
  answered : List ℕ

namespace Sys

variable [DecidableEq τ]

/-- The task goes on. -/
def goto (s : Sys τ) (t : τ) (p : Pc) : Sys τ := { s with pc := update s.pc t p }

/-- `ksec_next_seq` and `ksec_request` on the next access; `ok` tells whether the request can be
written. -/
def taskRun (s : Sys τ) (t : τ) (ok : Bool) : Option (Sys τ) :=
  match s.pc t with
  | .idle => none
  | .seqLoaded v =>
    some ({ s with counter := v + 1, next := s.next + 1 }.goto t (.built ⟨v + 1, s.next⟩))
  | .built r => some ({ s with seq := r.seq }.goto t (.seqSet r))
  | .seqSet r => some ({ s with waiter := some t }.goto t (.waiterSet r))
  | .waiterSet r => some ({ s with done := false }.goto t (.doneCleared r))
  | .doneCleared r =>
    if ok then some ({ s with reqs := s.reqs ++ [r] }.goto t (.waiting r))
    else some (s.goto t (.failed r))
  | .failed r => some ({ s with waiter := none }.goto t (.returned r none))
  | .waiting r => if s.done then some (s.goto t (.copied r s.resp)) else some s
  | .copied r p => some ({ s with waiter := none }.goto t (.returned r (some p)))
  | .returned _ _ => some (s.goto t .idle)

/-- `ksec_reader_thread` on the next access. -/
def readerRun (s : Sys τ) : Option (Sys τ) :=
  match s.reader with
  | .idle =>
    match s.resps with
    | [] => none
    | p :: rest => some { s with resps := rest, reader := .got p }
  | .got p => some { s with reader := if s.waiter.isSome then .waiterSeen p else .idle }
  | .waiterSeen p => some { s with reader := if s.seq = p.seq then .seqMatched p else .idle }
  | .seqMatched p => some { s with reader := if !s.done then .accepted p else .idle }
  | .accepted p => some { s with resp := p, reader := .stored p }
  | .stored _ => some { s with done := true, reader := .wake }
  | .wake => some { s with reader := .idle }

/-- A step. -/
inductive Act (τ : Type*) where
  /-- A task begins a request. -/
  | begin (t : τ)
  | run (t : τ) (ok : Bool)
  /-- The agent reads a request, or answers one that it has read. -/
  | agentRead
  | answer (r : Request) (verdict : ℕ)
  | reader

/-- **All steps.** -/
def ksecStep (s : Sys τ) : Act τ → Option (Sys τ)
  | .begin t => if s.pc t = .idle then some (s.goto t (.seqLoaded s.counter)) else none
  | .run t ok => s.taskRun t ok
  | .agentRead =>
    match s.reqs with
    | [] => none
    | r :: rest => some { s with reqs := rest, read := s.read ++ [r] }
  | .answer r verdict =>
    if r ∈ s.read then
      some { s with
        resps := s.resps ++ [⟨r.seq, verdict, r.id⟩]
        answered := r.id :: s.answered }
    else none
  | .reader => s.readerRun

end Sys

open Sys (Act ksecStep)

/-! ### What is asked for -/

/-- The answer is one to the request, and has its sequence number. -/
def Matches (p : Response) (r : Request) : Prop := p.seq = r.seq ∧ p.id = r.id

instance (p : Response) (r : Request) : Decidable (Matches p r) := inferInstanceAs (Decidable (_ ∧ _))

/-- **The agent reads a request at most once, and a request that succeeds has got its own answer.** -/
structure Answered (s : Sys τ) : Prop where
  once : (s.read.map Request.id).Nodup
  own : ∀ t r p, s.pc t = .returned r (some p) → Matches p r

/-- No request is in progress when one is begun, and the agent answers a request once. -/
def Orderly (s : Sys τ) : Act τ → Prop
  | .begin _ => ∀ t, s.pc t = .idle
  | .answer r _ => r.id ∉ s.answered
  | _ => True

instance [Fintype τ] (s : Sys τ) : (a : Act τ) → Decidable (Orderly s a)
  | .begin _ => inferInstanceAs (Decidable (∀ t, s.pc t = .idle))
  | .answer r _ => inferInstanceAs (Decidable (r.id ∉ s.answered))
  | .run _ _ | .agentRead | .reader => inferInstanceAs (Decidable True)

/-! ### The invariant -/

/-- The answer that the reader has and that is not yet in the slot for good. -/
def Reader.hand : Reader → List Response
  | .idle | .wake => []
  | .got p | .waiterSeen p | .seqMatched p | .accepted p | .stored p => [p]

/-- The answers on their way. -/
def Sys.flight (s : Sys τ) : List Response := s.reader.hand ++ s.resps

/-- The request that a task has not written yet. -/
def Pc.unsent : Pc → Option Request
  | .built r | .seqSet r | .waiterSet r | .doneCleared r => some r
  | _ => none

/-- The agent has answered all that it has read. -/
def Sys.AllAnswered (s : Sys τ) : Prop := ∀ q ∈ s.read, q.id ∈ s.answered

/-- **How far the request of the waiting task is.** -/
inductive Progress (s : Sys τ) (r : Request) : Prop
  | queued (hreqs : s.reqs = [r]) (hflight : s.flight = []) (hdone : s.done = false)
      (hread : s.AllAnswered)
  | atAgent (hreqs : s.reqs = []) (hflight : s.flight = []) (hdone : s.done = false)
      (hread : ∀ q ∈ s.read, q.id ∉ s.answered → q = r)
  | onItsWay {p : Response} (hreqs : s.reqs = []) (hflight : s.flight = [p]) (hdone : s.done = false)
      (hread : s.AllAnswered) (hmatch : Matches p r)
      (hstored : ∀ q, s.reader = .stored q → s.resp = q)
  | there (hreqs : s.reqs = []) (hflight : s.flight = []) (hread : s.AllAnswered)
      (hmatch : Matches s.resp r)

/-- Nothing is on its way. -/
structure Quiet (s : Sys τ) : Prop where
  reqs : s.reqs = []
  flight : s.flight = []
  read : s.AllAnswered

/-- What a task knows about the slot. -/
def Sys.Knows (s : Sys τ) (t : τ) : Pc → Prop
  | .seqSet r => s.seq = r.seq
  | .waiterSet r => s.seq = r.seq ∧ s.waiter = some t
  | .doneCleared r => s.seq = r.seq ∧ s.waiter = some t ∧ s.done = false
  | .waiting r => s.seq = r.seq ∧ s.waiter = some t ∧ Progress s r
  | .copied r p | .returned r (some p) => Matches p r
  | _ => True

/-- The invariant of orderly runs. -/
structure Inv (s : Sys τ) : Prop where
  one : ∀ t t', s.pc t ≠ .idle → s.pc t' ≠ .idle → t = t'
  ids : ((s.read ++ s.reqs).map Request.id).Nodup
  older : ∀ q ∈ s.read ++ s.reqs, q.id < s.next
  unsent : ∀ t r, (s.pc t).unsent = some r → r.id < s.next ∧ ∀ q ∈ s.read ++ s.reqs, q.id ≠ r.id
  task : ∀ t, s.Knows t (s.pc t)
  quiet : (∀ t r, s.pc t ≠ .waiting r) → Quiet s

variable {s s' : Sys τ} {t : τ} {r : Request} {p : Pc} {reader' : Reader}

lemma Inv.others (h : Inv s) (ht : s.pc t ≠ .idle) {u : τ} (hu : u ≠ t) : s.pc u = .idle := by
  by_contra hne
  exact hu (h.one u t hne ht)

lemma Inv.quiet_of (h : Inv s) (ht : s.pc t ≠ .idle) (hnot : ∀ r, s.pc t ≠ .waiting r) :
    Quiet s := by
  refine h.quiet fun u r hu => ?_
  by_cases hut : u = t
  · exact hnot r (hut ▸ hu)
  · rw [h.others ht hut] at hu
    nomatch hu

lemma Inv.there (h : Inv s) (ht : s.pc t = .waiting r) (hdone : s.done = true) :
    Quiet s ∧ Matches s.resp r := by
  have hknows := h.task t
  rw [ht] at hknows
  cases hknows.2.2 with
  | queued _ _ hno | atAgent _ _ hno | onItsWay _ _ hno =>
    rw [hdone] at hno
    nomatch hno
  | there hreqs hflight hread hmatch => exact ⟨⟨hreqs, hflight, hread⟩, hmatch⟩

/-! ### Steps of a task -/

section

variable [DecidableEq τ]

/-- The books and the pipes, apart from the next number. -/
def Sys.SameBooks (s s' : Sys τ) : Prop :=
  s'.reqs = s.reqs ∧ s'.read = s.read ∧ s'.answered = s.answered ∧ s'.resps = s.resps ∧
    s'.reader = s.reader

/-- The only task that is not idle goes on. -/
lemma Inv.goOn (hothers : ∀ u, u ≠ t → s.pc u = .idle) (hpc : s'.pc = update s.pc t p)
    (hids : ((s'.read ++ s'.reqs).map Request.id).Nodup)
    (holder : ∀ q ∈ s'.read ++ s'.reqs, q.id < s'.next)
    (hunsent : ∀ r, p.unsent = some r → r.id < s'.next ∧ ∀ q ∈ s'.read ++ s'.reqs, q.id ≠ r.id)
    (hknows : s'.Knows t p) (hquiet : (∀ r, p ≠ .waiting r) → Quiet s') : Inv s' := by
  have hidle : ∀ u, u ≠ t → s'.pc u = .idle := fun u hu => by
    rw [hpc, update_of_ne hu]
    exact hothers u hu
  have hself : s'.pc t = p := by rw [hpc, update_self]
  constructor
  case one =>
    intro u u' hu hu'
    have heq : ∀ v, s'.pc v ≠ .idle → v = t := fun v hv => by_contra fun hne => hv (hidle v hne)
    rw [heq u hu, heq u' hu']
  case ids => exact hids
  case older => exact holder
  case unsent =>
    intro u r hu
    by_cases hut : u = t
    · subst hut
      exact hunsent r (hself ▸ hu)
    · rw [hidle u hut] at hu
      nomatch hu
  case task =>
    intro u
    by_cases hut : u = t
    · subst hut
      exact hself.symm ▸ hknows
    · rw [hidle u hut]
      trivial
  case quiet => exact fun hno => hquiet fun r hr => hno t r (hself.trans hr)

/-- It goes on while nothing is on its way. -/
lemma Inv.move (h : Inv s) (hothers : ∀ u, u ≠ t → s.pc u = .idle) (hpc : s'.pc = update s.pc t p)
    (hsame : s.SameBooks s') (hnext : s.next ≤ s'.next) (hquiet : Quiet s)
    (hunsent : ∀ r, p.unsent = some r → r.id < s'.next ∧ ∀ q ∈ s.read, q.id ≠ r.id)
    (hknows : s'.Knows t p) : Inv s' := by
  obtain ⟨hreqs, hread, hanswered, hresps, hreader⟩ := hsame
  refine .goOn hothers hpc ?_ ?_ ?_ hknows fun _ => ⟨hreqs.trans hquiet.reqs, ?_, ?_⟩
  · rw [hreqs, hread]
    exact h.ids
  · rw [hreqs, hread]
    exact fun q hq => (h.older q hq).trans_le hnext
  · rwa [hreqs, hread, hquiet.reqs, append_nil]
  · rw [Sys.flight, hreader, hresps]
    exact hquiet.flight
  · rw [Sys.AllAnswered, hread, hanswered]
    exact hquiet.read

lemma Inv.written (h : Inv s) (ht : s.pc t = .doneCleared r) :
    Inv ({ s with reqs := s.reqs ++ [r] }.goto t (.waiting r)) := by
  have hquiet := h.quiet_of (t := t) (by simp [ht]) (by simp [ht])
  obtain ⟨hlt, hne⟩ := h.unsent t r (by rw [ht]; rfl)
  have hknows := h.task t
  rw [ht] at hknows
  obtain ⟨hseq, hwaiter, hdone⟩ := hknows
  refine .goOn (fun u => h.others (by simp [ht])) rfl ?_ (fun q hq => ?_) nofun
    ⟨hseq, hwaiter, .queued (by simp [Sys.goto, hquiet.reqs]) hquiet.flight hdone hquiet.read⟩
    fun hno => absurd rfl (hno r)
  · show ((s.read ++ (s.reqs ++ [r])).map Request.id).Nodup
    rw [← append_assoc, map_append, nodup_append]
    refine ⟨h.ids, nodup_singleton _, ?_⟩
    rintro i hi j hj rfl
    obtain ⟨q, hq, hqi⟩ := mem_map.mp hi
    exact hne q hq (hqi.trans (mem_singleton.mp hj))
  · have hq : q ∈ s.read ++ (s.reqs ++ [r]) := hq
    rw [← append_assoc, mem_append, mem_singleton] at hq
    rcases hq with hq | rfl
    · exact h.older q hq
    · exact hlt

lemma Inv.taskRun (h : Inv s) {ok : Bool} (hs : s.taskRun t ok = some s') : Inv s' := by
  have hmove : ∀ {p : Pc} {s1 : Sys τ}, s.pc t ≠ .idle → (∀ r, s.pc t ≠ .waiting r) →
      s1.pc = update s.pc t p → s.SameBooks s1 → s.next ≤ s1.next →
      (∀ r, p.unsent = some r → r.id < s1.next ∧ ∀ q ∈ s.read, q.id ≠ r.id) → s1.Knows t p →
      Inv s1 :=
    fun hne hnot hpc hsame hnext hunsent hknows =>
      h.move (fun u => h.others hne) hpc hsame hnext (h.quiet_of hne hnot) hunsent hknows
  -- a request that is built already is not among those the agent has read
  have hkeep : ∀ r, (s.pc t).unsent = some r → r.id < s.next ∧ ∀ q ∈ s.read, q.id ≠ r.id :=
    fun r hr => ⟨(h.unsent t r hr).1, fun q hq => (h.unsent t r hr).2 q (mem_append_left _ hq)⟩
  have hknows := h.task t
  have hrefl : s.SameBooks s := ⟨rfl, rfl, rfl, rfl, rfl⟩
  rw [Sys.taskRun] at hs
  generalize hpc : s.pc t = pc at hs
  cases pc with
  | idle =>
    nomatch hs
  | seqLoaded v =>
    cases hs
    refine hmove (by simp [hpc]) (by simp [hpc]) rfl hrefl (Nat.le_succ _) (fun r hr => ?_) trivial
    cases hr
    exact ⟨Nat.lt_succ_self _, fun q hq => (h.older q (mem_append_left _ hq)).ne⟩
  | built r =>
    cases hs
    rw [hpc] at hkeep
    exact hmove (by simp [hpc]) (by simp [hpc]) rfl hrefl le_rfl hkeep rfl
  | seqSet r =>
    rw [hpc] at hknows
    cases hs
    rw [hpc] at hkeep
    exact hmove (by simp [hpc]) (by simp [hpc]) rfl hrefl le_rfl hkeep ⟨hknows, rfl⟩
  | waiterSet r =>
    rw [hpc] at hknows
    cases hs
    rw [hpc] at hkeep
    exact hmove (by simp [hpc]) (by simp [hpc]) rfl hrefl le_rfl hkeep ⟨hknows.1, hknows.2, rfl⟩
  | doneCleared r =>
    dsimp only at hs
    split at hs
    · cases hs
      exact h.written hpc
    · cases hs
      exact hmove (by simp [hpc]) (by simp [hpc]) rfl hrefl le_rfl nofun trivial
  | failed r | returned r q =>
    cases hs
    exact hmove (by simp [hpc]) (by simp [hpc]) rfl hrefl le_rfl nofun trivial
  | waiting r =>
    dsimp only at hs
    split_ifs at hs with hdone
    · cases hs
      obtain ⟨hquiet, hmatch⟩ := h.there hpc hdone
      exact h.move (fun u => h.others (by simp [hpc])) rfl hrefl le_rfl hquiet nofun hmatch
    · exact some.inj hs ▸ h
  | copied r q =>
    rw [hpc] at hknows
    cases hs
    exact hmove (by simp [hpc]) (by simp [hpc]) rfl hrefl le_rfl nofun hknows

end

/-! ### Steps of the agent and of the reader -/

/-- Nobody moves, and the slot has the same owner. -/
lemma Inv.env (h : Inv s)
    (hprogress : ∀ r, (∃ t, s.pc t = .waiting r) → s.seq = r.seq → s.waiter.isSome → Progress s r →
      Progress s' r) (hquiet : Quiet s → Quiet s')
    (hdone : ∀ t r, s.pc t ≠ .doneCleared r ∨ s'.done = s.done := by exact fun _ _ => .inr rfl)
    (hids : s'.read ++ s'.reqs = s.read ++ s.reqs := by rfl) (hpc : s'.pc = s.pc := by rfl)
    (hslot : s'.seq = s.seq ∧ s'.waiter = s.waiter := by exact ⟨rfl, rfl⟩)
    (hnext : s'.next = s.next := by rfl) : Inv s' where
  one := hpc ▸ h.one
  ids := hids ▸ h.ids
  older := hids ▸ hnext ▸ h.older
  unsent := hpc ▸ hids ▸ hnext ▸ h.unsent
  task u := by
    have hknows := h.task u
    rw [hpc]
    generalize hu : s.pc u = pc at hknows
    cases pc with
    | waiting r =>
      obtain ⟨hseq, hwaiter, hp⟩ := hknows
      exact ⟨hslot.1.trans hseq, hslot.2.trans hwaiter,
        hprogress r ⟨u, hu⟩ hseq (by rw [hwaiter]; rfl) hp⟩
    | doneCleared r =>
      have hsame := (hdone u r).resolve_left (not_not.mpr hu)
      exact ⟨hslot.1.trans hknows.1, hslot.2.trans hknows.2.1, hsame.trans hknows.2.2⟩
    | seqSet r =>
      exact hslot.1.trans hknows
    | waiterSet r =>
      exact ⟨hslot.1.trans hknows.1, hslot.2.trans hknows.2⟩
    | copied r p =>
      exact hknows
    | returned r p =>
      cases p <;> exact hknows
    | _ => trivial
  quiet hno := hquiet (h.quiet (hpc ▸ hno))

lemma Inv.agentRead (h : Inv s) {q : Request} {rest : List Request} (hreqs : s.reqs = q :: rest) :
    Inv { s with reqs := rest, read := s.read ++ [q] } := by
  refine h.env (fun r _ _ _ hp => ?_) (fun hq => ?_) (fun _ _ => .inr rfl) (by simp [hreqs])
  · cases hp with
    | queued hone hflight hdone hread =>
      obtain ⟨rfl, rfl⟩ : q = r ∧ rest = [] := by simpa [hreqs] using hone
      refine .atAgent rfl hflight hdone fun x hx hno => ?_
      rcases mem_append.mp hx with hx | hx
      · exact absurd (hread x hx) hno
      · exact mem_singleton.mp hx
    | atAgent hnone | onItsWay hnone | there hnone =>
      rw [hreqs] at hnone
      nomatch hnone
  · have hnone := hq.reqs
    rw [hreqs] at hnone
    nomatch hnone

lemma Inv.answer (h : Inv s) {q : Request} (hq : q ∈ s.read) (hnew : q.id ∉ s.answered)
    (verdict : ℕ) : Inv { s with
      resps := s.resps ++ [⟨q.seq, verdict, q.id⟩]
      answered := q.id :: s.answered } := by
  refine h.env (fun r _ _ _ hp => ?_) fun hquiet => absurd (hquiet.read q hq) hnew
  cases hp with
  | queued _ _ _ hread | onItsWay _ _ _ hread | there _ _ hread =>
    exact absurd (hread q hq) hnew
  | atAgent hreqs hflight hdone hread =>
    obtain rfl := hread q hq hnew
    obtain ⟨hhand, hresps⟩ := append_eq_nil_iff.mp hflight
    refine .onItsWay (p := ⟨q.seq, verdict, q.id⟩) hreqs ?_ hdone (fun x hx => ?_) ⟨rfl, rfl⟩
      fun x hx => ?_
    · rw [Sys.flight, hhand, hresps]
      rfl
    · by_cases hmem : x.id ∈ s.answered
      · exact mem_cons_of_mem _ hmem
      · rw [hread x hx hmem]
        exact mem_cons_self
    · have hx : s.reader = .stored x := hx
      rw [hx] at hhand
      nomatch hhand

/-- The reader moves, and the same answers are on their way. -/
lemma Inv.relay (h : Inv s) (rest : List Response)
    (hflight : Sys.flight { s with resps := rest, reader := reader' } = s.flight)
    (hstored : ∀ q, reader' ≠ .stored q) : Inv { s with resps := rest, reader := reader' } := by
  refine h.env (fun r _ _ _ hp => ?_) fun hq => ⟨hq.reqs, hflight.trans hq.flight, hq.read⟩
  cases hp with
  | queued hreqs hold hdone hread => exact .queued hreqs (hflight.trans hold) hdone hread
  | atAgent hreqs hold hdone hread => exact .atAgent hreqs (hflight.trans hold) hdone hread
  | onItsWay hreqs hold hdone hread hmatch _ =>
    exact .onItsWay hreqs (hflight.trans hold) hdone hread hmatch fun q hq => absurd hq (hstored q)
  | there hreqs hold hread hmatch => exact .there hreqs (hflight.trans hold) hread hmatch

/-- The reader goes on with the one answer that is on its way. -/
lemma Inv.carry (h : Inv s) {q : Response} (hhand : s.reader.hand = [q])
    {resp' : Response} (hhand' : s.seq = q.seq → s.waiter.isSome → s.done = false →
      reader'.hand = [q] ∧ ∀ x, reader' = .stored x → resp' = x) :
    Inv { s with resp := resp', reader := reader' } := by
  refine h.env (fun r _ hseq hwaiter hp => ?_) fun hquiet => ?_
  · cases hp with
    | onItsWay hreqs hflight hdone hread hmatch _ =>
      rw [Sys.flight, hhand] at hflight
      obtain ⟨rfl, hresps⟩ := cons.inj hflight
      obtain ⟨hnew, hstored⟩ := hhand' (hseq.trans hmatch.1.symm) hwaiter hdone
      exact .onItsWay hreqs (by rw [Sys.flight, hnew]; exact hflight) hdone hread hmatch hstored
    | queued _ hflight | atAgent _ hflight | there _ hflight =>
      rw [Sys.flight, hhand] at hflight
      nomatch hflight
  · have hflight := hquiet.flight
    rw [Sys.flight, hhand] at hflight
    nomatch hflight

lemma Inv.readerRun [DecidableEq τ] (h : Inv s) (hs : s.readerRun = some s') : Inv s' := by
  rw [Sys.readerRun] at hs
  generalize hr : s.reader = pc at hs
  cases pc with
  | idle =>
    cases hresps : s.resps with
    | nil =>
      rw [hresps] at hs
      nomatch hs
    | cons q rest =>
      rw [hresps] at hs
      cases hs
      -- the answer goes from the pipe into the hand
      exact h.relay rest (by simp [Sys.flight, hr, hresps, Reader.hand]) nofun
  | got q =>
    cases hs
    exact h.carry (by rw [hr]; rfl) fun _ hw _ => by simp [hw, Reader.hand]
  | waiterSeen q =>
    cases hs
    exact h.carry (by rw [hr]; rfl) fun hseq _ _ => by simp [hseq, Reader.hand]
  | seqMatched q =>
    cases hs
    exact h.carry (by rw [hr]; rfl) fun _ _ hd => by simp [hd, Reader.hand]
  | accepted q =>
    cases hs
    exact h.carry (by rw [hr]; rfl) fun _ _ _ => ⟨rfl, fun x hx => (Reader.stored.inj hx)⟩
  | stored q =>
    cases hs
    have hne : s.flight ≠ [] := by
      rw [Sys.flight, hr]
      exact cons_ne_nil _ _
    refine h.env (fun r _ _ _ hp => ?_) (fun hquiet => absurd hquiet.flight hne) fun u r => ?_
    · cases hp with
      | onItsWay hreqs hflight hdone hread hmatch hstored =>
        rw [Sys.flight, hr] at hflight
        obtain ⟨rfl, hresps⟩ := cons.inj hflight
        refine .there hreqs hresps hread ?_
        rwa [← hstored q hr] at hmatch
      | queued _ hflight | atAgent _ hflight | there _ hflight => exact absurd hflight hne
    · -- nobody is about to write a request while an answer is on its way
      refine .inl fun hu => hne (h.quiet_of (t := u) ?_ ?_).flight <;> simp [hu]
  | wake =>
    cases hs
    exact h.relay s.resps (by simp [Sys.flight, hr, Reader.hand]) nofun

/-! ### Runs -/

section

variable [DecidableEq τ]

/-- **Every orderly step keeps the invariant.** -/
lemma Inv.step {a : Act τ} (h : Inv s) (hok : Orderly s a) (hs : ksecStep s a = some s') :
    Inv s' := by
  cases a with
  | begin t =>
    obtain ⟨hidle, rfl⟩ := ite_some_none_eq_some.mp hs
    exact h.move (fun u _ => hok u) rfl ⟨rfl, rfl, rfl, rfl, rfl⟩ le_rfl
      (h.quiet fun u r => by simp [hok u]) nofun trivial
  | run t ok => exact h.taskRun hs
  | agentRead =>
    rw [ksecStep] at hs
    cases hreqs : s.reqs with
    | nil =>
      rw [hreqs] at hs
      nomatch hs
    | cons q rest =>
      rw [hreqs] at hs
      exact some.inj hs ▸ h.agentRead hreqs
  | answer r verdict =>
    obtain ⟨hr, rfl⟩ := ite_some_none_eq_some.mp hs
    exact h.answer hr hok verdict
  | reader => exact h.readerRun hs

/-- No request has been made yet. -/
structure Fresh (s : Sys τ) : Prop where
  idle : ∀ t, s.pc t = .idle
  reqs : s.reqs = []
  resps : s.resps = []
  reader : s.reader = .idle
  read : s.read = []

omit [DecidableEq τ] in
lemma Fresh.inv (h : Fresh s) : Inv s where
  one t _ ht := absurd (h.idle t) ht
  ids := by simp [h.read, h.reqs]
  older := by simp [h.read, h.reqs]
  unsent t r ht := by simp [h.idle t, Pc.unsent] at ht
  task t := by simp [h.idle t, Sys.Knows]
  quiet _ := ⟨h.reqs, by simp [Sys.flight, h.reader, h.resps, Reader.hand],
    by simp [Sys.AllAnswered, h.read]⟩

/-- **In every orderly run the agent reads a request at most once, and a request that succeeds has got
its own answer.** -/
theorem answers_match {s₀ : Sys τ} {acts : List (Act τ)} (h₀ : Fresh s₀)
    (hrun : exec ksecStep s₀ acts = some s)
    (hok : Meets ksecStep Orderly s₀ acts) : Answered s := by
  have h : Inv s := exec_invariant Inv.step hrun hok h₀.inv
  constructor
  · have hids := h.ids
    rw [map_append] at hids
    exact hids.of_append_left
  · intro t r p ht
    have hknows := h.task t
    rwa [ht] at hknows

end

/-! ### Two runs -/

/-- Two tasks; the agent is registered. -/
def fresh : Sys Bool where
  counter := 0
  seq := 0
  waiter := none
  resp := ⟨0, 0, 0⟩
  done := false
  reqs := []
  resps := []
  pc _ := .idle
  reader := .idle
  next := 0
  read := []
  answered := []

/-- The task makes its request and waits. -/
def ask (t : Bool) : List (Act Bool) := .begin t :: List.replicate 5 (.run t true)

/-- The agent reads the next request and answers it, and the answer is put into the slot. -/
def serve (r : Request) : List (Act Bool) :=
  .agentRead :: .answer r 0 :: List.replicate 7 .reader

/-- One request, which is answered. -/
def oneRequest : { acts // Meets ksecStep Orderly fresh acts } :=
  ⟨ask false ++ serve ⟨1, 0⟩ ++ [.run false true, .run false true], by decide +kernel⟩

theorem answers_match_one : ∃ s, exec ksecStep fresh oneRequest.1 = some s ∧
      s.pc false = .returned ⟨1, 0⟩ (some ⟨1, 0, 0⟩) ∧ Answered s := by
  exact exists_run fun _ hrun _ =>
    answers_match ⟨fun _ => rfl, rfl, rfl, rfl, rfl⟩ hrun oneRequest.2

/-- **The first task is given the answer to the request of the second one.** -/
theorem answer_mixed_up :
    ∃ s, exec ksecStep fresh (ask false ++ ask true ++ .agentRead :: serve ⟨2, 1⟩ ++
        [.run false true, .run false true]) = some s ∧
      s.pc false = .returned ⟨1, 0⟩ (some ⟨2, 0, 1⟩) ∧ ¬ Answered s := by
  exact exists_run fun _ _ hpc =>
    fun h => absurd (h.own false _ _ hpc) (by decide)

end Makaos.Ksec
