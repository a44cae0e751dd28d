import Makaos.Proc.ChaselevInv

/-!
The work-stealing deque over every run of one owner and any number of thieves.

* `Correct`: what the calls have returned is what a sequential deque returns, and what is left is in
  the slots.
* `deque_correct`: **every run in which the indices do not go all the way around during one steal.**
* `stolen_twice`: a steal that sleeps for 2^64 pushes and pops returns an element a second time.
-/

namespace Makaos.Chaselev

open Transition Option List Function
open SeqDeque WrapIndex

variable {α ι : Type*} [DecidableEq ι] {s s' : Sys ι α}
variable {n : ℕ}

/-- **The deque is right**: the returns so far are explained by the sequential deque with elements `l`
left, every element pushed was popped once or stolen once or is left, steals are in push order, and
with no call of the owner under way, what is left is what the slots have. -/
def Correct (s : Sys ι α) : Prop :=
  ∃ l, Replay cap s.log l ∧ (pushes s.log).Perm (pops s.log ++ steals s.log ++ l) ∧
    (steals s.log ++ l).Sublist (pushes s.log) ∧ (s.owner = none → s.deque.contents = l.map some)

/-- The invariant, with the events so far. -/
def SysInv (s : Sys ι α) : Prop :=
  ∃ l hand, Inv s.deque s.owner s.thief l hand ∧ Replay cap s.log (l ++ hand.toList)

omit [DecidableEq ι] in
lemma SysInv.correct (h : SysInv s) : Correct s := by
  obtain ⟨l, hand, hinv, hlog⟩ := h
  refine ⟨l ++ hand.toList, hlog, hlog.accounted, hlog.order, ?_⟩
  intro hnone
  rw [hnone] at hinv
  have hhand : hand = none := hinv.owner.2
  rw [contents_eq hinv, hhand, toList_none, append_nil]

lemma SysInv.owner (h : SysInv s) (hstep : chaselevStep s .owner = some s') : SysInv s' := by
  obtain ⟨l, hand, hinv, hlog⟩ := h
  simp only [chaselevStep] at hstep
  split at hstep
  · cases hstep
  next p hp =>
    rw [hp] at hinv
    split at hstep
    next q p' hrun =>
      cases hstep
      obtain ⟨l', hand', hinv', hsame⟩ := hinv.owner_next hrun
      refine ⟨l', hand', hinv', ?_⟩
      rwa [hsame]
    next q r hrun =>
      cases hstep
      obtain ⟨l', hinv', hevent⟩ := hinv.owner_done hrun
      refine ⟨l', none, hinv', ?_⟩
      rw [toList_none, append_nil]
      exact hlog.snoc hevent

lemma SysInv.thief {i : ι} (h : SysInv s) (hok : Fresh s (.thief i))
    (hstep : chaselevStep s (.thief i) = some s') : SysInv s' := by
  obtain ⟨l, hand, hinv, hlog⟩ := h
  simp only [chaselevStep] at hstep
  split at hstep
  · cases hstep
  next p hp =>
    split at hstep
    next q p' hrun =>
      cases hstep
      obtain ⟨rfl, hinv'⟩ := hinv.thief_next hp hrun
      exact ⟨l, hand, hinv', hlog⟩
    next q r hrun =>
      cases hstep
      have hfresh : ∀ t v seen, p = .cas t v seen → s.deque.advances < seen + 2 ^ 64 := by
        rintro t v seen rfl
        simpa only [Fresh, hp] using hok
      obtain ⟨l', hinv', hevent⟩ := hinv.thief_done hp hfresh hrun
      refine ⟨l', hand, hinv', ?_⟩
      show Replay cap (s.log ++ r.event?.toList) _
      cases hr : r.event? with
      | none =>
        rw [hr] at hevent
        rwa [toList_none, append_nil, hevent]
      | some e =>
        rw [hr] at hevent
        exact hlog.snoc hevent

/-- **Every step keeps the invariant.** -/
lemma SysInv.step {a : Act ι α} (h : SysInv s) (hok : Fresh s a)
    (hstep : chaselevStep s a = some s') : SysInv s' := by
  cases a with
  | owner => exact h.owner hstep
  | thief i => exact h.thief hok hstep
  | push v | pop =>
    obtain ⟨l, hand, hinv, hlog⟩ := h
    obtain ⟨hnone, rfl⟩ := ite_some_none_eq_some.mp hstep
    have ho := hinv.owner
    rw [isNone_iff_eq_none.1 hnone] at ho
    exact ⟨l, hand, hinv.setOwner ho, hlog⟩
  | steal i =>
    obtain ⟨l, hand, hinv, hlog⟩ := h
    obtain ⟨-, rfl⟩ := ite_some_none_eq_some.mp hstep
    refine ⟨l, hand, hinv.setThief ?_, hlog⟩
    rintro _ ⟨⟩
    trivial

omit [DecidableEq ι] in
lemma SysInv.init : SysInv (init : Sys ι α) :=
  ⟨[], none, Inv.init fun _ => rfl, .nil⟩

/-- **The deque is right** in every run in which the indices do not go all the way around during one
steal; they may wrap around. -/
theorem deque_correct (acts : List (Act ι α)) (hrun : exec chaselevStep init acts = some s)
    (hok : Meets chaselevStep Fresh init acts) : Correct s :=
  (exec_invariant SysInv.step hrun hok SysInv.init).correct

/-- A whole call of the owner. -/
def pushCall (v : α) : List (Act ι α) := .push v :: replicate 4 .owner

/-- A whole pop of the last element. -/
def popLastCall : List (Act ι α) := .pop :: replicate 6 .owner

/-- Two pushes, a steal and a pop. -/
def stealThenPop : List (Act (Fin 1) ℕ) :=
  flatten [pushCall 7, pushCall 8, .steal 0 :: replicate 4 (.thief 0), popLastCall]

theorem deque_correct_stealThenPop : ∃ s, exec chaselevStep init stealThenPop = some s ∧
      s.log = [.push 7, .push 8, .steal 7, .pop 8] ∧ Correct s := by
  have hok : Meets chaselevStep Fresh init stealThenPop := by decide +kernel
  exact exists_run fun _ hrun _ => deque_correct stealThenPop hrun hok

/-! ### Once around -/

/-- The thief has read the element `true` at index 0, which has been popped since; `n` more elements
have come and gone. -/
structure Around (n : ℕ) (s : Sys (Fin 1) Bool) : Prop where
  top : s.deque.top = index 64 (n + 1)
  bottom : s.deque.bottom = index 64 (n + 1)
  owner : s.owner = none
  thief : s.thief 0 = some (.cas 0 (some true) 0)
  pushed : (pushes s.log).count true = 1
  popped : (pops s.log).count true = 1

variable {s : Sys (Fin 1) Bool}

lemma Around.cycle (h : Around n s) :
    ∃ s', exec chaselevStep s (pushCall false ++ popLastCall) = some s' ∧ Around (n + 1) s' := by
  obtain ⟨⟨top, bottom, slots, advances⟩, owner, thief, log⟩ := s
  obtain ⟨rfl, rfl, rfl, hthief, hpushed, hpopped⟩ := h
  refine ⟨{ deque := { top := index 64 (n + 1 + 1)
                       bottom := index 64 (n + 1 + 1)
                       slots := update slots (slotOf (index 64 (n + 1))) (some false)
                       advances := advances + 1 }
            owner := none
            thief := thief
            log := log ++ [.push false] ++ [.pop false] }, ?_, rfl, rfl, rfl, hthief, ?_, ?_⟩
  · simp [pushCall, popLastCall, exec, chaselevStep, ownerRun, cap, replicate,
      Deque.advance, OwnerRet.event, index_succ]
  · simpa [pushes] using hpushed
  · simpa [pops] using hpopped

lemma Around.cycles (h : Around n s) (m : ℕ) :
    ∃ acts s', exec chaselevStep s acts = some s' ∧ Around (n + m) s' := by
  induction m with
  | zero => exact ⟨[], s, rfl, h⟩
  | succ m ih =>
    obtain ⟨acts, s1, hrun, h1⟩ := ih
    obtain ⟨s2, hrun2, h2⟩ := h1.cycle
    refine ⟨acts ++ (pushCall false ++ popLastCall), s2, ?_, h2⟩
    rw [exec_append, hrun, bind_some, hrun2]

/-- With `top` back at 0 the thief's compare-and-swap succeeds. -/
lemma Around.stolen (h : Around n s) (hn : index 64 (n + 1) = 0) :
    ∃ s', exec chaselevStep s (pushCall false ++ [.thief 0]) = some s' ∧
      (pushes s'.log).count true = 1 ∧ (pops s'.log).count true = 1 ∧ true ∈ steals s'.log := by
  obtain ⟨⟨top, bottom, slots, advances⟩, owner, thief, log⟩ := s
  obtain ⟨rfl, rfl, rfl, hthief, hpushed, hpopped⟩ := h
  refine ⟨{ deque := { top := 1
                       bottom := 1
                       slots := update slots (slotOf 0) (some false)
                       advances := advances + 1 }
            owner := none
            thief := update thief 0 none
            log := log ++ [.push false] ++ [.steal true] }, ?_, ?_, ?_, ?_⟩
  · rw [hn]
    have hthief : thief 0 = some (.cas 0 (some true) 0) := hthief
    simp [pushCall, exec, chaselevStep, ownerRun, thiefRun, cap, replicate,
      Deque.advance, OwnerRet.event, ThiefRet.event?, hthief]
  · simpa [pushes] using hpushed
  · simpa [pops] using hpopped
  · simp [steals]

/-- A push, a thief that has read the element, and a pop of it. -/
def beforeAround : List (Act (Fin 1) Bool) :=
  flatten [pushCall true, .steal 0 :: replicate 3 (.thief 0), popLastCall]

/-- **Once around**: while a thief stands before its compare-and-swap, 2^64 elements come and go, and
it takes an element that was popped long ago. -/
theorem stolen_twice : ∃ acts s, exec chaselevStep (init : Sys (Fin 1) Bool) acts = some s ∧
      (pushes s.log).count true = 1 ∧ (pops s.log).count true = 1 ∧ true ∈ steals s.log ∧
      ¬ Correct s := by
  obtain ⟨s1, hrun1, htop, hbottom, howner, hthief, hpushed, hpopped⟩ :=
    exists_of_any chaselevStep init beforeAround
      (fun s => s.deque.top = index 64 1 ∧ s.deque.bottom = index 64 1 ∧ s.owner = none ∧
        s.thief 0 = some (.cas 0 (some true) 0) ∧ (pushes s.log).count true = 1 ∧
        (pops s.log).count true = 1)
  have h1 : Around 0 s1 := ⟨htop, hbottom, howner, hthief, hpushed, hpopped⟩
  obtain ⟨acts, s2, hrun2, h2⟩ := h1.cycles (2 ^ 64 - 1)
  obtain ⟨s, hrun, hpush, hpop, hsteal⟩ := h2.stolen (by decide)
  refine ⟨beforeAround ++ (acts ++ (pushCall false ++ [.thief 0])), s, ?_, hpush, hpop, hsteal, ?_⟩
  · rw [exec_append, hrun1, bind_some, exec_append, hrun2, bind_some, hrun]
  · rintro ⟨l, -, hperm, -⟩
    have hcount := hperm.count_eq true
    have hpos := count_pos_iff.2 hsteal
    rw [count_append, count_append, hpush, hpop] at hcount
    omega

end Makaos.Chaselev
