import Makaos.Proc.RunQueueInv

/-!
The run queues over every run.

* `Pc.Plain`, `Pc.Free`: an agent that is in no call, and one that carries nothing and owes nothing.
* `Inv.run`: the steps of an agent.
* `tasks_conserved`: **no task is lost or doubled** while one agent at a time uses a deque as its
  owner.
* `push_lost`: the push of `sched_try_steal`, which takes no lock, overwrites another one.
-/

namespace Makaos.RunQueue

open Transition List Option RunQueue.Pc Finset Sys
open Function (update update_eq_self update_of_ne update_self)
open Chaselev SeqDeque
open Holders (one one_none)

variable {κ ι τ : Type*} {s s' : Sys κ ι τ} {view : κ × Fin levels → List τ} {i : ι} {P : Pc κ τ}
  {c self victim : κ} {lvl : Fin levels} {tries left : ℕ} {took : Bool} {t : τ}
variable {x : τ}

section

variable [DecidableEq τ]

lemma count_concat (l : List τ) (x t : τ) :
    ((l ++ [x]).count t : ℤ) = l.count t + one (some x) t := by
  rw [count_append, count_singleton]
  simp only [one, some.injEq, beq_iff_eq]
  push_cast
  rfl

lemma count_cons' (l : List τ) (x t : τ) : ((x :: l).count t : ℤ) = l.count t + one (some x) t := by
  rw [count_cons]
  simp only [one, some.injEq, beq_iff_eq]
  push_cast
  rfl

/-- What a task adds to the count by being live. -/
lemma liveCount_setLive (x t : τ) :
    liveCount (s.setLive x true) t = one (some x) t + liveCount (s.setLive x false) t := by
  simp only [liveCount, setLive]
  by_cases hxt : t = x
  · subst hxt
    simp
  · simp [hxt, Holders.one_of_ne (Ne.symm hxt)]

lemma setLive_self {b : Bool} (hx : s.live x = b) : s.setLive x b = s := by
  subst hx
  rw [setLive, update_eq_self]

end

variable [DecidableEq κ]

/-- An agent that has begun no call. -/
structure Pc.Plain (P : Pc κ τ) : Prop where
  begun : ∀ d, P.begunOn d = none
  thief : ∀ d p, P.thiefOn d = some p → p = .loadTop

/-- An agent that carries no task and owes nothing to `nr_running`. -/
structure Pc.Free (P : Pc κ τ) : Prop where
  hand : P.hand = none
  ahead : ∀ c, P.ahead c = 0

lemma plain_owner {p : OwnerPc τ} {k : Caller κ} (hp : p.begun = false) :
    (owner c lvl p k : Pc κ τ).Plain :=
  ⟨fun d => by simp [begunOn, hp], nofun⟩

lemma plain_afterLevel : (afterLevel self victim lvl tries : Pc κ τ).Plain := by
  unfold afterLevel
  split
  case h_1 | h_2 => exact ⟨fun _ => rfl, nofun⟩

lemma free_afterLevel : (afterLevel self victim lvl tries : Pc κ τ).Free := by
  unfold afterLevel
  split
  case h_1 | h_2 => exact ⟨rfl, fun _ => rfl⟩

lemma plain_takeLoop : (takeLoop self victim lvl tries took left : Pc κ τ).Plain := by
  cases left with
  | zero =>
    simp only [takeLoop]
    split
    · exact ⟨fun _ => rfl, nofun⟩
    · exact plain_afterLevel
  | succ left =>
    refine ⟨fun _ => rfl, fun d p hp => ?_⟩
    simp only [takeLoop, thiefOn] at hp
    obtain ⟨-, hp⟩ := ite_none_right_eq_some.mp hp
    exact (some.inj hp).symm

lemma free_takeLoop : (takeLoop self victim lvl tries took left : Pc κ τ).Free := by
  cases left with
  | zero =>
    simp only [takeLoop]
    split
    · exact ⟨rfl, fun _ => rfl⟩
    · exact free_afterLevel
  | succ left => exact ⟨rfl, fun _ => rfl⟩

lemma scanRun_ok (s : Sys κ ι τ) (self victim : κ) (tries : ℕ) (st : Scan) :
    (scanRun s self victim tries st).Plain ∧ (scanRun s self victim tries st).Free := by
  cases st with
  | loadNr =>
    simp only [scanRun]
    split
    case isTrue | isFalse => exact ⟨⟨fun _ => rfl, nofun⟩, rfl, fun _ => rfl⟩
  | sizeTop lvl b =>
    simp only [scanRun]
    split
    · exact ⟨plain_afterLevel, free_afterLevel⟩
    · exact ⟨⟨fun _ => rfl, nofun⟩, rfl, fun _ => rfl⟩
  | takeTop lvl b => exact ⟨plain_takeLoop, free_takeLoop⟩
  | sizeBottom lvl | takeBottom lvl => exact ⟨⟨fun _ => rfl, nofun⟩, rfl, fun _ => rfl⟩

lemma add_ofInt_zero (x : BitVec 32) : x + BitVec.ofInt 32 0 = x := BitVec.add_zero x

lemma add_ofInt_neg_one (x : BitVec 32) : x + BitVec.ofInt 32 (-1) = x - 1 := by
  have hneg : BitVec.ofInt 32 (-1) = -1 := by decide
  rw [hneg, BitVec.sub_eq_add_neg]

section

variable [Fintype κ] [Fintype ι] [DecidableEq ι] [DecidableEq τ]

/-! ### Steps that change no deque -/

variable {Q : Pc κ τ}

/-- An agent that carries and owes nothing goes on and does not either. -/
lemma Inv.silentFree (h : Inv s view) (hpc : s.pc i = Q)
    (hP : P.Plain := by exact ⟨fun _ => rfl, by intros; contradiction⟩)
    (hP' : P.Free := by exact ⟨rfl, fun _ => rfl⟩) (hold : ∀ d, Q.begunOn d = none := by intros; rfl)
    (hfree : Q.Free := by exact ⟨rfl, fun _ => rfl⟩) : Inv (s.setPc i P) view := by
  subst hpc
  refine h.move rfl rfl hold hP.begun hP.thief ?_ ?_
  · intro t
    rw [hP'.hand, hfree.hand]
    rfl
  · intro c
    rw [hP'.ahead, hfree.ahead, sub_self, add_ofInt_zero]
    rfl

section

variable (h : Inv s view) (hpc : s.pc i = Q) (hold : ∀ d, Q.begunOn d = none) (hP : P.Plain)
  (hhand : P.hand = Q.hand)
include h hpc hold hP hhand

lemma Inv.moveNr {n : ℤ} (hahead : ∀ c', P.ahead c' - Q.ahead c' = if c = c' then n else 0) :
    Inv (Sys.setPc { s with
      nrRunning := update s.nrRunning c (s.nrRunning c + BitVec.ofInt 32 n) } i P) view := by
  subst hpc
  refine h.move rfl rfl hold hP.begun hP.thief (fun t => by rw [hhand]; rfl) fun c' => ?_
  show update s.nrRunning c (s.nrRunning c + BitVec.ofInt 32 n) c' = _
  rw [hahead]
  split_ifs with hc
  · subst hc
    rw [update_self]
  · rw [update_of_ne (Ne.symm hc), add_ofInt_zero]

lemma Inv.addNr (hahead : ∀ c', P.ahead c' - Q.ahead c' = if c = c' then 1 else 0) :
    Inv ((s.addNr c).setPc i P) view :=
  h.moveNr hpc hold hP hhand hahead

lemma Inv.subNr (hahead : ∀ c', P.ahead c' - Q.ahead c' = if c = c' then -1 else 0) :
    Inv ((s.subNr c).setPc i P) view := by
  have hmove := h.moveNr hpc hold hP hhand hahead
  rwa [add_ofInt_neg_one] at hmove

end

/-! ### The calls on a deque -/

omit [DecidableEq ι] in
lemma Inv.live_of_mem {d : κ × Fin levels} (h : Inv s view) (ht : t ∈ view d) : s.live t = true := by
  have hd : (1 : ℤ) ≤ ∑ d, ((view d).count t : ℤ) := by
    calc (1 : ℤ) ≤ (view d).count t := by exact_mod_cast count_pos_iff.2 ht
      _ ≤ ∑ d, ((view d).count t : ℤ) :=
        single_le_sum (f := fun d => ((view d).count t : ℤ)) (fun _ _ => Int.natCast_nonneg _)
          (mem_univ d)
  have hhands : (0 : ℤ) ≤ ∑ i, (one (s.pc i).hand t : ℤ) :=
    sum_nonneg fun _ _ => Int.natCast_nonneg _
  have hplaces := h.places t
  unfold liveCount at hplaces
  split_ifs at hplaces with hlive
  · exact hlive
  · omega

variable {p p' : OwnerPc τ} {k : Caller κ} {q : Deque τ}

section

variable (h : Inv s view) (hpc : s.pc i = .owner c lvl p k)
  (halone : ∀ j, j ≠ i → (s.pc j).begunOn (c, lvl) = none) {r : OwnerRet τ}
include h hpc halone

lemma Inv.owner_next (hrun : ownerRun (s.deque (c, lvl)) p = (q, .inl p')) :
    Inv ((s.setDeque (c, lvl) q).setPc i (.owner c lvl p' k)) view := by
  have hd := (h.deques (c, lvl)).owner_next hpc halone hrun
  have hne : ∀ d', d' ≠ (c, lvl) → ∀ p, (owner c lvl p k : Pc κ τ).begunOn d' = none := by
    intro d' hd' p
    simp [begunOn, Ne.symm hd']
  have hsame : update view (c, lvl) (view (c, lvl)) = view := update_eq_self _ _
  rw [← hsame]
  refine h.change ?_ ?_ rfl ?_ ?_ ?_ ?_ ?_ ?_
  · simpa [setPc, setDeque] using hd
  · intro d' hd'
    simp [setPc, setDeque, hd']
  · intro d' hd'
    rw [hpc]
    exact hne d' hd' p
  · exact fun d' hd' => hne d' hd' p'
  · intros; contradiction
  · exact fun _ => halone
  · intro t
    rw [hpc]
    show _ + (one p'.pushing t : ℤ) + _ = _ + (one p.pushing t : ℤ) + _
    rw [(ownerRun_next hrun).2]
    rfl
  · intro c'
    have hahead : (owner c lvl p' k : Pc κ τ).ahead c' = (owner c lvl p k : Pc κ τ).ahead c' := by
      cases k <;> rfl
    rw [hpc, hahead, sub_self, sub_self, ite_self, add_zero, add_ofInt_zero]
    rfl

/-- The last memory access of a call of the owner: an event of the deque, and what its caller does
with it. -/
lemma Inv.owner_done (hrun : ownerRun (s.deque (c, lvl)) p = (q, .inr r)) (hP : P.Plain)
    (hP' : ∀ d, P.thiefOn d = none) : ∃ v, Step cap (view (c, lvl)) r.event v ∧
      ∀ s' : Sys κ ι τ, s'.deque = update s.deque (c, lvl) q → s'.pc = update s.pc i P →
        (∀ t, (v.count t : ℤ) + one P.hand t + liveCount s t =
          (view (c, lvl)).count t + one p.pushing t + liveCount s' t) →
        (∀ c', s'.nrRunning c' = s.nrRunning c' + BitVec.ofInt 32
          ((if c = c' then (v.length : ℤ) - (view (c, lvl)).length else 0) +
            (P.ahead c' - (owner c lvl p k : Pc κ τ).ahead c'))) →
        Inv s' (update view (c, lvl) v) := by
  obtain ⟨v, hd, hevent⟩ := (h.deques (c, lvl)).owner_done hpc halone hrun (hP.begun _) (hP' _)
  refine ⟨v, hevent, fun s' hdeque hpc' hplaces hcounts => ?_⟩
  refine h.change (P := P) ?_ ?_ hpc' ?_ (fun d' _ => hP.begun d') (fun d' p _ => hP.thief d' p) ?_
    ?_ ?_
  · rwa [hdeque, hpc', update_self]
  · intro d' hd'
    rw [hdeque, update_of_ne hd']
  · intro d' hd'
    rw [hpc]
    simp [begunOn, Ne.symm hd']
  · exact fun hne => absurd (hP.begun _) hne
  · intro t
    rw [hpc]
    exact hplaces t
  · intro c'
    rw [hpc]
    exact hcounts c'

lemma Inv.pushed (hrun : ownerRun (s.deque (c, lvl)) p = (q, .inr (.pushed x))) (hP : P.Plain)
    (hP' : ∀ d, P.thiefOn d = none) (hhand : P.hand = none)
    (hahead : ∀ c', P.ahead c' = (owner c lvl p k : Pc κ τ).ahead c' - if c = c' then 1 else 0) :
    ∃ view', Inv ((s.setDeque (c, lvl) q).setPc i P) view' := by
  obtain ⟨v, hevent, hnext⟩ := h.owner_done hpc halone hrun hP hP'
  obtain rfl := hevent.push_inv
  refine ⟨_, hnext _ rfl rfl ?_ ?_⟩
  · intro t
    rw [count_concat, hhand, (ownerRun_done hrun).1 x rfl, one_none]
    show _ = _ + (liveCount s t : ℤ)
    push_cast
    ring
  · intro c'
    rw [hahead, length_append, length_singleton]
    rw [Nat.cast_succ, add_sub_cancel_left, sub_right_comm, sub_self, zero_sub, add_neg_cancel,
      add_ofInt_zero]
    rfl

lemma Inv.poppedNone
    (hrun : ownerRun (s.deque (c, lvl)) p = (q, .inr (.popped none))) (hP : P.Plain)
    (hP' : ∀ d, P.thiefOn d = none) (hfree : P.Free)
    (hahead : ∀ c', (owner c lvl p k : Pc κ τ).ahead c' = 0) :
    ∃ view', Inv ((s.setDeque (c, lvl) q).setPc i P) view' := by
  obtain ⟨v, hevent, hnext⟩ := h.owner_done hpc halone hrun hP hP'
  have hv : v = view (c, lvl) := hevent.empty_inv
  refine ⟨_, hnext _ rfl rfl ?_ ?_⟩
  · intro t
    rw [hv, hfree.hand, (ownerRun_done hrun).2 none rfl]
    rfl
  · intro c'
    rw [hv, hfree.ahead, hahead, sub_self, ite_self, sub_self, add_zero, add_ofInt_zero]
    rfl

/-- A pop is over: the task, which was live, is in the hands of the agent or is not live any more. -/
lemma Inv.poppedSome
    (hrun : ownerRun (s.deque (c, lvl)) p = (q, .inr (.popped (some x)))) (hP : P.Plain)
    (hP' : ∀ d, P.thiefOn d = none) (hdeque : s'.deque = update s.deque (c, lvl) q)
    (hpc' : s'.pc = update s.pc i P) (hnr : s'.nrRunning = s.nrRunning)
    (hlive : s.live x = true → ∀ t, (one P.hand t : ℤ) + liveCount s t = one (some x) t + liveCount s' t)
    (hahead : ∀ c', P.ahead c' = (owner c lvl p k : Pc κ τ).ahead c' + if c = c' then 1 else 0) :
    ∃ view', Inv s' view' := by
  obtain ⟨v, hevent, hnext⟩ := h.owner_done hpc halone hrun hP hP'
  have hview : view (c, lvl) = v ++ [x] := hevent.pop_inv
  have hx : s.live x = true := h.live_of_mem (d := (c, lvl)) (by rw [hview]; simp)
  refine ⟨_, hnext _ hdeque hpc' ?_ ?_⟩
  · intro t
    rw [hview, count_concat, (ownerRun_done hrun).2 (some x) rfl, one_none, add_assoc, hlive hx t]
    push_cast
    ring
  · intro c'
    rw [hahead, hview, length_append, length_singleton, hnr]
    rw [Nat.cast_succ, sub_add_cancel_left, add_sub_cancel_left]
    split <;> exact (add_ofInt_zero _).symm

/-- What a call on a deque returns goes to its caller. -/
lemma Inv.ownerReturns (hrun : ownerRun (s.deque (c, lvl)) p = (q, .inr r))
    (hret : ownerReturns (s.setDeque (c, lvl) q) i c lvl k r = some s') :
    ∃ view', Inv s' view' := by
  cases r with
  | full x => cases k <;> cases hret
  | pushed x =>
    cases k with
    | enqueue | stolen victim tries left =>
      cases hret
      exact h.pushed hpc halone hrun ⟨fun _ => rfl, nofun⟩ (fun _ => rfl) rfl fun c' => by
        simp only [ahead, zero_sub]
        split <;> simp
    | boostPush lvl' =>
      cases hret
      exact h.pushed hpc halone hrun ⟨fun _ => rfl, nofun⟩ (fun _ => rfl) rfl fun c' => by
        simp only [ahead, sub_self]
    | dequeue | boostPop => cases hret
  | popped x =>
    cases x with
    | none =>
      cases k with
      | dequeue | boostPop =>
        simp only [RunQueue.ownerReturns] at hret
        split at hret
        next lvl' _ =>
          cases hret
          exact h.poppedNone hpc halone hrun (plain_owner rfl) (fun _ => rfl)
            ⟨rfl, fun _ => rfl⟩ fun _ => rfl
        · cases hret
          exact h.poppedNone hpc halone hrun ⟨fun _ => rfl, nofun⟩ (fun _ => rfl)
            ⟨rfl, fun _ => rfl⟩ fun _ => rfl
      | _ => cases hret
    | some x =>
      cases k with
      | dequeue =>
        cases hret
        refine h.poppedSome (P := .dequeueSub c) hpc halone hrun ⟨fun _ => rfl, nofun⟩
          (fun _ => rfl) rfl rfl rfl ?_ ?_
        · intro hx t
          have hadd := liveCount_setLive (s := s) x t
          rw [setLive_self hx] at hadd
          exact (zero_add _).trans hadd
        · exact fun c' => (zero_add _).symm
      | boostPop =>
        cases hret
        refine h.poppedSome (P := .owner c topLevel (.pushLoadBottom x) (.boostPush lvl)) hpc
          halone hrun (plain_owner rfl) (fun _ => rfl) rfl rfl rfl (fun _ _ => rfl) ?_
        exact fun c' => (zero_add _).symm
      | _ => cases hret

end

variable {tp tp' : ThiefPc τ}

lemma Inv.thief_next (h : Inv s view) (hpc : s.pc i = .thief self victim lvl tp tries left took)
    (hrun : thiefRun (s.deque (victim, lvl)) tp = (q, .inl tp')) :
    Inv ((s.setDeque (victim, lvl) q).setPc i (.thief self victim lvl tp' tries left took))
      view := by
  have hd := (h.deques (victim, lvl)).thief_next hpc hrun
  have hsame : update view (victim, lvl) (view (victim, lvl)) = view := update_eq_self _ _
  rw [← hsame]
  refine h.change ?_ ?_ rfl ?_ (fun _ _ => rfl) ?_ (fun hne => absurd rfl hne) ?_ ?_
  · simpa [setPc, setDeque] using hd
  · intro d' hd'
    simp [setPc, setDeque, hd']
  · intro d' _
    rw [hpc]
    rfl
  · intro d' p hd' hp
    simp [thiefOn, Ne.symm hd'] at hp
  · intro t
    rw [hpc]
    rfl
  · intro c'
    rw [hpc]
    simp only [ahead, sub_self, ite_self, add_zero, add_ofInt_zero]
    rfl

lemma Inv.thief_done {r : ThiefRet τ} (h : Inv s view)
    (hpc : s.pc i = .thief self victim lvl tp tries left took)
    (hfresh : ∀ t x seen, tp = .cas t x seen → (s.deque (victim, lvl)).advances < seen + 2 ^ 64)
    (hrun : thiefRun (s.deque (victim, lvl)) tp = (q, .inr r)) :
    ∃ view', Inv (thiefReturns (s.setDeque (victim, lvl) q) i self victim lvl tries left took r)
      view' := by
  -- whatever the thief does next, it is in no call yet
  have hgen : ∀ P : Pc κ τ, P.Plain → ∃ v, (r.event? = none → v = view (victim, lvl)) ∧
      (∀ e, r.event? = some e → Step cap (view (victim, lvl)) e v) ∧
      ((∀ t, (v.count t : ℤ) + one P.hand t = (view (victim, lvl)).count t) →
        (∀ c', (if victim = c' then (v.length : ℤ) - (view (victim, lvl)).length else 0) +
          P.ahead c' = 0) →
        Inv ((s.setDeque (victim, lvl) q).setPc i P) (update view (victim, lvl) v)) := by
    intro P hP
    obtain ⟨v, hd, hevent⟩ := (h.deques (victim, lvl)).thief_done hpc hfresh hrun (hP.begun _)
      (hP.thief _)
    refine ⟨v, fun hr => ?_, fun e hr => ?_, fun hplaces hcounts => ?_⟩
    · rw [hr] at hevent
      exact hevent
    · rw [hr] at hevent
      exact hevent
    refine h.change (P := P) ?_ ?_ rfl ?_ (fun d' _ => hP.begun d') (fun d' p _ => hP.thief d' p)
      (fun hne => absurd (hP.begun _) hne) ?_ ?_
    · simpa [setPc, setDeque] using hd
    · intro d' hd'
      simp [setPc, setDeque, hd']
    · intro d' _
      rw [hpc]
      rfl
    · intro t
      rw [hpc, hplaces t]
      show _ + liveCount s t = _ + ((0 : ℕ) : ℤ) + liveCount s t
      simp
    · intro c'
      rw [hpc]
      show s.nrRunning c' = s.nrRunning c' + BitVec.ofInt 32 (_ + (P.ahead c' - 0))
      rw [sub_zero, hcounts c', add_ofInt_zero]
  -- nothing was taken
  have hnone : ∀ n, r.event? = none → ∃ view', Inv ((s.setDeque (victim, lvl) q).setPc i
      (takeLoop self victim lvl tries took n)) view' := by
    intro n hr
    obtain ⟨v, hv, -, hnext⟩ := hgen (takeLoop self victim lvl tries took n) plain_takeLoop
    refine ⟨_, hnext ?_ ?_⟩
    · intro t
      rw [hv hr, free_takeLoop.hand, one_none]
      simp
    · intro c'
      rw [hv hr, free_takeLoop.ahead, sub_self, ite_self, add_zero]
  cases r with
  | empty => exact hnone 0 rfl
  | abort => exact hnone left rfl
  | stolen x =>
    cases x with
    | none => exact hnone 0 rfl
    | some x =>
      obtain ⟨v, -, hv, hnext⟩ := hgen (.stealSub self victim lvl x tries left)
        ⟨fun _ => rfl, by intros; contradiction⟩
      have hview : view (victim, lvl) = x :: v := Step.steal_inv (hv _ rfl)
      refine ⟨_, hnext ?_ ?_⟩
      · intro t
        rw [hview, count_cons']
        rfl
      · intro c'
        rw [hview, length_cons]
        simp only [ahead]
        push_cast
        split <;> ring

/-! ### Every run -/

lemma Inv.run (h : Inv s view) (hok : Alone s (.run i)) (hstep : runStep s i = some s') :
    ∃ view', Inv s' view' := by
  unfold runStep at hstep
  split at hstep
  case h_1 | h_2 => cases hstep
  case h_3 c lvl p k hpc =>
    simp only [Alone, hpc] at hok
    split at hstep
    next q p' hrun =>
      cases hstep
      exact ⟨view, h.owner_next hpc hok hrun⟩
    next q r hrun => exact h.ownerReturns hpc hok hrun hstep
  case h_4 c hpc =>
    cases hstep
    refine ⟨view, h.addNr hpc (fun _ => rfl) ⟨fun _ => rfl, nofun⟩ rfl fun c' => ?_⟩
    simp only [ahead]
    split <;> rfl
  case h_5 c hpc =>
    cases hstep
    refine ⟨view, h.subNr hpc (fun _ => rfl) ⟨fun _ => rfl, nofun⟩ rfl fun c' => ?_⟩
    simp only [ahead]
    split <;> rfl
  case h_6 c lvl hpc =>
    cases hstep
    exact ⟨view, h.addNr hpc (fun _ => rfl) ⟨fun _ => rfl, nofun⟩ rfl fun c' => sub_zero _⟩
  case h_7 c lvl hpc | h_11 self victim lvl t tries left hpc =>
    cases hstep
    refine ⟨view, h.subNr hpc (fun _ => rfl) (plain_owner rfl) rfl fun c' => ?_⟩
    simp only [ahead]
    split <;> rfl
  case h_8 self tries hpc =>
    obtain ⟨-, rfl⟩ := ite_some_none_eq_some.mp hstep
    exact ⟨view, h.silentFree hpc⟩
  case h_9 self victim tries st hpc =>
    cases hstep
    obtain ⟨hplain, hfree⟩ := scanRun_ok s self victim tries st
    exact ⟨view, h.silentFree hpc hplain hfree⟩
  case h_10 self victim lvl p tries left took hpc =>
    split at hstep
    next q p' hrun =>
      cases hstep
      exact ⟨view, h.thief_next hpc hrun⟩
    next q r hrun =>
      cases hstep
      refine h.thief_done hpc ?_ hrun
      rintro t x seen rfl
      simpa only [Alone, hpc] using hok
  case h_12 self victim lvl tries left hpc =>
    cases hstep
    refine ⟨view, h.addNr hpc (fun _ => rfl) plain_takeLoop free_takeLoop.hand fun c' => ?_⟩
    rw [free_takeLoop.ahead]
    simp only [ahead]
    split <;> rfl

/-- **Every step keeps the invariant.** -/
lemma Inv.step {a : Act κ ι τ} (h : Inv s view) (hok : Alone s a) (hstep : rqStep s a = some s') :
    ∃ view', Inv s' view' := by
  cases a with
  | run i => exact h.run hok hstep
  | lock i c =>
    obtain ⟨hpc, rfl⟩ := ite_some_none_eq_some.mp hstep
    have hlock : Inv { s with lock := update s.lock c (some i) } view := { h with }
    exact ⟨view, hlock.silentFree hpc.1⟩
  | unlock i =>
    simp only [rqStep] at hstep
    split at hstep
    next c hpc =>
      cases hstep
      have hlock : Inv { s with lock := update s.lock c none } view := { h with }
      exact ⟨view, hlock.silentFree hpc⟩
    · cases hstep
  | enqueue i t lvl =>
    simp only [rqStep] at hstep
    split at hstep
    next c hpc =>
      split at hstep
      · cases hstep
      next hlive =>
        cases hstep
        refine ⟨view, h.move rfl rfl (by simp [hpc, begunOn]) (plain_owner rfl).begun
          (plain_owner rfl).thief ?_ ?_⟩
        · intro u
          rw [hpc]
          have hadd := liveCount_setLive (s := s) t u
          rw [setLive_self (Bool.eq_false_of_not_eq_true hlive)] at hadd
          exact hadd.symm.trans (zero_add _).symm
        · intro c'
          rw [hpc]
          exact (add_ofInt_zero _).symm
    · cases hstep
  | dequeue i | boost i =>
    simp only [rqStep] at hstep
    split at hstep
    next c hpc =>
      cases hstep
      exact ⟨view, h.silentFree hpc (plain_owner rfl)⟩
    · cases hstep
  | trySteal i self =>
    obtain ⟨hpc, rfl⟩ := ite_some_none_eq_some.mp hstep
    exact ⟨view, h.silentFree hpc⟩
  | attempt i victim =>
    simp only [rqStep] at hstep
    split at hstep
    next self tries hpc =>
      split at hstep
      · cases hstep
      · split at hstep <;> cases hstep
        all_goals
          exact ⟨view, h.silentFree hpc⟩
    · cases hstep

omit [DecidableEq ι] in
lemma Inv.boot : Inv (boot : Sys κ ι τ) fun _ => [] := by
  constructor
  case deques => exact fun d => ⟨none, [], none, .init fun _ => rfl, rfl, nofun, nofun⟩
  case alone => exact fun _ _ _ h _ => absurd rfl h
  case places =>
    intro t
    simp [RunQueue.boot, hand, liveCount]
  case counts =>
    intro c
    simp [RunQueue.boot, ahead]

/-- **No task is lost or doubled**, and `nr_running` is right, in every run in which one agent at a
time uses a deque as its owner. -/
theorem tasks_conserved (acts : List (Act κ ι τ)) (hrun : exec rqStep boot acts = some s)
    (hok : Meets rqStep Alone boot acts) : Conserved s := by
  obtain ⟨view, hinv⟩ := exec_invariant (I := fun s => ∃ view, Inv s view)
    (fun ⟨_, h⟩ hok hstep => h.step hok hstep) hrun hok ⟨_, Inv.boot⟩
  exact hinv.conserved

end

/-- One agent puts two tasks into the queue of processor 0, and one takes a task from there for
processor 1. -/
def addThenSteal : List (Act (Fin 2) (Fin 2) (Fin 2)) :=
  flatten
    [[.lock 0 0, .enqueue 0 0 topLevel], replicate 5 (.run 0), [.enqueue 0 1 topLevel],
      replicate 5 (.run 0), [.unlock 0, .trySteal 1 1, .attempt 1 0],
      replicate 15 (.run 1)]

theorem tasks_conserved_addThenSteal : ∃ s, exec rqStep boot addThenSteal = some s ∧
      (s.nrRunning 0 = 1 ∧ s.nrRunning 1 = 1) ∧ Conserved s := by
  have hok : Meets rqStep Alone boot addThenSteal := by decide +kernel
  exact exists_run fun _ hrun _ => tasks_conserved addThenSteal hrun hok

/-- As before, but while the thief is in its push, an agent with the lock of processor 1 puts task 2
into the same deque. -/
def twoPushes : List (Act (Fin 2) (Fin 2) (Fin 3)) :=
  flatten
    [[.lock 0 0, .enqueue 0 0 topLevel], replicate 5 (.run 0), [.enqueue 0 1 topLevel],
      replicate 5 (.run 0), [.unlock 0, .trySteal 1 1, .attempt 1 0],
      replicate 11 (.run 1), [.lock 0 1, .enqueue 0 2 topLevel], replicate 5 (.run 0),
      [.unlock 0], replicate 4 (.run 1)]

/-- **A task is lost**: both pushes take the same slot. -/
theorem push_lost : ∃ s, exec rqStep boot twoPushes = some s ∧ s.live 2 = true ∧
      (∀ i, (s.pc i).quiet = true) ∧ (∀ d, some 2 ∉ (s.deque d).contents) ∧
      (s.nrRunning 1).toNat = 2 ∧ ¬ Conserved s := by
  obtain ⟨s, hrun, hlive, hquiet, hslots, hnr⟩ := exists_of_any rqStep boot twoPushes
    (fun s => s.live 2 = true ∧ (∀ i, (s.pc i).quiet = true) ∧
      (∀ d, some 2 ∉ (s.deque d).contents) ∧ (s.nrRunning 1).toNat = 2)
  refine ⟨s, hrun, hlive, hquiet, hslots, hnr, ?_⟩
  rintro ⟨view, hplaces, hcontents, -⟩
  have hview : ∀ d, (view d).count 2 = 0 := by
    intro d
    refine count_eq_zero.2 fun hmem => hslots d ?_
    rw [hcontents d fun i => begunOn_of_quiet (hquiet i) d]
    exact mem_map_of_mem hmem
  have hhands : (univ.filter fun i => (s.pc i).hand = some 2).card = 0 := by
    refine card_eq_zero.2 (filter_eq_empty_iff.2 fun i _ hi => ?_)
    rw [hand_of_quiet (hquiet i)] at hi
    cases hi
  have hone := hplaces 2
  rw [sum_eq_zero fun d _ => hview d, hhands, hlive] at hone
  exact absurd hone (by decide)

end Makaos.RunQueue
