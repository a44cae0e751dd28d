import Makaos.Lib.Holders
import Makaos.Proc.ChaselevInv
import Makaos.Proc.RunQueue

/-!
The invariant of the run queues.

* `DequeOk`: a deque, with the agents that are in a call on it as its owner and its thieves.
* `Inv`: all deques, every task in one place, and what each agent owes to `nr_running`.
* `DequeOk.owner_next`, `DequeOk.owner_done`, `DequeOk.thief_next`, `DequeOk.thief_done`: the memory
  accesses of an agent, seen by the deque it works on.
* `Inv.change`: **one agent goes on and one deque changes.**
-/

namespace Makaos.RunQueue

open Function (apply_update forall_update_iff update update_idem update_of_ne update_self)
open Chaselev SeqDeque Finset Function
open Holders (one sum_update holders_eq_sum)

variable {κ ι τ : Type*} [DecidableEq κ] [DecidableEq ι]
variable {P : Pc κ τ} {d : κ × Fin levels} {v : List τ} {i : ι}

/-- The call of `chaselev_steal` an agent has under way on a deque. -/
def Pc.thiefOn (d : κ × Fin levels) : Pc κ τ → Option (ThiefPc τ)
  | .thief _ victim lvl p _ _ _ => if (victim, lvl) = d then some p else none
  | _ => none

/-- How far `nr_running` of `c` is ahead of the tasks there on account of an agent. -/
def Pc.ahead (c : κ) : Pc κ τ → ℤ
  | .owner c' _ _ (.boostPush _) => if c' = c then 1 else 0
  | .enqueueAdd c' => if c' = c then -1 else 0
  | .dequeueSub c' => if c' = c then 1 else 0
  | .boostSub c' _ => if c' = c then 1 else 0
  | .stealSub _ victim _ _ _ _ => if victim = c then 1 else 0
  | .stealAdd self _ _ _ _ => if self = c then -1 else 0
  | _ => 0

lemma Pc.ahead_of_quiet (h : P.quiet = true) (c : κ) : P.ahead c = 0 := by
  cases P with
  | idle | held c' => rfl
  | owner c' lvl p k => cases h
  | enqueueAdd c' | dequeueSub c' | boostAdd c' lvl | boostSub c' lvl | again self tries
  | _ => cases h

omit [DecidableEq κ] in
lemma Pc.hand_of_quiet (h : P.quiet = true) : P.hand = none := by
  cases P with
  | owner c lvl p k | stealSub self victim lvl t tries left => cases h
  | _ => rfl

lemma Pc.begunOn_of_quiet (h : P.quiet = true) (d : κ × Fin levels) : P.begunOn d = none := by
  cases P with
  | owner c lvl p k => cases h
  | _ => rfl

/-- The deque `q` at `d` with tasks `v`, the agents in a call on it being its owner and thieves. -/
def DequeOk (q : Deque τ) (pc : ι → Pc κ τ) (d : κ × Fin levels) (v : List τ) : Prop :=
  ∃ o l held, Chaselev.Inv q o (fun i => (pc i).thiefOn d) l held ∧ l ++ held.toList = v ∧
    (∀ i p, (pc i).begunOn d = some p → o = some p) ∧
    ∀ p, o = some p → ∃ i, (pc i).begunOn d = some p

/-! ### One deque -/

section

variable {q q' : Deque τ} {pc : ι → Pc κ τ}

omit [DecidableEq ι] in
lemma DequeOk.contents (h : DequeOk q pc d v) (hnone : ∀ i, (pc i).begunOn d = none) :
    q.contents = v.map some ∧ v.length ≤ cap := by
  obtain ⟨o, l, held, hinv, rfl, -, hbusy⟩ := h
  have ho : o = none := by
    cases o with
    | none => rfl
    | some p =>
      obtain ⟨i, hi⟩ := hbusy p rfl
      rw [hnone i] at hi
      cases hi
  subst ho
  obtain rfl : held = none := hinv.owner.2
  rw [Option.toList_none, List.append_nil]
  exact ⟨contents_eq hinv, hinv.length_le⟩

lemma thiefOn_update (j : ι) : (update pc i P j).thiefOn d =
      update (fun j => (pc j).thiefOn d) i (P.thiefOn d) j :=
  apply_update (fun _ Q => Q.thiefOn d) pc i P j

/-- An agent that is not in a call of the owner goes on, and is in none after it. -/
lemma DequeOk.frame (h : DequeOk q pc d v) (hold : (pc i).begunOn d = none)
    (hnew : P.begunOn d = none)
    (hthief : ∀ p, P.thiefOn d = some p → p = .loadTop ∨ (pc i).thiefOn d = some p) :
    DequeOk q (update pc i P) d v := by
  obtain ⟨o, l, held, hinv, hv, hone, hbusy⟩ := h
  refine ⟨o, l, held, ?_, hv, ?_, ?_⟩
  · rw [funext thiefOn_update]
    refine hinv.setThief fun p hp => ?_
    rcases hthief p hp with rfl | hsame
    · trivial
    · exact hinv.thieves i p hsame
  · exact (forall_update_iff pc fun _ Q => ∀ p, Q.begunOn d = some p → o = some p).mpr
      ⟨by simp [hnew], fun j _ => hone j⟩
  · intro p hp
    obtain ⟨j, hj⟩ := hbusy p hp
    refine ⟨j, ?_⟩
    rw [update_of_ne, hj]
    rintro rfl
    rw [hold] at hj
    cases hj

variable {c : κ} {lvl : Fin levels} {p p' : OwnerPc τ} {k : Caller κ}

omit [DecidableEq ι] in
lemma DequeOk.owner (h : DequeOk q pc (c, lvl) v) (hpc : pc i = .owner c lvl p k)
    (halone : ∀ j, j ≠ i → (pc j).begunOn (c, lvl) = none) :
    ∃ l held, Chaselev.Inv q (some p) (fun j => (pc j).thiefOn (c, lvl)) l held ∧
      l ++ held.toList = v := by
  obtain ⟨o, l, held, hinv, hv, hone, hbusy⟩ := h
  refine ⟨l, held, ?_, hv⟩
  cases hbegun : p.begun with
  | true =>
    have ho : o = some p := hone i p (by simp [hpc, Pc.begunOn, hbegun])
    rwa [← ho]
  | false =>
    have ho : o = none := by
      cases o with
      | none => rfl
      | some p0 =>
        obtain ⟨j, hj⟩ := hbusy p0 rfl
        by_cases hji : j = i
        · subst hji
          simp [hpc, Pc.begunOn, hbegun] at hj
        · rw [halone j hji] at hj
          cases hj
    rw [ho] at hinv
    exact hinv.start hbegun

lemma thiefOn_owner (hpc : pc i = .owner c lvl p k) (hP : P.thiefOn d = none) :
    (fun j => (update pc i P j).thiefOn d) = fun j => (pc j).thiefOn d := by
  funext j
  by_cases hj : j = i
  · subst hj
    rw [update_self, hP, hpc]
    rfl
  · rw [update_of_ne hj]

lemma DequeOk.owner_next (h : DequeOk q pc (c, lvl) v) (hpc : pc i = .owner c lvl p k)
    (halone : ∀ j, j ≠ i → (pc j).begunOn (c, lvl) = none) (hrun : ownerRun q p = (q', .inl p')) :
    DequeOk q' (update pc i (.owner c lvl p' k)) (c, lvl) v := by
  obtain ⟨l, held, hinv, hv⟩ := h.owner hpc halone
  obtain ⟨l', held', hinv', hsame⟩ := hinv.owner_next hrun
  have hbegun := (ownerRun_next hrun).1
  have hself : (Pc.owner c lvl p' k : Pc κ τ).begunOn (c, lvl) = some p' := by
    simp [Pc.begunOn, hbegun]
  refine ⟨some p', l', held', ?_, hsame.trans hv, ?_, ?_⟩
  · rwa [thiefOn_owner hpc rfl]
  · intro j p0 hj
    by_cases hji : j = i
    · subst hji
      rwa [update_self, hself] at hj
    · rw [update_of_ne hji, halone j hji] at hj
      cases hj
  · rintro _ ⟨⟩
    exact ⟨i, by rw [update_self, hself]⟩

lemma DequeOk.owner_done {r : OwnerRet τ} (h : DequeOk q pc (c, lvl) v)
    (hpc : pc i = .owner c lvl p k) (halone : ∀ j, j ≠ i → (pc j).begunOn (c, lvl) = none)
    (hrun : ownerRun q p = (q', .inr r)) (hP : P.begunOn (c, lvl) = none)
    (hP' : P.thiefOn (c, lvl) = none) :
    ∃ v', DequeOk q' (update pc i P) (c, lvl) v' ∧ Step cap v r.event v' := by
  obtain ⟨l, held, hinv, rfl⟩ := h.owner hpc halone
  obtain ⟨l', hinv', hevent⟩ := hinv.owner_done hrun
  refine ⟨l', ⟨none, l', none, ?_, List.append_nil l', ?_, nofun⟩, hevent⟩
  · rwa [thiefOn_owner hpc hP']
  · have hall := (forall_update_iff pc fun _ Q => Q.begunOn (c, lvl) = none).mpr ⟨hP, halone⟩
    intro j p0 hj
    rw [hall j] at hj
    cases hj

variable {self victim : κ} {tp tp' : ThiefPc τ} {tries left : ℕ} {took : Bool}

lemma begunOn_thief (hpc : pc i = .thief self victim lvl tp tries left took)
    (hP : P.begunOn d = none) (j : ι) : (update pc i P j).begunOn d = (pc j).begunOn d := by
  by_cases hj : j = i
  · subst hj
    rw [update_self, hP, hpc]
    rfl
  · rw [update_of_ne hj]

lemma DequeOk.thief_next (h : DequeOk q pc (victim, lvl) v)
    (hpc : pc i = .thief self victim lvl tp tries left took)
    (hrun : thiefRun q tp = (q', .inl tp')) :
    DequeOk q' (update pc i (.thief self victim lvl tp' tries left took)) (victim, lvl)
      v := by
  obtain ⟨o, l, held, hinv, hv, hone, hbusy⟩ := h
  have hth : (fun j => (pc j).thiefOn (victim, lvl)) i = some tp := by simp [hpc, Pc.thiefOn]
  obtain ⟨rfl, hinv'⟩ := hinv.thief_next hth hrun
  refine ⟨o, l, held, ?_, hv, ?_, ?_⟩
  · rw [funext thiefOn_update]
    simpa [Pc.thiefOn] using hinv'
  · intro j p hj
    rw [begunOn_thief hpc rfl] at hj
    exact hone j p hj
  · intro p hp
    obtain ⟨j, hj⟩ := hbusy p hp
    exact ⟨j, by rw [begunOn_thief hpc rfl, hj]⟩

lemma DequeOk.thief_done {r : ThiefRet τ} (h : DequeOk q pc (victim, lvl) v)
    (hpc : pc i = .thief self victim lvl tp tries left took)
    (hfresh : ∀ t x seen, tp = .cas t x seen → q.advances < seen + 2 ^ 64)
    (hrun : thiefRun q tp = (q', .inr r)) (hP : P.begunOn (victim, lvl) = none)
    (hP' : ∀ p, P.thiefOn (victim, lvl) = some p → p = .loadTop) :
    ∃ v', DequeOk q' (update pc i P) (victim, lvl) v' ∧
      match r.event? with
      | none => v' = v
      | some e => Step cap v e v' := by
  obtain ⟨o, l, held, hinv, rfl, hone, hbusy⟩ := h
  have hth : (fun j => (pc j).thiefOn (victim, lvl)) i = some tp := by simp [hpc, Pc.thiefOn]
  obtain ⟨l', hinv', hevent⟩ := hinv.thief_done hth hfresh hrun
  refine ⟨l' ++ held.toList, ⟨o, l', held, ?_, rfl, ?_, ?_⟩, ?_⟩
  · rw [funext thiefOn_update]
    have hset := hinv'.setThief (i := i) (x := P.thiefOn (victim, lvl)) fun p hp => by
      rw [hP' p hp]
      trivial
    rwa [update_idem] at hset
  · intro j p hj
    rw [begunOn_thief hpc hP] at hj
    exact hone j p hj
  · intro p hp
    obtain ⟨j, hj⟩ := hbusy p hp
    exact ⟨j, by rw [begunOn_thief hpc hP, hj]⟩
  · cases hr : r.event? with
    | none =>
      rw [hr] at hevent
      show l' ++ held.toList = l ++ held.toList
      rw [show l' = l from hevent]
    | some e =>
      rwa [hr] at hevent

end

/-! ### All deques -/

section

variable [DecidableEq τ] [Fintype κ] [Fintype ι] {s s' : Sys κ ι τ} {view : κ × Fin levels → List τ}

/-- One for a live task. -/
def liveCount (s : Sys κ ι τ) (t : τ) : ℤ := if s.live t then 1 else 0

/-- The invariant of the run queues, with the tasks of each deque. -/
structure Inv (s : Sys κ ι τ) (view : κ × Fin levels → List τ) : Prop where
  deques : ∀ d, DequeOk (s.deque d) s.pc d (view d)
  alone : ∀ d i j, (s.pc i).begunOn d ≠ none → (s.pc j).begunOn d ≠ none → i = j
  places : ∀ t, ∑ d, ((view d).count t : ℤ) + ∑ i, (one (s.pc i).hand t : ℤ) = liveCount s t
  counts : ∀ c, s.nrRunning c =
    BitVec.ofInt 32 (∑ lvl, ((view (c, lvl)).length : ℤ) + ∑ i, (s.pc i).ahead c)

omit [DecidableEq ι] in
lemma Inv.conserved (h : Inv s view) : Conserved s := by
  refine ⟨view, ?_, ?_, ?_⟩
  · intro t
    have hplaces := h.places t
    have hhands : (univ.filter fun i => (s.pc i).hand = some t).card =
        ∑ i, one (s.pc i).hand t := holders_eq_sum (fun i => (s.pc i).hand) t
    rw [hhands]
    unfold liveCount at hplaces
    zify
    rw [hplaces]
  · exact fun d hnone => ((h.deques d).contents hnone).1
  · intro hquiet c
    have hahead : ∑ i, (s.pc i).ahead c = 0 :=
      sum_eq_zero fun i _ => Pc.ahead_of_quiet (hquiet i) c
    have hlen : ∀ lvl, (view (c, lvl)).length ≤ cap := fun lvl =>
      ((h.deques (c, lvl)).contents fun i => Pc.begunOn_of_quiet (hquiet i) _).2
    have hsum : ∑ lvl, (view (c, lvl)).length ≤ levels * cap := by
      refine (sum_le_card_nsmul univ _ cap fun lvl _ => hlen lvl).trans ?_
      rw [card_univ, Fintype.card_fin, smul_eq_mul]
    have hbound : levels * cap < 2 ^ 32 := by decide
    rw [h.counts c, hahead, add_zero, ← Nat.cast_sum, BitVec.ofInt_natCast, BitVec.toNat_ofNat,
      Nat.mod_eq_of_lt (by omega)]

/-- **One agent goes on and one deque changes.** -/
lemma Inv.change (h : Inv s view) (hd : DequeOk (s'.deque d) s'.pc d v)
    (hother : ∀ d', d' ≠ d → s'.deque d' = s.deque d') (hpc : s'.pc = update s.pc i P)
    (hold : ∀ d', d' ≠ d → (s.pc i).begunOn d' = none) (hnew : ∀ d', d' ≠ d → P.begunOn d' = none)
    (hthief : ∀ d' p, d' ≠ d → P.thiefOn d' = some p → p = .loadTop)
    (halone : P.begunOn d ≠ none → ∀ j, j ≠ i → (s.pc j).begunOn d = none)
    (hplaces : ∀ t, (v.count t : ℤ) + one P.hand t + liveCount s t =
      (view d).count t + one (s.pc i).hand t + liveCount s' t)
    (hcounts : ∀ c, s'.nrRunning c = s.nrRunning c + BitVec.ofInt 32
      ((if d.1 = c then (v.length : ℤ) - (view d).length else 0) +
        (P.ahead c - (s.pc i).ahead c))) : Inv s' (update view d v) := by
  constructor
  case deques =>
    intro d'
    by_cases hdd : d' = d
    · subst hdd
      rwa [update_self]
    · rw [update_of_ne hdd, hother d' hdd, hpc]
      exact (h.deques d').frame (hold d' hdd) (hnew d' hdd) fun p hp => .inl (hthief d' p hdd hp)
  case alone =>
    intro d' j j' hj hj'
    rw [hpc, update_apply] at hj hj'
    have hdd : P.begunOn d' ≠ none → d' = d := not_imp_comm.mp (hnew d')
    split_ifs at hj hj' with hji hji' hji'
    · rw [hji, hji']
    · obtain rfl := hdd hj
      exact absurd (halone hj j' hji') hj'
    · obtain rfl := hdd hj'
      exact absurd (halone hj' j hji) hj
    · exact h.alone d' j j' hj hj'
  case places =>
    intro t
    have hview := sum_update (fun _ (l : List τ) => (l.count t : ℤ)) view d v
    have hhands := sum_update (fun _ (P : Pc κ τ) => (one P.hand t : ℤ)) s.pc i P
    rw [hpc, hview, hhands]
    have := h.places t
    have := hplaces t
    omega
  case counts =>
    intro c
    have hahead := sum_update (fun _ (P : Pc κ τ) => P.ahead c) s.pc i P
    have hlen : ∑ lvl, ((update view d v (c, lvl)).length : ℤ) =
        ∑ lvl, ((view (c, lvl)).length : ℤ) +
          if d.1 = c then (v.length : ℤ) - (view d).length else 0 := by
      split_ifs with hc
      · subst hc
        have hrow : ∀ lvl, update view d v (d.1, lvl) =
            update (fun lvl => view (d.1, lvl)) d.2 v lvl := by
          simp [update_apply, Prod.ext_iff]
        simp only [hrow]
        rw [sum_update (fun _ (l : List τ) => (l.length : ℤ))]
        ring
      · rw [add_zero]
        refine sum_congr rfl fun lvl _ => ?_
        rw [update_of_ne fun heq => hc (congrArg Prod.fst heq).symm]
    rw [hcounts c, h.counts c, hpc, hahead, hlen, ← BitVec.ofInt_add]
    congr 1
    ring

lemma Inv.move (h : Inv s view) (hdeque : s'.deque = s.deque)
    (hpc : s'.pc = update s.pc i P) (hold : ∀ d, (s.pc i).begunOn d = none)
    (hnew : ∀ d, P.begunOn d = none) (hthief : ∀ d p, P.thiefOn d = some p → p = .loadTop)
    (hplaces : ∀ t, (one P.hand t : ℤ) + liveCount s t = one (s.pc i).hand t + liveCount s' t)
    (hcounts : ∀ c, s'.nrRunning c =
      s.nrRunning c + BitVec.ofInt 32 (P.ahead c - (s.pc i).ahead c)) : Inv s' view := by
  constructor
  case deques =>
    intro d
    rw [hdeque, hpc]
    exact (h.deques d).frame (hold d) (hnew d) fun p hp => .inl (hthief d p hp)
  case alone =>
    intro d j j' hj hj'
    have hkeep : ∀ j, (s'.pc j).begunOn d ≠ none → (s.pc j).begunOn d ≠ none := by
      intro j hj
      rw [hpc, update_apply] at hj
      split_ifs at hj
      · exact absurd (hnew d) hj
      · exact hj
    exact h.alone d j j' (hkeep j hj) (hkeep j' hj')
  case places =>
    intro t
    have hhands := sum_update (fun _ (P : Pc κ τ) => (one P.hand t : ℤ)) s.pc i P
    rw [hpc, hhands]
    have := h.places t
    have := hplaces t
    omega
  case counts =>
    intro c
    have hahead := sum_update (fun _ (P : Pc κ τ) => P.ahead c) s.pc i P
    rw [hcounts c, h.counts c, hpc, hahead, ← BitVec.ofInt_add]
    congr 1
    ring

end

end Makaos.RunQueue
