import Makaos.Lib.Transition
import Mathlib.Data.BitVec

/-!
The slots of the shared rings that `io_uring_enter_impl`, `io_wq_enqueue_chain`, the polling thread
and `io_uring_post_cqe` use (io/io_uring.c).  The user may write the shared memory at any time, so
every word read from it is a part of the step that reads it.

* `slotStep`: the steps, with books of the slots used and of the entries handled.
* `Trusted`, `slots_in_ring`: **when every slot is one of the ring, and a pass handles at most as
  many entries as it has.**
* `mask_from_user`: a mask and a tail for which they are not.
-/

namespace Makaos.UringSlots

open Transition Option Nat

/-! ### A pass over the submission ring -/

/-- Which loop the thread is in: that of `io_uring_enter_impl`, that of `io_wq_enqueue_chain`, the one
that cancels the rest of a chain, or that of `io_sqp_kthread_entry`. -/
inductive Loop where
  | submit | chain | cancel | poll
  deriving DecidableEq

/-- The words the pass has read, `to_submit - submitted`, and the entries it has handled. -/
structure Pass where
  loop : Loop
  mask : BitVec 32
  tail : BitVec 32
  head : BitVec 32
  budget : ℕ
  handled : ℕ

/-- A thread, and the slots of the submission ring and of the completion ring it has used. -/
structure Sys where
  pass : Option Pass
  sqSlots : List (BitVec 32)
  cqSlots : List (BitVec 32)

/-- What the thread does, with the words it reads. -/
inductive Act where
  | enter (mask tail head : BitVec 32) (toSubmit : ℕ)
  | poll (mask tail head : BitVec 32)
  /-- The loop takes the next entry; `async` and `breaks` tell whether it is for the worker, and
  whether its failure cancels the chain. -/
  | entry (async breaks : Bool)
  /-- The next entry of a chain; `failed` if there is no worker or no memory for it. -/
  | link (failed linked : Bool)
  /-- The next entry is cancelled. -/
  | cancel (linked : Bool)
  | leave
  /-- `io_uring_post_cqe` stores a completion. -/
  | post (mask tail : BitVec 32)

namespace Pass

/-- The slot of the entry at the head. -/
def slot (p : Pass) : BitVec 32 := p.head &&& p.mask

/-- The entry at the head has been handled. -/
def advance (p : Pass) (loop : Loop) : Pass :=
  { p with loop := loop, head := p.head + 1, handled := p.handled + 1 }

/-- One round of a loop; the entry at the head is read. -/
def round (p : Pass) : Act → Option Pass
  | .entry async breaks =>
    match p.loop with
    | .poll => some (p.advance .poll)
    | .submit =>
      if p.budget = 0 then none
      else if async then some { p with loop := .chain, budget := p.budget - 1 }
      else some { p.advance (if breaks then .cancel else .submit) with budget := p.budget - 1 }
    | _ => none
  | .link failed linked =>
    if p.loop = .chain then some (p.advance (if failed || !linked then .submit else .chain)) else none
  | .cancel linked =>
    if p.loop = .cancel ∧ p.budget ≠ 0 then
      some { p.advance (if linked then .cancel else .submit) with budget := p.budget - 1 }
    else none
  | _ => none

end Pass

/-- A round of the pass, unless it has come to the tail it has read. -/
def Sys.round (s : Sys) (a : Act) : Option Sys :=
  match s.pass with
  | none => none
  | some p =>
    if p.head = p.tail then none
    else (p.round a).map fun p' => { s with pass := some p', sqSlots := p.slot :: s.sqSlots }

/-- One step. -/
def slotStep (s : Sys) : Act → Option Sys
  | .enter mask tail head n => some { s with pass := some ⟨.submit, mask, tail, head, n, 0⟩ }
  | .poll mask tail head => some { s with pass := some ⟨.poll, mask, tail, head, 0, 0⟩ }
  | .leave => some { s with pass := none }
  | .post mask tail => some { s with cqSlots := (tail &&& mask) :: s.cqSlots }
  | a => s.round a

/-- The words read fit a submission ring of `n` and a completion ring of `m` entries. -/
def Trusted (n m : ℕ) (_ : Sys) : Act → Prop
  | .enter mask tail head _ | .poll mask tail head => mask.toNat < n ∧ (tail - head).toNat ≤ n
  | .post mask _ => mask.toNat < m
  | _ => True

instance (n m : ℕ) : DecidableRel (Trusted n m)
  | _, .enter .. | _, .poll .. => inferInstanceAs (Decidable (_ ∧ _))
  | _, .post .. => inferInstanceAs (Decidable (_ < m))
  | _, .entry .. | _, .link .. | _, .cancel _ | _, .leave => inferInstanceAs (Decidable True)

/-- The slots are those of rings of `n` and `m` entries, and a pass handles at most `n` of them. -/
structure InRing (n m : ℕ) (s : Sys) : Prop where
  sq : ∀ i ∈ s.sqSlots, i.toNat < n
  cq : ∀ i ∈ s.cqSlots, i.toNat < m
  handled : ∀ p ∈ s.pass, p.handled ≤ n

/-! ### The invariant -/

variable {n m : ℕ} {s s' : Sys} {a : Act} {A : List Act} {p p' : Pass}

/-- What is left of a pass fits in the ring. -/
structure Inv (n m : ℕ) (s : Sys) : Prop extends InRing n m s where
  mask : ∀ p ∈ s.pass, p.mask.toNat < n
  left : ∀ p ∈ s.pass, p.handled + (p.tail - p.head).toNat ≤ n

lemma and_lt {i mask : BitVec 32} (h : mask.toNat < n) : (i &&& mask).toNat < n := by
  rw [BitVec.toNat_and]
  exact and_le_right.trans_lt h

/-- A round keeps the words read, and handles at most the entry at the head. -/
lemma round_spec (h : p.round a = some p') : p'.mask = p.mask ∧ p'.tail = p.tail ∧
    (p'.head = p.head ∧ p'.handled = p.handled ∨
      p'.head = p.head + 1 ∧ p'.handled = p.handled + 1) := by
  cases a with
  | entry async breaks =>
    simp only [Pass.round] at h
    split at h
    · cases h
      exact ⟨rfl, rfl, .inr ⟨rfl, rfl⟩⟩
    · split_ifs at h <;> cases h
      · exact ⟨rfl, rfl, .inl ⟨rfl, rfl⟩⟩
      · exact ⟨rfl, rfl, .inr ⟨rfl, rfl⟩⟩
      · exact ⟨rfl, rfl, .inr ⟨rfl, rfl⟩⟩
    · nomatch h
  | link failed linked | cancel linked =>
    obtain ⟨-, rfl⟩ := ite_some_none_eq_some.mp h
    exact ⟨rfl, rfl, .inr ⟨rfl, rfl⟩⟩
  | _ => nomatch h

lemma Inv.begin {loop : Loop} {mask tail head : BitVec 32} {budget : ℕ} (h : Inv n m s)
    (hok : mask.toNat < n ∧ (tail - head).toNat ≤ n) :
    Inv n m { s with pass := some ⟨loop, mask, tail, head, budget, 0⟩ } := by
  refine ⟨⟨h.sq, h.cq, ?_⟩, ?_, ?_⟩ <;> rintro p ⟨⟩
  · exact zero_le n
  · exact hok.1
  · exact (zero_add _).trans_le hok.2

lemma Inv.round (h : Inv n m s) (hs : s.round a = some s') : Inv n m s' := by
  rw [Sys.round] at hs
  split at hs
  · nomatch hs
  next p hp =>
    split_ifs at hs with hne
    obtain ⟨p', hr, rfl⟩ := map_eq_some_iff.mp hs
    have hleft := h.left p hp
    obtain ⟨hm, ht, hh⟩ := round_spec hr
    have hdist : (p.tail - (p.head + 1)).toNat + 1 = (p.tail - p.head).toNat := by bv_omega
    have hleft' : p'.handled + (p'.tail - p'.head).toNat ≤ n := by
      obtain ⟨hh, hc⟩ | ⟨hh, hc⟩ := hh <;> rw [ht, hh, hc] <;> omega
    refine ⟨⟨List.forall_mem_cons.mpr ⟨and_lt (h.mask p hp), h.sq⟩, h.cq, ?_⟩, ?_, ?_⟩ <;>
      rintro q ⟨⟩
    · exact (le_add_right _ _).trans hleft'
    · exact (congrArg BitVec.toNat hm).trans_lt (h.mask p hp)
    · exact hleft'

/-- **One step** that reads words that fit. -/
lemma Inv.step (h : Inv n m s) (hok : Trusted n m s a) (hs : slotStep s a = some s') :
    Inv n m s' := by
  cases a with
  | enter mask tail head k | poll mask tail head =>
    cases hs
    exact h.begin hok
  | leave =>
    cases hs
    exact ⟨⟨h.sq, h.cq, nofun⟩, nofun, nofun⟩
  | post mask tail =>
    cases hs
    exact ⟨⟨h.sq, List.forall_mem_cons.mpr ⟨and_lt hok, h.cq⟩, h.handled⟩, h.mask, h.left⟩
  | _ => exact h.round hs

/-- **Every slot is one of the ring**, in every run that reads words that fit. -/
theorem slots_in_ring (hrun : exec slotStep ⟨none, [], []⟩ A = some s)
    (hok : Meets slotStep (Trusted n m) ⟨none, [], []⟩ A) : InRing n m s :=
  (exec_invariant Inv.step hrun hok ⟨⟨nofun, nofun, nofun⟩, nofun, nofun⟩).toInRing

/-- One entry of a ring of one is submitted and completed. -/
theorem slots_in_ring_one : ∃ s, exec slotStep ⟨none, [], []⟩
    [.enter 0 8 7 1, .entry false false, .post 1 3, .leave] = some s ∧ InRing 1 2 s :=
  ⟨_, rfl, slots_in_ring (A := [.enter 0 8 7 1, .entry false false, .post 1 3, .leave]) rfl
    (by decide)⟩

/-- The user has written the masks, and a tail two ahead of the head: in rings of one and two entries
slot 7 is used, and two entries are handled. -/
theorem mask_from_user : ∃ s, exec slotStep ⟨none, [], []⟩
    [.enter 7 9 7 2, .entry false false, .post 7 7, .entry false false] = some s ∧
    s.sqSlots = [0, 7] ∧ s.cqSlots = [7] ∧ s.pass.map Pass.handled = some 2 :=
  ⟨_, rfl, by decide⟩

end Makaos.UringSlots
