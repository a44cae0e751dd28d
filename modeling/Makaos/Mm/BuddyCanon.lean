import Makaos.Mm.BuddyRun

/-!
The free lists of the buddy allocator depend on nothing but the frames that are held.

* `BuddyInv.covered`: an aligned block whose frames are all free is part of one free block.
* `buddy_canonical`: **two runs that end with the same frames held end with the same free blocks**,
  so that returning memory undoes all splitting, in whatever order it is returned.
* `buddy_alloc_complete`: **an allocation succeeds whenever it can**, in every state a run reaches.
-/

namespace Makaos

open Pmm DyadicBlock Relation

variable {s s' : Pmm} {L L' : ℕ → List ℕ} {t t' t₁ t₂ : BuddySys}

/-- Since no two buddies are both free, free memory stands in as few blocks as possible. -/
lemma BuddyInv.covered (h : BuddyInv s L) {o i : ℕ} (ho : o ≤ maxOrder)
    (hfree : (⟨o, i⟩ : DyadicBlock).frames ⊆ freeFrames L) :
    ∃ d, IsFree L d ∧ o ≤ d.order ∧ (⟨o, i⟩ : DyadicBlock).frames ⊆ d.frames := by
  induction o generalizing i with
  | zero =>
    obtain ⟨d, hd, hmem⟩ := hfree (first_mem_frames _)
    exact ⟨d, hd, d.order.zero_le, frames_subset_of_mem (first_mem_frames _) hmem d.order.zero_le⟩
  | succ o ih =>
    by_contra hno
    -- a free block around one half is that half, since it does not contain the whole
    have hhalf : ∀ c : DyadicBlock, c.order = o → c.frames ⊆ (⟨o + 1, i⟩ : DyadicBlock).frames →
        IsFree L c := by
      rintro c rfl hc
      obtain ⟨d, hd, hle, hcd⟩ := ih (by omega) (hc.trans hfree)
      have hmem := hcd c.first_mem_frames
      rcases hle.eq_or_lt with heq | hlt
      · obtain rfl := eq_of_mem heq c.first_mem_frames hmem
        exact hd
      · exact absurd ⟨d, hd, hlt, frames_subset_of_mem (hc c.first_mem_frames) hmem hlt⟩ hno
    have hl := hhalf (left o i) rfl (frames_halves o i ▸ Set.subset_union_left)
    have hr := hhalf (right o i) rfl (frames_halves o i ▸ Set.subset_union_right)
    exact h.noBuddies (left o i) ho hl (buddy_left o i ▸ hr)

/-- The free blocks are determined by the free frames. -/
lemma BuddyInv.mem_of_frames (h : BuddyInv s L) (h' : BuddyInv s' L')
    (hframes : freeFrames L = freeFrames L') {o a : ℕ} (ha : a ∈ L o) : a ∈ L' o := by
  obtain ⟨i, rfl⟩ := h.aligned o a ha
  let b : DyadicBlock := ⟨o, i⟩
  have hb : IsFree L b := ha
  obtain ⟨d', hd', hle', hsub'⟩ := h'.covered (h.order_le b hb)
    (hframes ▸ frames_subset_free hb)
  obtain ⟨d, hd, hle, hsub⟩ := h.covered (h'.order_le d' hd') (hframes ▸ frames_subset_free hd')
  have hmem := hsub' b.first_mem_frames
  obtain rfl : b = d := by
    by_contra hne
    exact Set.disjoint_left.mp (h.disjoint b d hb hd hne) b.first_mem_frames (hsub hmem)
  obtain rfl := eq_of_mem (le_antisymm hle' hle) b.first_mem_frames hmem
  exact hd'

/-- The free frames are those of the start that are not held. -/
lemma BuddySysInv.free_eq (h : BuddySysInv t L) (hrun : ReflTransGen BuddyStep t t') :
    ∃ L', BuddySysInv t' L' ∧ freeFrames L' = (freeFrames L ∪ t.out) \ t'.out := by
  obtain ⟨L', h', hu⟩ := h.run hrun
  exact ⟨L', h', by rw [← hu, Set.union_sdiff_right, h'.apart.sdiff_eq_left]⟩

/-- **The allocator has no memory of its past.** Two runs from one state that end with the same
frames held end with the same blocks on each free list. -/
theorem buddy_canonical (h : BuddySysInv t L) (hrun₁ : ReflTransGen BuddyStep t t₁)
    (hrun₂ : ReflTransGen BuddyStep t t₂) (hout : t₁.out = t₂.out) :
    ∃ L₁ L₂, BuddyInv t₁.pmm L₁ ∧ BuddyInv t₂.pmm L₂ ∧ ∀ o, (L₁ o).Perm (L₂ o) := by
  obtain ⟨L₁, h₁, hf₁⟩ := h.free_eq hrun₁
  obtain ⟨L₂, h₂, hf₂⟩ := h.free_eq hrun₂
  have hframes : freeFrames L₁ = freeFrames L₂ := by rw [hf₁, hf₂, hout]
  refine ⟨L₁, L₂, h₁.inv, h₂.inv, fun o => ?_⟩
  refine (List.perm_ext_iff_of_nodup (h₁.inv.nodup o) (h₂.inv.nodup o)).mpr fun a => ?_
  exact ⟨h₁.inv.mem_of_frames h₂.inv hframes, h₂.inv.mem_of_frames h₁.inv hframes.symm⟩

lemma lowerTwo_subset : (⟨1, 0⟩ : DyadicBlock).frames ⊆ fourFrames.out := fun _ hf =>
  Set.mem_Iio.mpr (hf.2.trans_le (by decide))

/-- Two frames are returned together, and one by one. -/
theorem buddy_canonical_halves : ∃ t₁ t₂ L₁ L₂, ReflTransGen BuddyStep fourFrames t₁ ∧
    ReflTransGen BuddyStep fourFrames t₂ ∧ BuddyInv t₁.pmm L₁ ∧ BuddyInv t₂.pmm L₂ ∧
      ∀ o, (L₁ o).Perm (L₂ o) := by
  have hleft := Set.subset_union_left.trans (frames_halves 0 0 ▸ lowerTwo_subset)
  have hright : (⟨0, 1⟩ : DyadicBlock).frames ⊆ fourFrames.out \ (⟨0, 0⟩ : DyadicBlock).frames :=
    fun f hf => ⟨Set.mem_Iio.mpr (hf.2.trans_le (by decide)), fun h => (h.2.trans_le hf.1).false⟩
  have hrun₁ := ReflTransGen.single (BuddyStep.free lowerTwo_subset rfl)
  have hrun₂ := (ReflTransGen.single (BuddyStep.free hleft rfl)).tail (BuddyStep.free hright rfl)
  obtain ⟨L₁, L₂, h₁, h₂, hperm⟩ := buddy_canonical fourFrames_inv hrun₁ hrun₂
    ((congrArg _ (frames_halves 0 0)).trans Set.sdiff_sdiff.symm)
  exact ⟨_, _, L₁, L₂, hrun₁, hrun₂, h₁, h₂, hperm⟩

/-- **An allocation succeeds whenever it can**: if and only if, of the frames that the run began
with, an aligned block of the wanted order is not held. -/
theorem buddy_alloc_complete (h : BuddySysInv t L) (hrun : ReflTransGen BuddyStep t t') {order : ℕ}
    (ho : order ≤ maxOrder) :
    (∃ a p, t'.pmm.buddyAllocLocked order = .ok (some a, p)) ↔
      ∃ b : DyadicBlock, b.order = order ∧ b.frames ⊆ (freeFrames L ∪ t.out) \ t'.out := by
  obtain ⟨L', h', hframes⟩ := h.free_eq hrun
  rw [← hframes]
  rcases buddyAllocLocked_spec h'.inv order with ⟨hnone, hsmall⟩ | ⟨b, s', -, hsome, hb, hsub, -⟩
  · refine iff_of_false ?_ ?_
    · rintro ⟨a, p, hok⟩
      rw [hnone] at hok
      cases hok
    · rintro ⟨b, rfl, hsub⟩
      obtain ⟨d, hd, hle, -⟩ := h'.inv.covered ho hsub
      exact absurd (hsmall d hd) (by omega)
  · exact iff_of_true ⟨_, s', hsome⟩ ⟨b, hb, hsub⟩

/-- After two frames have been returned together, a block of order 1 can be had. -/
theorem buddy_alloc_complete_returned : ∃ t', ReflTransGen BuddyStep fourFrames t' ∧
    ∃ a p, t'.pmm.buddyAllocLocked 1 = .ok (some a, p) := by
  have hrun := ReflTransGen.single (BuddyStep.free lowerTwo_subset rfl)
  refine ⟨_, hrun, (buddy_alloc_complete fourFrames_inv hrun (by decide)).mpr ⟨⟨1, 0⟩, rfl, ?_⟩⟩
  exact fun f hf => ⟨.inr (lowerTwo_subset hf), fun h => h.2 hf⟩

end Makaos
