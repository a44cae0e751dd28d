import Makaos.Mm.BuddyInv
import Mathlib.Logic.Relation

/-!
The buddy allocator over whole runs.

* `buddyAllocLocked_spec`, `buddyFreeLocked_spec`: the specifications of the two entry points,
  the only facts about them that the layers above use.
* `BuddySys`, `BuddyStep`: the allocator together with the frames its callers hold; a step is an
  allocation, the return of an aligned piece of the held memory, or a store of a holder into a
  frame it holds.
* `buddy_run_invariant`: every run keeps the invariant, keeps free and held frames apart and
  their union fixed, and no call of it panics.
-/

namespace Makaos

open Pmm Set Option List Nat Except Function

open IntrusiveList (Links)
variable {b : DyadicBlock} {L : ℕ → List ℕ}

/-! ### The search for a free block -/

lemma findOrder_spec (s : Pmm) : ∀ fuel current, maxOrder + 1 ≤ current + fuel →
    (s.findOrder fuel current ≤ maxOrder →
      current ≤ s.findOrder fuel current ∧ (s.freeLists (s.findOrder fuel current)).isSome) ∧
    (∀ o, current ≤ o → o < s.findOrder fuel current → o ≤ maxOrder → s.freeLists o = none) := by
  intro fuel
  induction fuel with
  | zero =>
    intro current hfuel
    rw [findOrder]
    exact ⟨fun h => by omega, fun o h1 h2 => by omega⟩
  | succ fuel ih =>
    intro current hfuel
    rw [findOrder]
    by_cases hle : current ≤ maxOrder
    · rw [if_pos hle]
      by_cases hsome : (s.freeLists current).isSome
      · rw [if_pos hsome]
        exact ⟨fun _ => ⟨le_rfl, hsome⟩, fun o h1 h2 => by omega⟩
      · rw [if_neg hsome]
        obtain ⟨h1, h2⟩ := ih (current + 1) (by omega)
        refine ⟨fun h => ⟨by have := (h1 h).1; omega, (h1 h).2⟩, fun o ho hlt hmax => ?_⟩
        rcases lt_or_ge current o with hgt | hge
        · exact h2 o hgt hlt hmax
        · obtain rfl : o = current := by omega
          exact not_isSome_iff_eq_none.mp hsome
    · rw [if_neg hle]
      exact ⟨fun h => by omega, fun o h1 h2 => by omega⟩

/-! ### The two entry points -/

namespace BuddyInv

variable {s : Pmm}

section

variable (h : BuddyInv s L)
include h

lemma of_counters (n : BitVec 64) (rc : ℕ → ℕ) :
    BuddyInv { s with freePages := n, frameRefcount := rc } L :=
  { h with config := { h.config with } }

/-- The links of a frame that is not free play no part. -/
lemma update_overlay {a : ℕ} (ha : a / pageSize ∉ freeFrames L)
    (v : Links ℕ) : BuddyInv { s with overlay := update s.overlay a v } L := by
  refine { h with config := { h.config with }, dlist := fun o => ?_ }
  refine (h.dlist o).frame fun c hc => update_of_ne ?_ _ _
  rintro rfl
  exact h.notMem_of_notFree ha o hc

lemma last_le_of_subset (hsub : b.frames ⊆ freeFrames L) : b.last ≤ s.totalFrames := by
  have hlt := b.first_lt_last
  have hmem : b.last - 1 ∈ b.frames := ⟨by omega, by omega⟩
  have := h.freeFrames_lt (hsub hmem)
  omega

lemma freeListPop_eq_taken (hhead : s.freeLists b.order = some (blockAddr b)) :
    ∃ s', s.freeListPop b.order = .ok (some (blockAddr b), s') ∧
      s'.bitToggle b.order (b.index / 2) = taken s b := by
  obtain ⟨l, hl⟩ : ∃ l, L b.order = blockAddr b :: l := by
    have := (h.dlist b.order).head_eq
    rw [hhead] at this
    cases hL : L b.order with
    | nil => rw [hL] at this; simp at this
    | cons a l =>
      rw [hL, head?_cons] at this
      exact ⟨l, by rw [some.inj this]⟩
  have hmem : blockAddr b ∈ L b.order := by rw [hl]; exact mem_cons_self
  obtain ⟨hn, hp⟩ := h.overlay_ok hmem
  have hd := h.dlist b.order
  rw [hl] at hd
  refine ⟨_, by simp only [freeListPop, hhead, hn, hp]; rfl, ?_⟩
  simp only [bitToggle, taken, IntrusiveList.pop_eq_remove hd, hhead]

lemma exists_head {o : ℕ} (ho : (s.freeLists o).isSome) :
    ∃ i, s.freeLists o = some (blockAddr ⟨o, i⟩) ∧ IsFree L ⟨o, i⟩ := by
  obtain ⟨a, ha⟩ := isSome_iff_exists.mp ho
  have hhead := (h.dlist o).head_eq
  rw [ha] at hhead
  have hmem : a ∈ L o := mem_of_mem_head? hhead.symm
  obtain ⟨i, rfl⟩ := h.aligned o a hmem
  exact ⟨i, ha, hmem⟩

end

end BuddyInv

open BuddyInv (taken)

/-- **`pmm_buddy_alloc_locked`**: it does not panic; it fails, leaving everything as it was, only
if no block of the wanted order or a larger one is free; otherwise it takes exactly one aligned
block of the wanted order out of the free frames. -/
lemma buddyAllocLocked_spec {s : Pmm} (h : BuddyInv s L) (order : ℕ) :
    (s.buddyAllocLocked order = .ok (none, s) ∧ ∀ b, IsFree L b → b.order < order) ∨
    ∃ (b : DyadicBlock) (s' : Pmm) (L' : ℕ → List ℕ),
      s.buddyAllocLocked order = .ok (some (blockAddr b), s') ∧ b.order = order ∧
      b.frames ⊆ freeFrames L ∧ BuddyInv s' L' ∧ freeFrames L' = freeFrames L \ b.frames ∧
      Keeps s s' (freeFrames L) := by
  by_cases hbig : order > maxOrder
  · refine .inl ⟨by rw [buddyAllocLocked, if_pos hbig], fun b hb => ?_⟩
    exact lt_of_le_of_lt (h.order_le b hb) hbig
  obtain ⟨hfound, hnone⟩ := findOrder_spec s (maxOrder + 1) order (by omega)
  rw [buddyAllocLocked, if_neg hbig]
  dsimp only
  by_cases hcur : s.findOrder (maxOrder + 1) order > maxOrder
  · refine .inl ⟨by rw [if_pos hcur], fun b hb => ?_⟩
    by_contra hge
    have hempty := hnone b.order (by omega)
      (lt_of_le_of_lt (h.order_le b hb) hcur) (h.order_le b hb)
    have hhead := (h.dlist b.order).head_eq
    rw [hempty] at hhead
    have hnil : L b.order = [] := head?_eq_none_iff.mp hhead.symm
    rw [IsFree, hnil] at hb
    simp at hb
  · obtain ⟨hle, hsome⟩ := hfound (by omega)
    set current := s.findOrder (maxOrder + 1) order with hc
    obtain ⟨i, hhead, hfree⟩ := h.exists_head hsome
    obtain ⟨s1, hpop, htaken⟩ := h.freeListPop_eq_taken (b := ⟨current, i⟩) hhead
    have htake := h.take hfree
    have hff := h.freeFrames_erase hfree
    have hdisj : Disjoint (⟨current, i⟩ : DyadicBlock).frames
        (freeFrames (eraseBlock L ⟨current, i⟩)) := by
      rw [hff]
      exact disjoint_sdiff_right
    obtain ⟨L', j, hinv, hfirst, hfree', hsub, hkeep⟩ :=
      splitDown_spec htake hle (by omega) (h.inRange _ hfree) hdisj
    have haddr : blockAddr ⟨current, i⟩ = blockAddr ⟨order, j⟩ := by
      rw [blockAddr, blockAddr, hfirst]
    have hindex : (blockAddr ⟨current, i⟩ >>> pageShift) >>> current = i := by
      rw [blockAddr_shiftRight]
      exact first_shiftRight ⟨current, i⟩
    have hhalf : i >>> 1 = i / 2 := shiftRight_eq_div_pow _ 1
    have hsubfree := BuddyInv.frames_subset_free hfree
    refine .inr ⟨⟨order, j⟩, { splitDown order current (taken s ⟨current, i⟩) i with
        freePages := (splitDown order current (taken s ⟨current, i⟩) i).freePages -
          BitVec.ofNat 64 (orderToPages order) }, L', ?_, rfl, hsub.trans hsubfree,
      hinv.of_counters _ _, ?_, ?_⟩
    · rw [if_neg hcur, hpop]
      simp only [hindex, hhalf]
      rw [← haddr]
      simp only at htaken
      rw [htaken]
    · rw [hfree', hff]
      ext f
      simp only [mem_union, mem_sdiff]
      constructor
      · rintro (⟨hf, hnf⟩ | ⟨hf, hnf⟩)
        · exact ⟨hf, fun hj => hnf (hsub hj)⟩
        · exact ⟨hsubfree hf, hnf⟩
      · rintro ⟨hf, hnf⟩
        by_cases hfc : f ∈ (⟨current, i⟩ : DyadicBlock).frames
        · exact .inr ⟨hfc, hnf⟩
        · exact .inl ⟨hf, hfc⟩
    · have hk := (h.keeps_taken hfree).trans hkeep (by
        rw [hff, sdiff_union_of_subset hsubfree])
      exact { hk with }

/-- **`pmm_buddy_free_locked`** on an aligned block of the managed range none of whose frames is
free: it does not panic, and adds exactly the block to the free frames. -/
lemma buddyFreeLocked_spec {s : Pmm} (h : BuddyInv s L) (hlast : b.last ≤ s.totalFrames)
    (hdisj : Disjoint b.frames (freeFrames L)) :
    ∃ s' L', s.buddyFreeLocked (blockAddr b) b.order = .ok s' ∧ BuddyInv s' L' ∧
      freeFrames L' = b.frames ∪ freeFrames L ∧ Keeps s s' (b.frames ∪ freeFrames L) := by
  have hord : b.order ≤ maxOrder := by
    by_contra hgt
    have hle := hlast.trans h.config.total_le
    rw [DyadicBlock.last_eq] at hle
    have hpow : 2 ^ 33 ≤ 2 ^ b.order :=
      Nat.pow_le_pow_right (by norm_num) (by simp only [maxOrder] at hgt; omega)
    have hmax : maxFrames = 16777216 := rfl
    omega
  have hfirst : ¬ b.first ≥ s.totalFrames := by
    have := b.first_lt_last
    omega
  have hidx := index_lt_blocks h.config hord hlast
  obtain ⟨s', L', hok, hinv, hfree, hkeep⟩ := mergeUp_spec (h.of_counters s.freePages
      (s.clearRefcounts b.first (orderToPages b.order)).frameRefcount) rfl hord hlast hdisj
  refine ⟨s', L', ?_, hinv, hfree, { hkeep with }⟩
  rw [buddyFreeLocked, if_neg (by omega)]
  dsimp only
  rw [blockAddr_shiftRight, if_neg hfirst, first_shiftRight,
    if_neg (by simp only [clearRefcounts]; omega)]
  exact hok

/-! ### Runs -/

/-- The allocator and the frames that are handed out. -/
structure BuddySys where
  pmm : Pmm
  out : Set ℕ

/-- The frames an allocation of an order hands out. -/
def grantedFrames (order : ℕ) : Option ℕ → Set ℕ
  | none => ∅
  | some addr => {f | addr / pageSize ≤ f ∧ f < addr / pageSize + 2 ^ order}

/-- One step of the system. -/
inductive BuddyStep : BuddySys → BuddySys → Prop
  /-- a call of `pmm_buddy_alloc_locked` that returns -/
  | alloc {t : BuddySys} {order : ℕ} {r : Option ℕ} {p : Pmm} :
      t.pmm.buddyAllocLocked order = .ok (r, p) →
      BuddyStep t ⟨p, t.out ∪ grantedFrames order r⟩
  /-- a call of `pmm_buddy_free_locked` that returns, for an aligned piece of what is handed out -/
  | free {t : BuddySys} {b : DyadicBlock} {p : Pmm} :
      b.frames ⊆ t.out → t.pmm.buddyFreeLocked (blockAddr b) b.order = .ok p →
      BuddyStep t ⟨p, t.out \ b.frames⟩
  /-- a holder stores to the first words of a frame it holds -/
  | store {t : BuddySys} {a : ℕ} (v : Links ℕ) :
      a / pageSize ∈ t.out →
      BuddyStep t ⟨{ t.pmm with overlay := update t.pmm.overlay a v }, t.out⟩

/-- The state of the system: the allocator's invariant, and the held frames are frames of the
managed range that are not free. -/
structure BuddySysInv (t : BuddySys) (L : ℕ → List ℕ) : Prop where
  inv : BuddyInv t.pmm L
  apart : Disjoint (freeFrames L) t.out
  out_lt : ∀ f ∈ t.out, f < t.pmm.totalFrames

lemma grantedFrames_blockAddr (b : DyadicBlock) :
    grantedFrames b.order (some (blockAddr b)) = b.frames := by
  ext f
  simp only [grantedFrames, blockAddr_div, DyadicBlock.frames, DyadicBlock.last_eq, mem_Ico,
    mem_ofPred_eq]

lemma BuddySysInv.last_le {t : BuddySys} (h : BuddySysInv t L) (hb : b.frames ⊆ t.out) :
    b.last ≤ t.pmm.totalFrames := by
  have hmem : b.last - 1 ∈ b.frames := by
    have := b.first_lt_last
    exact ⟨by omega, by omega⟩
  have := h.out_lt _ (hb hmem)
  omega

/-- **One step** keeps the state of the system and the union of free and held frames. -/
lemma BuddySysInv.step {t t' : BuddySys} (h : BuddySysInv t L) (hstep : BuddyStep t t') :
    ∃ L', BuddySysInv t' L' ∧ freeFrames L' ∪ t'.out = freeFrames L ∪ t.out := by
  cases hstep with
  | @alloc order r p hcall =>
    rcases buddyAllocLocked_spec h.inv order with ⟨hnone, _⟩ | ⟨b, s', L', hsome, ho, hsub, hinv,
      hfree, hkeep⟩
    · rw [hnone] at hcall
      obtain ⟨rfl, rfl⟩ := Prod.mk.inj (ok.inj hcall)
      simp only [grantedFrames, union_empty]
      exact ⟨L, h, rfl⟩
    · rw [hsome] at hcall
      obtain ⟨rfl, rfl⟩ := Prod.mk.inj (ok.inj hcall)
      subst ho
      rw [grantedFrames_blockAddr]
      refine ⟨L', ⟨hinv, ?_, fun f hf => ?_⟩, ?_⟩
      · rw [hfree]
        exact disjoint_union_right.mpr
          ⟨h.apart.mono_left sdiff_subset, disjoint_sdiff_left⟩
      · show f < s'.totalFrames
        rw [hkeep.total]
        rcases hf with hf | hf
        · exact h.out_lt f hf
        · exact h.inv.freeFrames_lt (hsub hf)
      · rw [hfree]
        ext f
        simp only [mem_union, mem_sdiff]
        have := @hsub f
        tauto
  | @free b p hsub hcall =>
    have hdisj : Disjoint b.frames (freeFrames L) := (h.apart.mono_right hsub).symm
    obtain ⟨s', L', hok, hinv, hfree, hkeep⟩ := buddyFreeLocked_spec h.inv (h.last_le hsub) hdisj
    rw [hok] at hcall
    obtain rfl := ok.inj hcall
    refine ⟨L', ⟨hinv, ?_, fun f hf => ?_⟩, ?_⟩
    · rw [hfree]
      refine disjoint_union_left.mpr ⟨disjoint_sdiff_right, ?_⟩
      exact h.apart.mono_right sdiff_subset
    · show f < s'.totalFrames
      rw [hkeep.total]
      exact h.out_lt f hf.1
    · rw [hfree]
      ext f
      simp only [mem_union, mem_sdiff]
      have := @hsub f
      tauto
  | @store a v ha =>
    have hnot : a / pageSize ∉ freeFrames L := fun hf => disjoint_left.mp h.apart hf ha
    exact ⟨L, ⟨h.inv.update_overlay hnot v, h.apart, h.out_lt⟩, rfl⟩

lemma BuddySysInv.run {t t' : BuddySys} {L : ℕ → List ℕ} (h : BuddySysInv t L)
    (hrun : Relation.ReflTransGen BuddyStep t t') :
    ∃ L', BuddySysInv t' L' ∧ freeFrames L' ∪ t'.out = freeFrames L ∪ t.out := by
  induction hrun with
  | refl => exact ⟨L, h, rfl⟩
  | tail _ hstep ih =>
    obtain ⟨L1, h1, hu1⟩ := ih
    obtain ⟨L2, h2, hu2⟩ := h1.step hstep
    exact ⟨L2, h2, hu2.trans hu1⟩

/-- **The buddy allocator over every run.**  From any state that satisfies the invariant, after
any sequence of allocations and returns of held memory: every free block is aligned and inside
the managed range, the free blocks are pairwise disjoint, no two buddies are both free, every
coalesce bit is the exclusive or of its pair (these are the fields of `BuddyInv`); the free
frames are disjoint from the held ones, their union is the one of the start, and neither entry
point can panic. -/
theorem buddy_run_invariant {t t' : BuddySys} {L : ℕ → List ℕ} (h : BuddySysInv t L)
    (hrun : Relation.ReflTransGen BuddyStep t t') :
    ∃ L', BuddyInv t'.pmm L' ∧ Disjoint (freeFrames L') t'.out ∧
      freeFrames L' ∪ t'.out = freeFrames L ∪ t.out ∧
      (∀ order, ∃ r, t'.pmm.buddyAllocLocked order = .ok r) ∧
      (∀ b : DyadicBlock, b.frames ⊆ t'.out →
        ∃ p, t'.pmm.buddyFreeLocked (blockAddr b) b.order = .ok p) := by
  obtain ⟨L', hinv, hu⟩ := h.run hrun
  refine ⟨L', hinv.inv, hinv.apart, hu, fun order => ?_, fun b hb => ?_⟩
  · rcases buddyAllocLocked_spec hinv.inv order with ⟨hnone, _⟩ | ⟨b, s', _, hsome, _⟩
    · exact ⟨_, hnone⟩
    · exact ⟨_, hsome⟩
  · obtain ⟨p, _, hok, _⟩ := buddyFreeLocked_spec hinv.inv (hinv.last_le hb)
      (hinv.apart.mono_right hb).symm
    exact ⟨p, hok⟩

/-- A range of four frames, all of them handed out. -/
def fourFrames : BuddySys where
  pmm :=
    { physCeiling := 4 * pageSize
      totalFrames := 4
      freePages := 0
      overlay := fun _ => ⟨none, none⟩
      freeLists := fun _ => none
      coalesce := fun _ _ => 0
      buddyBlocks := fun o => (4 + Pmm.orderToPages o - 1) >>> o
      frameRefcount := fun _ => 1 }
  out := Set.Iio 4

lemma fourFrames_inv : BuddySysInv fourFrames (fun _ => []) where
  inv := .empty ⟨by decide, le_rfl, fun _ _ => rfl⟩ rfl rfl
  apart := disjoint_left.mpr fun _ ⟨_, h, _⟩ => by simp [IsFree] at h
  out_lt := fun _ h => h

/-- Returning the lower two frames of the four and allocating one frame again. -/
theorem fourFrames_run : ∃ t', Relation.ReflTransGen BuddyStep fourFrames t' ∧ 0 ∈ t'.out ∧
    1 ∉ t'.out ∧ ∃ L', BuddyInv t'.pmm L' ∧ freeFrames L' ∪ t'.out = Set.Iio 4 := by
  have hsub : (⟨1, 0⟩ : DyadicBlock).frames ⊆ fourFrames.out := fun f hf =>
    mem_Iio.mpr (lt_of_lt_of_le hf.2 (by decide))
  have hrun := (Relation.ReflTransGen.single
    (BuddyStep.free hsub rfl)).tail (@BuddyStep.alloc _ 0 (some 0) _ rfl)
  obtain ⟨L', hinv, _, hunion, _⟩ := buddy_run_invariant fourFrames_inv hrun
  refine ⟨_, hrun, .inr ⟨zero_le _, by decide⟩, ?_, L', hinv, ?_⟩
  · rintro (⟨_, h⟩ | ⟨_, h⟩)
    · exact h ⟨by decide, by decide⟩
    · exact absurd h (by decide)
  · rw [hunion]
    ext f
    simp [freeFrames, IsFree, fourFrames]

end Makaos
