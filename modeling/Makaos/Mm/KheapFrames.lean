import Makaos.Mm.Kheap
import Makaos.Mm.SlabRun

/-!
Who owns which frame.

* `FrameOwner`, `FramesInv`: every frame is free in the buddy allocator, part of a slab, in the
  stash of one CPU, part of a live large block, or held by the rest of the kernel.
* `FramesInv.take`, `give`, `popStash`, `pushStash`: the four moves of frames, and their batches.
* `pmmBuddyAlloc_spec`, `pmmBuddyFree_spec`: the public page allocator moves whole blocks between
  these owners.
-/

namespace Makaos

open Function DyadicBlock Kheap List Option Nat Set
variable {f c : ℕ} {b : DyadicBlock} {L' : ℕ → List ℕ} {p : Pmm}
/-! ### Owners of frames -/

/-- Who owns a frame. -/
inductive FrameOwner where
  /-- on a free list of the buddy allocator -/
  | free
  /-- part of a slab -/
  | slab
  /-- in the stash of a CPU -/
  | stash (c : ℕ)
  /-- part of the live large block at the address -/
  | block (base : ℕ)
  /-- held by the rest of the kernel -/
  | other
  deriving DecidableEq, Repr

/-- The frame is available to the page allocator. -/
def FrameOwner.Pooled : FrameOwner → Prop
  | .free | .stash _ => True
  | _ => False

/-- The frames, their owners and the places they are kept. -/
structure FramesInv (k : Kheap) (L : ℕ → List ℕ) (loc : ℕ → SlotLoc) (own : ℕ → FrameOwner) :
    Prop where
  slab : SlabInv k.slab L loc
  free : ∀ f, f ∈ freeFrames L ↔ own f = .free
  slabs : ∀ f, f ∈ k.slab.frames ↔ own f = .slab
  stash : ∀ c p, p ∈ k.stash c ↔ ∃ f, p = f * pageSize ∧ own f = .stash c
  stash_nodup : ∀ c, (k.stash c).Nodup
  stash_lt : ∀ f c, own f = .stash c → f < k.slab.pmm.totalFrames

open Classical in
/-- With empty caches and stashes every frame is free or with somebody else. -/
lemma FramesInv.fresh {L : ℕ → List ℕ} {k : Kheap} {pmm : Pmm} (hinv : BuddyInv pmm L)
    (hslab : k.slab = Slab.init pmm) (hstash : ∀ c, k.stash c = []) :
    FramesInv k L (fun _ => .nowhere) (fun f => if f ∈ freeFrames L then .free else .other) := by
  refine ⟨by rw [hslab]; exact Slab.init_inv hinv, fun f => by simp, fun f => ?_, fun c p => ?_,
    fun c => by rw [hstash]; exact nodup_nil, fun f c hf => ?_⟩
  · have hnot : f ∉ k.slab.frames := by
      rw [hslab]
      exact fun hf => hf rfl
    refine iff_of_false hnot ?_
    split <;> simp
  · refine iff_of_false (by simp [hstash]) ?_
    rintro ⟨f, _, hf⟩
    split at hf <;> simp at hf
  · split at hf <;> simp at hf

/-- The owners with the frames of a block given to `w`. -/
def reown (own : ℕ → FrameOwner) (b : DyadicBlock) (w : FrameOwner) : ℕ → FrameOwner :=
  fun f => if b.first ≤ f ∧ f < b.last then w else own f

variable {own : ℕ → FrameOwner} {v w : FrameOwner}

lemma reown_of_mem (h : f ∈ b.frames) : reown own b w f = w := if_pos h

lemma reown_of_notMem (h : f ∉ b.frames) : reown own b w f = own f := if_neg h

/-- The old and the new owners of the block are in `A`, and `w` is not. -/
lemma reown_iff (A : FrameOwner → Prop) (hold : ∀ g ∈ b.frames, A (own g)) (hv : A v) (hw : ¬ A w)
    (f : ℕ) : own f = w ↔ reown own b v f = w := by
  by_cases hf : f ∈ b.frames
  · rw [reown_of_mem hf]
    exact iff_of_false (fun heq => hw (heq ▸ hold f hf)) fun heq => hw (heq ▸ hv)
  · rw [reown_of_notMem hf]

/-- The owner of the frame is the same, or it moved between the free lists and a stash. -/
def Settled (own own' : ℕ → FrameOwner) (f : ℕ) : Prop :=
  own' f = own f ∨ ((own f).Pooled ∧ (own' f).Pooled)

lemma Settled.eq {own own' : ℕ → FrameOwner} (h : Settled own own' f) (hnp : ¬ (own f).Pooled) :
    own' f = own f :=
  h.resolve_right fun hp => hnp hp.1

lemma Settled.trans {own own₁ own2 : ℕ → FrameOwner} (h : Settled own own₁ f)
    (h' : Settled own₁ own2 f) : Settled own own2 f := by
  rcases h with h | ⟨h1, h2⟩ <;> rcases h' with h' | ⟨h3, h4⟩
  · exact .inl (h'.trans h)
  · exact .inr ⟨h ▸ h3, h4⟩
  · exact .inr ⟨h1, by rw [h']; exact h2⟩
  · exact .inr ⟨h1, h4⟩

lemma SlabInv.setPmm {L : ℕ → List ℕ} {loc : ℕ → SlotLoc} {s : Slab} (h : SlabInv s L loc)
    (hinv : BuddyInv p L') (htotal : p.totalFrames = s.pmm.totalFrames)
    (hapart : ∀ f ∈ s.frames, f ∉ freeFrames L') : SlabInv { s with pmm := p } L' loc := by
  have hmap : ({ s with pmm := p } : Slab).pageMap = s.pageMap := by
    rw [Slab.pageMap, Slab.pageMap, htotal]
  exact ⟨hinv, h.geom, h.noPartial, h.noEmpty, h.noCpuPartial,
    by rw [hmap]; exact ⟨h.pages.page, hapart⟩, by rw [hmap]; exact h.slots⟩

lemma blockAddr_zero (f : ℕ) : blockAddr ⟨0, f⟩ = f * pageSize := by
  simp [blockAddr, first]

lemma frames_zero (f : ℕ) : (⟨0, f⟩ : DyadicBlock).frames = {f} := by
  ext g
  simp only [frames, first, last, mem_Ico, mem_singleton_iff, pow_zero, mul_one]
  omega

lemma forall_zero {P : ℕ → Prop} (h : P f) : ∀ g ∈ (⟨0, f⟩ : DyadicBlock).frames, P g := by
  rw [frames_zero]
  rintro g rfl
  exact h

lemma reown_zero (own : ℕ → FrameOwner) (f : ℕ) (w : FrameOwner) (g : ℕ) :
    reown own ⟨0, f⟩ w g = if g = f then w else own g := by
  by_cases hg : g = f
  · subst hg
    rw [reown_of_mem (by rw [frames_zero]; rfl), if_pos rfl]
  · rw [reown_of_notMem (by rw [frames_zero]; exact hg), if_neg hg]

namespace FramesInv

variable {k : Kheap} {L : ℕ → List ℕ} {loc : ℕ → SlotLoc} {own : ℕ → FrameOwner}
  {own₁ : ℕ → FrameOwner} {l : List ℕ} {k₁ : Kheap}

section

variable (h : FramesInv k L loc own)
include h

lemma setCounters (n : BitVec 64) (rc : ℕ → ℕ) :
    FramesInv (k.setPmm { k.slab.pmm with freePages := n, frameRefcount := rc }) L loc own :=
  { h with slab := h.slab.setPmm (h.slab.buddy.of_counters n rc) rfl h.slab.pages.apart }

/-- Owners outside the allocator can be renamed. -/
lemma rename {own' : ℕ → FrameOwner}
    (hsame : ∀ f, own' f = own f ∨ ((own f = .other ∨ ∃ a, own f = .block a) ∧
      (own' f = .other ∨ ∃ a, own' f = .block a))) : FramesInv k L loc own' := by
  have key : ∀ f w, (w = .free ∨ w = .slab ∨ ∃ c, w = FrameOwner.stash c) →
      (own' f = w ↔ own f = w) := by
    intro f w hw
    rcases hsame f with heq | ⟨h1, h2⟩
    · rw [heq]
    · rcases h1 with h1 | ⟨a, h1⟩ <;> rcases h2 with h2 | ⟨a', h2⟩ <;>
        rcases hw with rfl | rfl | ⟨c, rfl⟩ <;> simp [h1, h2]
  refine ⟨h.slab, fun f => ?_, fun f => ?_, fun c p => ?_, h.stash_nodup, fun f c hf => ?_⟩
  · rw [key f _ (.inl rfl)]
    exact h.free f
  · rw [key f _ (.inr (.inl rfl))]
    exact h.slabs f
  · simp only [key _ _ (.inr (.inr ⟨c, rfl⟩))]
    exact h.stash c p
  · exact h.stash_lt f c ((key f _ (.inr (.inr ⟨c, rfl⟩))).mp hf)

/-- A block moves between the free lists and the rest of the kernel. -/
lemma move (hinv : BuddyInv p L') (htotal : p.totalFrames = k.slab.pmm.totalFrames)
    (hold : ∀ f ∈ b.frames, own f = .free ∨ own f = .other) (hv : v = .free ∨ v = .other)
    (hfree : ∀ f, f ∈ freeFrames L' ↔ reown own b v f = .free) :
    FramesInv (k.setPmm p) L' loc (reown own b v) := by
  have hslab : ∀ f, f ∈ k.slab.frames ↔ reown own b v f = .slab :=
    fun f => (h.slabs f).trans (reown_iff (fun w => w = .free ∨ w = .other) hold hv (by simp) f)
  have hstash : ∀ f c, own f = .stash c ↔ reown own b v f = .stash c :=
    fun f c => reown_iff (fun w => w = .free ∨ w = .other) hold hv (by simp) f
  refine ⟨h.slab.setPmm hinv htotal fun f hf hmem => ?_, hfree, hslab, fun c q => ?_,
    h.stash_nodup, fun f c hf => ?_⟩
  · rw [hslab, (hfree f).mp hmem] at hf
    nomatch hf
  · exact (h.stash c q).trans (exists_congr fun f => and_congr_right fun _ => hstash f c)
  · exact (h.stash_lt f c ((hstash f c).mpr hf)).trans_eq htotal.symm

lemma take (hsub : b.frames ⊆ freeFrames L) (hinv : BuddyInv p L')
    (hfree : freeFrames L' = freeFrames L \ b.frames)
    (htotal : p.totalFrames = k.slab.pmm.totalFrames) :
    FramesInv (k.setPmm p) L' loc (reown own b .other) := by
  refine h.move hinv htotal (fun f hf => .inl ((h.free f).mp (hsub hf))) (.inr rfl) fun f => ?_
  rw [hfree]
  by_cases hf : f ∈ b.frames
  · simp [reown_of_mem hf, hf]
  · simp [reown_of_notMem hf, hf, h.free]

lemma give (hheld : ∀ f ∈ b.frames, own f = .other)
    (hinv : BuddyInv p L') (hfree : freeFrames L' = b.frames ∪ freeFrames L)
    (htotal : p.totalFrames = k.slab.pmm.totalFrames) :
    FramesInv (k.setPmm p) L' loc (reown own b .free) := by
  refine h.move hinv htotal (fun f hf => .inr (hheld f hf)) (.inl rfl) fun f => ?_
  rw [hfree]
  by_cases hf : f ∈ b.frames
  · simp [reown_of_mem hf, hf]
  · simp [reown_of_notMem hf, hf, h.free]

/-- A stash is replaced, and one frame moves between it and the rest of the kernel. -/
lemma moveStash (hu : own f = .other ∨ own f = .stash c) (hv : v = .other ∨ v = .stash c)
    (hnd : l.Nodup) (hl : ∀ q, q ∈ l ↔ ∃ g, q = g * pageSize ∧ reown own ⟨0, f⟩ v g = .stash c)
    (hlt : f < k.slab.pmm.totalFrames) : FramesInv (k.setStash c l) L loc (reown own ⟨0, f⟩ v) := by
  have key : ∀ w, ¬ (w = .other ∨ w = .stash c) → ∀ g, own g = w ↔ reown own ⟨0, f⟩ v g = w :=
    fun w hw => reown_iff (fun w => w = .other ∨ w = .stash c) (forall_zero hu) hv hw
  refine ⟨h.slab, fun g => (h.free g).trans (key _ (by simp) g),
    fun g => (h.slabs g).trans (key _ (by simp) g), fun c' q => ?_,
    (forall_update_iff _ fun _ => List.Nodup).mpr ⟨hnd, fun c' _ => h.stash_nodup c'⟩,
    fun g c' hg => ?_⟩
  · by_cases hc : c' = c
    · subst hc
      simpa [setStash] using hl q
    · simp only [setStash, update_of_ne hc]
      refine (h.stash c' q).trans (exists_congr fun g => and_congr_right fun _ => ?_)
      exact key _ (by simp [hc]) g
  · rw [reown_zero] at hg
    split_ifs at hg with hgf
    · exact hgf ▸ hlt
    · exact h.stash_lt g c' hg

lemma popStash {rest : List ℕ} (hx : k.stash c = f * pageSize :: rest) :
    FramesInv (k.setStash c rest) L loc (reown own ⟨0, f⟩ .other) := by
  have hown : own f = .stash c := by
    obtain ⟨g, hg, hown⟩ := (h.stash c (f * pageSize)).mp (by rw [hx]; exact mem_cons_self)
    rwa [eq_of_mul_eq_mul_right pageSize_pos hg]
  have hnd := h.stash_nodup c
  rw [hx, nodup_cons] at hnd
  refine h.moveStash (.inr hown) (.inl rfl) hnd.2 (fun q => ?_) (h.stash_lt f c hown)
  have hold := h.stash c q
  rw [hx, mem_cons] at hold
  simp only [reown_zero]
  constructor
  · intro hq
    obtain ⟨g, rfl, hg⟩ := hold.mp (.inr hq)
    refine ⟨g, rfl, ?_⟩
    rw [if_neg]
    · exact hg
    · rintro rfl
      exact hnd.1 hq
  · rintro ⟨g, rfl, hg⟩
    by_cases hgf : g = f
    · rw [if_pos hgf] at hg
      nomatch hg
    · rw [if_neg hgf] at hg
      refine (hold.mpr ⟨g, rfl, hg⟩).resolve_left fun heq => ?_
      exact hgf (eq_of_mul_eq_mul_right pageSize_pos heq)

lemma pushStash (hheld : own f = .other) (hlt : f < k.slab.pmm.totalFrames) :
    FramesInv (k.setStash c (f * pageSize :: k.stash c)) L loc (reown own ⟨0, f⟩ (.stash c)) := by
  have hnot : f * pageSize ∉ k.stash c := by
    intro hmem
    obtain ⟨g, hg, hown⟩ := (h.stash c _).mp hmem
    rw [← eq_of_mul_eq_mul_right pageSize_pos hg, hheld] at hown
    nomatch hown
  refine h.moveStash (.inl hheld) (.inr rfl) (nodup_cons.mpr ⟨hnot, h.stash_nodup c⟩)
    (fun q => ?_) hlt
  simp only [reown_zero, mem_cons, h.stash]
  constructor
  · rintro (rfl | ⟨g, rfl, hg⟩)
    · exact ⟨f, rfl, if_pos rfl⟩
    · exact ⟨g, rfl, by rw [hg, ite_self]⟩
  · rintro ⟨g, rfl, hg⟩
    by_cases hgf : g = f
    · exact .inl (by rw [hgf])
    · rw [if_neg hgf] at hg
      exact .inr ⟨g, rfl, hg⟩

end

/-! ### Batches -/

/-- The frames at the addresses of a list go from `v` to `w`, all others keep their owner. -/
structure Moved (l : List ℕ) (v w : FrameOwner) (own own' : ℕ → FrameOwner) : Prop where
  aligned : ∀ a ∈ l, ∃ f, a = f * pageSize
  before : ∀ f, f * pageSize ∈ l → own f = v
  after : ∀ f, f * pageSize ∈ l → own' f = w
  others : ∀ f, f * pageSize ∉ l → own' f = own f

lemma Moved.nil (v w : FrameOwner) : Moved [] v w own own :=
  ⟨by simp, by simp, by simp, fun _ _ => rfl⟩

/-- One more frame in front of a list that does not hold it. -/
lemma Moved.cons {own own₁ own' : ℕ → FrameOwner} (hown : own f = v)
    (h1 : ∀ g, own₁ g = if g = f then w else own g) (h : Moved l v w own₁ own')
    (hnot : f * pageSize ∉ l) : Moved (f * pageSize :: l) v w own own' := by
  have hne : ∀ g, g * pageSize ∈ l → g ≠ f := by
    rintro g hg rfl
    exact hnot hg
  refine ⟨?_, fun g hg => ?_, fun g hg => ?_, fun g hg => ?_⟩
  · rintro a ha
    rcases mem_cons.mp ha with rfl | ha
    · exact ⟨f, rfl⟩
    · exact h.aligned a ha
  · rcases mem_cons.mp hg with heq | hg
    · rw [eq_of_mul_eq_mul_right pageSize_pos heq, hown]
    · have := h.before g hg
      rwa [h1, if_neg (hne g hg)] at this
  · rcases mem_cons.mp hg with heq | hg
    · obtain rfl := eq_of_mul_eq_mul_right pageSize_pos heq
      rw [h.others g hnot, h1, if_pos rfl]
    · exact h.after g hg
  · rw [mem_cons, not_or] at hg
    rw [h.others g hg.2, h1, if_neg]
    rintro rfl
    exact hg.1 rfl

/-- The batch loop of a refill takes frames from the buddy allocator. -/
lemma takeBatch_spec : ∀ (n : ℕ) {k : Kheap} {L : ℕ → List ℕ} {own : ℕ → FrameOwner},
    FramesInv k L loc own → ∃ batch p L' own', takeBatch n k.slab.pmm = .ok (batch, p) ∧
      FramesInv (k.setPmm p) L' loc own' ∧ p.totalFrames = k.slab.pmm.totalFrames ∧
      batch.Nodup ∧ Moved batch .free .other own own' := by
  intro n
  induction n with
  | zero =>
    intro k L own h
    exact ⟨[], k.slab.pmm, L, own, rfl, h, rfl, nodup_nil, .nil _ _⟩
  | succ n ih =>
    intro k L own h
    rw [takeBatch]
    rcases buddyAllocLocked_spec h.slab.buddy 0 with ⟨hnone, _⟩ |
      ⟨b, p, L1, hsome, ho, hsub, hinv, hfree, hkeep⟩
    · rw [hnone]
      exact ⟨[], _, L, own, rfl, h, rfl, nodup_nil, .nil _ _⟩
    · obtain ⟨o, f⟩ := b
      obtain rfl : o = 0 := ho
      have h1 := h.take hsub hinv hfree hkeep.total
      obtain ⟨batch, p', L', own', hok, h', htot, hnd, hmoved⟩ := ih h1
      have hok' : takeBatch n p = .ok (batch, p') := hok
      rw [hsome]
      dsimp only
      rw [hok', blockAddr_zero]
      have hnot : f * pageSize ∉ batch := by
        intro hmem
        have := hmoved.before f hmem
        rw [reown_zero, if_pos rfl] at this
        nomatch this
      refine ⟨_, p', L', own', rfl, h', htot.trans hkeep.total, nodup_cons.mpr ⟨hnot, hnd⟩, ?_⟩
      exact .cons ((h.free f).mp (hsub (by rw [frames_zero]; rfl))) (reown_zero own f _) hmoved hnot

lemma fillStash : ∀ (l : List ℕ) {k : Kheap} {L : ℕ → List ℕ} {own : ℕ → FrameOwner},
    FramesInv k L loc own → k.stash c = [] → l.Nodup →
    (∀ a ∈ l, ∃ f, a = f * pageSize ∧ own f = .other ∧ f < k.slab.pmm.totalFrames) →
    ∃ own', FramesInv (k.setStash c l) L loc own' ∧ Moved l .other (.stash c) own own' := by
  intro l
  induction l with
  | nil =>
    intro k L own h hempty _ _
    refine ⟨own, ?_, .nil _ _⟩
    have hsame : k.setStash c [] = k := by
      rw [setStash, ← hempty, update_eq_self]
    rwa [hsame]
  | cons a l ih =>
    intro k L own h hempty hnd hheld
    rw [nodup_cons] at hnd
    obtain ⟨own₁, h1, hmoved⟩ := ih h hempty hnd.2 fun a' ha' =>
      hheld a' (mem_cons_of_mem _ ha')
    obtain ⟨f, rfl, hown, hlt⟩ := hheld a mem_cons_self
    have hown1 : own₁ f = .other := (hmoved.others f hnd.1).trans hown
    have h2 := h1.pushStash (c := c) hown1 hlt
    have hstash : (k.setStash c l).stash c = l := by simp [setStash]
    have hset : (k.setStash c l).setStash c (f * pageSize :: l) =
        k.setStash c (f * pageSize :: l) := by simp [setStash]
    rw [hstash, hset] at h2
    refine ⟨_, h2, ⟨fun a' ha' => ?_, fun g hg => ?_, fun g hg => ?_, fun g hg => ?_⟩⟩
    · obtain ⟨g, hg, _⟩ := hheld a' ha'
      exact ⟨g, hg⟩
    · obtain ⟨g', hg', hown', _⟩ := hheld _ hg
      rwa [eq_of_mul_eq_mul_right pageSize_pos hg']
    · rw [reown_zero]
      split_ifs with hne
      · rfl
      · refine hmoved.after g ((mem_cons.mp hg).resolve_left fun heq => ?_)
        exact hne (eq_of_mul_eq_mul_right pageSize_pos heq)
    · rw [mem_cons, not_or] at hg
      rw [reown_zero, if_neg, hmoved.others g hg.2]
      rintro rfl
      exact hg.1 rfl

/-- The top of a stash is taken, several frames at once. -/
lemma popStashMany : ∀ (l : List ℕ) {k : Kheap} {own : ℕ → FrameOwner} {rest : List ℕ},
    FramesInv k L loc own → k.stash c = l ++ rest →
    ∃ own', FramesInv (k.setStash c rest) L loc own' ∧ Moved l (.stash c) .other own own' := by
  intro l
  induction l with
  | nil =>
    intro k own rest h hx
    have hsame : k.setStash c rest = k := by
      rw [setStash, ← nil_append rest, ← hx, update_eq_self]
    rw [hsame]
    exact ⟨own, h, .nil _ _⟩
  | cons a l ih =>
    intro k own rest h hx
    obtain ⟨f, rfl, hown⟩ := (h.stash c a).mp (by rw [hx]; simp)
    rw [cons_append] at hx
    have hstash : (k.setStash c (l ++ rest)).stash c = l ++ rest := by simp [setStash]
    obtain ⟨own', h', hmoved⟩ := ih (h.popStash hx) hstash
    have hset : (k.setStash c (l ++ rest)).setStash c rest = k.setStash c rest := by
      simp [setStash]
    have hnd := h.stash_nodup c
    rw [hx, nodup_cons] at hnd
    rw [hset] at h'
    exact ⟨own', h', .cons hown (reown_zero own f _) hmoved
      fun hmem => hnd.1 (mem_append_left _ hmem)⟩

lemma freeAll : ∀ (l : List ℕ) {k : Kheap} {L : ℕ → List ℕ} {own : ℕ → FrameOwner},
    FramesInv k L loc own → l.Nodup →
    (∀ a ∈ l, ∃ f, a = f * pageSize ∧ own f = .other ∧ f < k.slab.pmm.totalFrames) →
    ∃ p L' own', l.foldlM freeForPcp k.slab.pmm = .ok p ∧ FramesInv (k.setPmm p) L' loc own' ∧
      p.totalFrames = k.slab.pmm.totalFrames ∧ Moved l .other .free own own' := by
  intro l
  induction l with
  | nil =>
    intro k L own h _ _
    exact ⟨k.slab.pmm, L, own, rfl, h, rfl, .nil _ _⟩
  | cons a l ih =>
    intro k L own h hnd hheld
    rw [nodup_cons] at hnd
    obtain ⟨f, rfl, hown, hlt⟩ := hheld a mem_cons_self
    have hdisj : Disjoint (⟨0, f⟩ : DyadicBlock).frames (freeFrames L) := by
      rw [frames_zero, disjoint_singleton_left, h.free, hown]
      simp
    obtain ⟨p, L1, hok, hinv, hfree, hkeep⟩ := buddyFreeLocked_spec h.slab.buddy (b := ⟨0, f⟩)
      (by simpa [last] using hlt) hdisj
    rw [blockAddr_zero] at hok
    have h1 := (h.give (b := ⟨0, f⟩) (forall_zero hown) hinv hfree hkeep.total).setCounters
        (p.freePages + BitVec.ofNat 64 (Pmm.orderToPages 0)) p.frameRefcount
    have hfreed : freeForPcp k.slab.pmm (f * pageSize) = .ok (p.addFreePages 0) := by
      rw [freeForPcp, hok]
    obtain ⟨p', L', own', hok', h', htot, hmoved⟩ := ih h1 hnd.2 fun a' ha' => by
      obtain ⟨g, rfl, hg, hglt⟩ := hheld a' (mem_cons_of_mem _ ha')
      refine ⟨g, rfl, ?_, hglt.trans_eq hkeep.total.symm⟩
      rw [reown_zero, if_neg]
      · exact hg
      · rintro rfl
        exact hnd.1 ha'
    refine ⟨p', L', own', ?_, h', htot.trans hkeep.total,
      .cons hown (reown_zero own f _) hmoved hnd.1⟩
    rwa [foldlM_cons, hfreed]

/-! ### The public page allocator -/

/-- Only the buddy allocator and the stashes have changed. -/
structure PageStep (k k' : Kheap) : Prop where
  slab : k'.slab = { k.slab with pmm := k'.slab.pmm }
  mem : k'.mem = k.mem
  total : k'.slab.pmm.totalFrames = k.slab.pmm.totalFrames

lemma PageStep.pageMap {k k' : Kheap} (h : PageStep k k') : k'.slab.pageMap = k.slab.pageMap := by
  have hslab := h.slab
  rw [Slab.pageMap, h.total, hslab]
  rfl

/-- What the public allocator has done when it returns `r`. -/
structure PageAlloc (k k' : Kheap) (own own' : ℕ → FrameOwner) (order : ℕ) (r : Option ℕ) :
    Prop where
  step : PageStep k k'
  failed : r = none → ∀ f, Settled own own' f
  block : ∀ a, r = some a → ∃ b : DyadicBlock, a = blockAddr b ∧ b.order = order ∧
    b.last ≤ k.slab.pmm.totalFrames ∧
    (∀ f ∈ b.frames, (own f).Pooled ∧ own' f = .other) ∧ ∀ f, f ∉ b.frames → Settled own own' f

lemma shrinkAllLocked_eq {s : Slab} (h : ∀ cls, (s.caches cls).empty = []) :
    shrinkAllLocked s = .ok s := by
  rw [shrinkAllLocked]
  induction range kmallocCacheCount with
  | nil => rfl
  | cons cls l ih =>
    rwa [foldlM_cons, h cls]

section

variable (h : FramesInv k L loc own)
include h

lemma allocLocked_spec (order : ℕ) : k.allocLocked order = .ok (none, k) ∨
    ∃ b p L', k.allocLocked order = .ok (some (blockAddr b), k.setPmm p) ∧ b.order = order ∧
      b.frames ⊆ freeFrames L ∧ p.totalFrames = k.slab.pmm.totalFrames ∧
      FramesInv (k.setPmm p) L' loc (reown own b .other) := by
  rw [allocLocked]
  rcases buddyAllocLocked_spec h.slab.buddy order with ⟨hnone, _⟩ |
    ⟨b, p, L', hsome, ho, hsub, hinv, hfree, hkeep⟩
  · refine .inl ?_
    rw [hnone]
    dsimp only
    rw [shrinkAllLocked_eq h.slab.noEmpty]
    dsimp only
    rw [hnone]
  · rw [hsome]
    refine .inr ⟨b, _, L', rfl, ho, hsub, hkeep.total, ?_⟩
    exact (h.take hsub hinv hfree hkeep.total).setCounters _ _

lemma pcpAlloc_spec (c : ℕ) :
    ∃ r k' L' own', k.pcpAlloc c = .ok (r, k') ∧ FramesInv k' L' loc own' ∧
      PageAlloc k k' own own' 0 r := by
  rw [pcpAlloc]
  cases hst : k.stash c with
  | cons p rest =>
    obtain ⟨f, rfl, hown⟩ := (h.stash c p).mp (by rw [hst]; exact mem_cons_self)
    refine ⟨_, _, L, _, rfl, h.popStash hst, ⟨rfl, rfl, rfl⟩, by simp,
      fun a ha => ⟨⟨0, f⟩, ?_, rfl, ?_, fun g hg => ?_, fun g hg => ?_⟩⟩
    · rw [blockAddr_zero]
      exact (some.inj ha).symm
    · have := h.stash_lt f c hown
      simpa [last] using this
    · rw [frames_zero] at hg
      obtain rfl := mem_singleton_iff.mp hg
      exact ⟨by rw [hown]; trivial, by rw [reown_zero, if_pos rfl]⟩
    · rw [frames_zero] at hg
      exact .inl ((reown_zero own f .other g).trans (if_neg hg))
  | nil =>
    obtain ⟨batch, p, L', own₁, hok, h1, htot, hnd, hmoved⟩ := takeBatch_spec pcpRefill h
    dsimp only
    rw [hok]
    dsimp only
    cases hlast : batch.getLast? with
    | none =>
      rw [getLast?_eq_none_iff] at hlast
      subst hlast
      refine ⟨none, _, L', own₁, rfl, h1, ⟨rfl, rfl, htot⟩, fun _ f => ?_, by simp⟩
      exact .inl (hmoved.others f (by simp))
    | some a =>
      have hbatch : batch.dropLast ++ [a] = batch := dropLast_append_getLast? a hlast
      have hmem : ∀ x, x ∈ batch ↔ x ∈ batch.dropLast ∨ x = a := by
        intro x
        conv_lhs => rw [← hbatch]
        simp
      have hnd' : batch.dropLast.Nodup ∧ a ∉ batch.dropLast := by
        rw [← hbatch] at hnd
        have := nodup_append.mp hnd
        exact ⟨this.1, fun hx => this.2.2 a hx a (by simp) rfl⟩
      obtain ⟨f, rfl⟩ := hmoved.aligned a ((hmem a).mpr (.inr rfl))
      have hrange : ∀ g, g * pageSize ∈ batch → g < p.totalFrames := by
        intro g hg
        rw [htot]
        exact h.slab.buddy.freeFrames_lt ((h.free g).mpr (hmoved.before g hg))
      obtain ⟨own', h', hst'⟩ := fillStash (c := c) batch.dropLast h1 hst hnd'.1 fun x hx => by
          have hx' := (hmem x).mpr (.inl hx)
          obtain ⟨g, rfl⟩ := hmoved.aligned x hx'
          exact ⟨g, rfl, hmoved.after g hx', hrange g hx'⟩
      refine ⟨_, _, L', own', rfl, h', ⟨rfl, rfl, htot⟩, by simp,
        fun x hx => ⟨⟨0, f⟩, ?_, rfl, ?_, fun g hg => ?_, fun g hg => ?_⟩⟩
      · rw [blockAddr_zero]
        exact (some.inj hx).symm
      · have := hrange f ((hmem _).mpr (.inr rfl))
        rw [htot] at this
        simpa [last] using this
      · rw [frames_zero] at hg
        obtain rfl := mem_singleton_iff.mp hg
        have hin := (hmem (g * pageSize)).mpr (.inr rfl)
        exact ⟨by rw [hmoved.before g hin]; trivial,
          by rw [hst'.others g hnd'.2, hmoved.after g hin]⟩
      · rw [frames_zero] at hg
        by_cases hgb : g * pageSize ∈ batch.dropLast
        · have hin := (hmem _).mpr (.inl hgb)
          exact .inr ⟨by rw [hmoved.before g hin]; trivial, by rw [hst'.after g hgb]; trivial⟩
        · refine .inl ?_
          rw [hst'.others g hgb, hmoved.others g]
          rw [hmem, not_or]
          refine ⟨hgb, fun heq => hg ?_⟩
          exact eq_of_mul_eq_mul_right pageSize_pos heq

omit h in
/-- The locked path, from a state that the stash has been tried in. -/
lemma allocLocked_alloc (h1 : FramesInv k₁ L loc own₁)
    (hstep : PageStep k k₁) (hset : ∀ f, Settled own own₁ f) (order : ℕ) :
    ∃ r k' L' own', k₁.allocLocked order = .ok (r, k') ∧ FramesInv k' L' loc own' ∧
      PageAlloc k k' own own' order r := by
  rcases h1.allocLocked_spec order with hnone | ⟨b, p, L', hsome, ho, hsub, htot, h'⟩
  · exact ⟨none, k₁, L, own₁, hnone, h1, hstep, fun _ => hset, nofun⟩
  · refine ⟨_, _, L', _, hsome, h', ⟨?_, hstep.mem, htot.trans hstep.total⟩,
      nofun, fun a ha => ⟨b, (some.inj ha).symm, ho, ?_,
        fun f hf => ⟨?_, reown_of_mem hf⟩, fun f hf => ?_⟩⟩
    · have hslab := hstep.slab
      simp only [setPmm]
      rw [hslab]
    · exact (h1.slab.buddy.last_le_of_subset hsub).trans_eq hstep.total
    · have hfree : own₁ f = .free := (h1.free f).mp (hsub hf)
      rcases hset f with heq | hp
      · rw [← heq, hfree]
        trivial
      · exact hp.1
    · exact (hset f).trans (.inl (reown_of_notMem hf))

/-- **`pmm_buddy_alloc`**: it does not panic and takes one block of the order out of the free
frames and the stashes, or fails. -/
lemma pmmBuddyAlloc_spec (c order : ℕ) :
    ∃ r k' L' own', k.pmmBuddyAlloc c order = .ok (r, k') ∧ FramesInv k' L' loc own' ∧
      PageAlloc k k' own own' order r := by
  rw [pmmBuddyAlloc]
  split_ifs with horder
  · subst horder
    obtain ⟨r, k₁, L1, own₁, hok, h1, hal⟩ := h.pcpAlloc_spec c
    rw [hok]
    cases r with
    | none => exact allocLocked_alloc h1 hal.step (hal.failed rfl) 0
    | some a =>
      refine ⟨_, _, L1, own₁, rfl, h1.setCounters _ _, ⟨?_, hal.step.mem, hal.step.total⟩,
        nofun, hal.block⟩
      have hslab := hal.step.slab
      simp only [setPmm]
      rw [hslab]
  · exact allocLocked_alloc h ⟨rfl, rfl, rfl⟩ (fun _ => .inl rfl) order

/-- What the public allocator has done when a block was freed. -/
structure PageFree (k k' : Kheap) (own own' : ℕ → FrameOwner) (b : DyadicBlock) : Prop where
  step : PageStep k k'
  block : ∀ f ∈ b.frames, (own' f).Pooled
  others : ∀ f, f ∉ b.frames → Settled own own' f

omit h in
/-- The push of `pcp_free` onto a stash with room, from a state that has been drained. -/
lemma pushStash_free (h1 : FramesInv k₁ L loc own₁)
    (hstep : PageStep k k₁) (hheld : own₁ f = .other) (hlt : f < k.slab.pmm.totalFrames)
    (hset : ∀ g, g ≠ f → Settled own own₁ g) :
    ∃ L' own', FramesInv (k₁.setStash c (f * pageSize :: k₁.stash c)) L' loc own' ∧
      PageFree k (k₁.setStash c (f * pageSize :: k₁.stash c)) own own' ⟨0, f⟩ := by
  refine ⟨L, _, h1.pushStash hheld (hlt.trans_eq hstep.total.symm), ⟨hstep.slab, hstep.mem,
    hstep.total⟩, fun g hg => ?_, fun g hg => ?_⟩
  · rw [reown_of_mem hg]
    trivial
  · refine (hset g ?_).trans (.inl (reown_of_notMem hg))
    rwa [frames_zero] at hg

lemma pcpFree_spec (hheld : own f = .other) (hlt : f < k.slab.pmm.totalFrames) :
    ∃ k' L' own', k.pcpFree c (f * pageSize) = .ok k' ∧ FramesInv k' L' loc own' ∧
      PageFree k k' own own' ⟨0, f⟩ := by
  have h0 : FramesInv (k.setPmm (refZero k.slab.pmm (f * pageSize))) L loc own := h.setCounters _ _
  set k0 := k.setPmm (refZero k.slab.pmm (f * pageSize)) with hk0
  have hstep0 : PageStep k k0 := ⟨rfl, rfl, rfl⟩
  rw [pcpFree, ← hk0]
  split_ifs with hfull
  · rw [pcpDrainOne]
    -- half of the stash is taken off and goes back to the buddy allocator
    obtain ⟨own₁, h1, hpop⟩ := popStashMany ((k0.stash c).take pcpRefill) h0
      (take_append_drop pcpRefill (k0.stash c)).symm
    have hmem : ∀ a ∈ (k0.stash c).take pcpRefill, ∃ g, a = g * pageSize ∧ own₁ g = .other ∧
        g < (k0.setStash c ((k0.stash c).drop pcpRefill)).slab.pmm.totalFrames := by
      intro a ha
      obtain ⟨g, rfl⟩ := hpop.aligned a ha
      exact ⟨g, rfl, hpop.after g ha, h0.stash_lt g c (hpop.before g ha)⟩
    obtain ⟨p, L', own2, hok, h2, htot, hfree⟩ := freeAll ((k0.stash c).take pcpRefill) h1
      ((h0.stash_nodup c).sublist (take_sublist _ _)) hmem
    have hok' : ((k0.stash c).take pcpRefill).foldlM freeForPcp k0.slab.pmm = .ok p := hok
    rw [hok']
    dsimp only
    have hnot : f * pageSize ∉ (k0.stash c).take pcpRefill := by
      intro hin
      have := hpop.before f hin
      rw [hheld] at this
      nomatch this
    have hheld2 : own2 f = .other := by rw [hfree.others f hnot, hpop.others f hnot, hheld]
    have hset : ∀ g, g ≠ f → Settled own own2 g := by
      intro g _
      by_cases hin : g * pageSize ∈ (k0.stash c).take pcpRefill
      · exact .inr ⟨by rw [hpop.before g hin]; trivial, by rw [hfree.after g hin]; trivial⟩
      · exact .inl (by rw [hfree.others g hin, hpop.others g hin])
    have hswap : (k0.setPmm p).setStash c ((k0.stash c).drop pcpRefill) =
        (k0.setStash c ((k0.stash c).drop pcpRefill)).setPmm p := rfl
    rw [hswap]
    obtain ⟨L'', own', h', hpf⟩ := pushStash_free (c := c) h2
      (k := k) ⟨rfl, rfl, htot⟩ hheld2 hlt hset
    exact ⟨_, L'', own', rfl, h', hpf⟩
  · obtain ⟨L', own', h', hpf⟩ := pushStash_free (c := c) h0 hstep0 hheld hlt fun g _ => .inl rfl
    exact ⟨_, L', own', rfl, h', hpf⟩

/-- **`pmm_buddy_free`** of a held block: its frames become available, nothing else changes
hands. -/
lemma pmmBuddyFree_spec (c : ℕ) (hheld : ∀ f ∈ b.frames, own f = .other)
    (hlast : b.last ≤ k.slab.pmm.totalFrames) :
    ∃ k' L' own', k.pmmBuddyFree c (blockAddr b) b.order = .ok k' ∧ FramesInv k' L' loc own' ∧
      PageFree k k' own own' b := by
  rw [pmmBuddyFree]
  split_ifs with horder
  · obtain ⟨o, f⟩ := b
    obtain rfl : o = 0 := horder
    rw [blockAddr_zero]
    refine h.pcpFree_spec (hheld f (by rw [frames_zero]; rfl)) ?_
    simpa [last] using hlast
  · have hdisj : Disjoint b.frames (freeFrames L) := by
      refine disjoint_left.mpr fun f hf hmem => ?_
      have := (h.free f).mp hmem
      rw [hheld f hf] at this
      cases this
    obtain ⟨p, L', hok, hinv, hfree, hkeep⟩ := buddyFreeLocked_spec h.slab.buddy hlast hdisj
    rw [hok]
    refine ⟨_, L', _, rfl, (h.give hheld hinv hfree hkeep.total).setCounters
      (p.freePages + BitVec.ofNat 64 (Pmm.orderToPages b.order)) p.frameRefcount,
      ⟨rfl, rfl, hkeep.total⟩, fun f hf => ?_, fun f hf => .inl (reown_of_notMem hf)⟩
    rw [reown_of_mem hf]
    trivial

end

end FramesInv

end Makaos
