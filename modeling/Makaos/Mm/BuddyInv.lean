import Makaos.Mm.Buddy
import Makaos.Lib.DyadicBlock

/-!
The invariant of the buddy allocator and the two things its loops do to it.

`BuddyInv s L` says that the memory behind the free lists of `s` holds the lists `L`, that the
blocks on them are aligned, inside the managed range and pairwise disjoint, that no two buddies
are both free, and that each coalesce bit is the exclusive or of the two free bits of its pair.

* `BuddyInv.take`, `BuddyInv.put`: taking a block off its list and toggling its bit, putting a
  block whose buddy is in use onto its list and toggling its bit.  The two loops only ever do
  these two things.
-/

namespace Makaos

open Function Pmm DyadicBlock Set IntrusiveList List Nat
open IntrusiveList (IsDList)
variable {b c : DyadicBlock} {o a : ℕ} {s : Pmm} {L : ℕ → List ℕ}

/-- The physical address of a block of frames. -/
def blockAddr (b : DyadicBlock) : ℕ := b.first * pageSize

/-- The block is on the free list of its order. -/
def IsFree (L : ℕ → List ℕ) (b : DyadicBlock) : Prop := blockAddr b ∈ L b.order

instance (L : ℕ → List ℕ) (b : DyadicBlock) : Decidable (IsFree L b) :=
  inferInstanceAs (Decidable (_ ∈ _))

/-- The frames of the blocks on the free lists. -/
def freeFrames (L : ℕ → List ℕ) : Set ℕ := {f | ∃ b, IsFree L b ∧ f ∈ b.frames}

/-- What `pmm_buddy_init_from_map` fixes for good: the size of the managed range. -/
structure PmmConfig (s : Pmm) : Prop where
  total_le : s.totalFrames ≤ maxFrames
  ceiling : s.totalFrames * pageSize ≤ s.physCeiling
  blocks : ∀ o, o ≤ maxOrder → s.buddyBlocks o = (s.totalFrames + Pmm.orderToPages o - 1) >>> o

/-- **The invariant of the allocator**, with the contents `L` of its free lists. -/
structure BuddyInv (s : Pmm) (L : ℕ → List ℕ) : Prop where
  config : PmmConfig s
  dlist : ∀ o, IsDList s.overlay (s.freeLists o) (L o)
  aligned : ∀ o, ∀ a ∈ L o, ∃ i, a = blockAddr ⟨o, i⟩
  order_le : ∀ b, IsFree L b → b.order ≤ maxOrder
  inRange : ∀ b, IsFree L b → b.last ≤ s.totalFrames
  disjoint : ∀ b c, IsFree L b → IsFree L c → b ≠ c → Disjoint b.frames c.frames
  noBuddies : ∀ b, b.order < maxOrder → IsFree L b → ¬ IsFree L b.buddy
  bits : ∀ o p, o ≤ maxOrder → s.bitTest o p =
    (decide (IsFree L (.left o p)) ^^ decide (IsFree L (.right o p)))

/-- Empty free lists and a clear bitmap. -/
lemma BuddyInv.empty (hconfig : PmmConfig s) (hlists : s.freeLists = fun _ => none)
    (hbits : s.coalesce = fun _ _ => 0) : BuddyInv s (fun _ => []) where
  config := hconfig
  dlist := fun _ => ⟨by rw [hlists]; rfl, nodup_nil, trivial⟩
  aligned := fun _ _ h => by simp at h
  order_le := fun _ h => by simp [IsFree] at h
  inRange := fun _ h => by simp [IsFree] at h
  disjoint := fun _ _ h => by simp [IsFree] at h
  noBuddies := fun _ _ h => by simp [IsFree] at h
  bits := fun _ _ _ => by simp [IsFree, bitTest, WordBitmap.test, hbits]

/-! ### Addresses of blocks -/

lemma blockAddr_eq_shift (o i : ℕ) : (i <<< o) <<< pageShift = blockAddr ⟨o, i⟩ := by
  rw [blockAddr, first, shiftLeft_eq, shiftLeft_eq, two_pow_pageShift]

lemma blockAddr_inj (ho : b.order = c.order) (h : blockAddr b = blockAddr c) : b = c :=
  eq_of_first_eq ho (eq_of_mul_eq_mul_right pageSize_pos h)

lemma blockAddr_shiftRight (b : DyadicBlock) : blockAddr b >>> pageShift = b.first := by
  rw [shiftRight_pageShift, blockAddr, Nat.mul_div_cancel _ pageSize_pos]

lemma first_shiftRight (b : DyadicBlock) : b.first >>> b.order = b.index := by
  rw [Nat.shiftRight_eq_div_pow, first, Nat.mul_div_cancel _ (Nat.two_pow_pos _)]

/-- Clearing the bit of the order turns the address of a block into that of its parent. -/
lemma clearBit_blockAddr (b : DyadicBlock) :
    clearBit (blockAddr b) (pageShift + b.order) = blockAddr b.parent := by
  have hpow : 2 ^ (pageShift + b.order) = 2 ^ b.order * pageSize := by
    rw [Nat.pow_add, two_pow_pageShift, Nat.mul_comm]
  have hpos : 0 < 2 ^ b.order * pageSize := Nat.mul_pos (Nat.two_pow_pos _) pageSize_pos
  have haddr : blockAddr b = b.index * (2 ^ b.order * pageSize) := by
    rw [blockAddr, first, mul_assoc]
  have hparent : blockAddr b.parent = b.index / 2 * 2 * (2 ^ b.order * pageSize) := by
    simp only [blockAddr, first, parent, pow_succ]
    ring
  rw [clearBit, Nat.shiftRight_eq_div_pow, hpow, haddr, Nat.mul_div_cancel _ hpos, hparent,
    ← Nat.sub_mul]
  congr 1
  omega

/-! ### The lists under insertion and removal of a block -/

/-- The lists with a block put in front of the list of its order. -/
def insertBlock (L : ℕ → List ℕ) (b : DyadicBlock) : ℕ → List ℕ :=
  update L b.order (blockAddr b :: L b.order)

/-- The lists with a block taken off the list of its order. -/
def eraseBlock (L : ℕ → List ℕ) (b : DyadicBlock) : ℕ → List ℕ :=
  update L b.order ((L b.order).erase (blockAddr b))

lemma isFree_insertBlock : IsFree (insertBlock L b) c ↔ c = b ∨ IsFree L c := by
  by_cases ho : c.order = b.order
  · simp only [IsFree, insertBlock, ho, update_self, mem_cons]
    refine or_congr_left ⟨fun h => blockAddr_inj ho h, fun h => by rw [h]⟩
  · have hne : c ≠ b := fun h => ho (by rw [h])
    simp [IsFree, insertBlock, update_of_ne ho, hne]

lemma isFree_eraseBlock (hnd : (L b.order).Nodup) :
    IsFree (eraseBlock L b) c ↔ c ≠ b ∧ IsFree L c := by
  by_cases ho : c.order = b.order
  · simp only [IsFree, eraseBlock, ho, update_self, hnd.mem_erase_iff]
    refine and_congr_left fun _ => not_congr ⟨fun h => blockAddr_inj ho h, fun h => by rw [h]⟩
  · have hne : c ≠ b := fun h => ho (by rw [h])
    simp [IsFree, eraseBlock, update_of_ne ho, hne]

lemma freeFrames_insertBlock (L : ℕ → List ℕ) (b : DyadicBlock) :
    freeFrames (insertBlock L b) = b.frames ∪ freeFrames L := by
  ext f
  simp only [freeFrames, mem_ofPred_eq, mem_union, isFree_insertBlock]
  constructor
  · rintro ⟨c, rfl | hc, hf⟩
    · exact .inl hf
    · exact .inr ⟨c, hc, hf⟩
  · rintro (hf | ⟨c, hc, hf⟩)
    · exact ⟨b, .inl rfl, hf⟩
    · exact ⟨c, .inr hc, hf⟩

namespace BuddyInv

section

variable (h : BuddyInv s L)
include h

lemma nodup (o : ℕ) : (L o).Nodup := (h.dlist o).nodup

lemma notMem_of_disjoint (hb : ∀ c, IsFree L c → c.order = o → Disjoint b.frames c.frames) :
    blockAddr b ∉ L o := by
  intro hmem
  obtain ⟨i, hi⟩ := h.aligned o _ hmem
  have hfree : IsFree L ⟨o, i⟩ := by rw [IsFree, ← hi]; exact hmem
  have hfirst : (⟨o, i⟩ : DyadicBlock).first = b.first :=
    eq_of_mul_eq_mul_right pageSize_pos hi.symm
  exact disjoint_left.mp (hb _ hfree rfl) (first_mem_frames b) (hfirst ▸ first_mem_frames _)

lemma notMem_of_order_ne (hb : IsFree L b) (ho : o ≠ b.order) : blockAddr b ∉ L o :=
  h.notMem_of_disjoint fun c hc hco => h.disjoint b c hb hc fun hbc => ho (hbc ▸ hco.symm)

lemma addr_lt_ceiling (ha : a ∈ L o) : a < s.physCeiling := by
  obtain ⟨i, rfl⟩ := h.aligned o a ha
  have hr := h.inRange ⟨o, i⟩ ha
  have hlt : (⟨o, i⟩ : DyadicBlock).first < s.totalFrames := lt_of_lt_of_le (first_lt_last _) hr
  exact lt_of_lt_of_le (mul_lt_mul_of_pos_right hlt pageSize_pos) h.config.ceiling

lemma overlay_ok (ha : a ∈ L o) :
    s.overlayPtrOk (s.overlay a).next = true ∧ s.overlayPtrOk (s.overlay a).prev = true := by
  constructor
  · cases hn : (s.overlay a).next with
    | none => rfl
    | some b => simpa [overlayPtrOk] using h.addr_lt_ceiling ((h.dlist o).next_mem ha hn)
  · cases hp : (s.overlay a).prev with
    | none => rfl
    | some b => simpa [overlayPtrOk] using h.addr_lt_ceiling ((h.dlist o).prev_mem ha hp)

/-- No block of the maximum order fits into the managed range. -/
lemma order_lt_of_last_le (ho : b.order ≤ maxOrder) (hb : b.last ≤ s.totalFrames) :
    b.order < maxOrder := by
  rcases lt_or_ge b.order maxOrder with hlt | hge
  · exact hlt
  · have heq : b.order = 32 := le_antisymm ho hge
    have hle := hb.trans h.config.total_le
    rw [last_eq, heq] at hle
    have hmax : maxFrames = 16777216 := rfl
    omega

end

end BuddyInv

/-! ### Taking and putting one block -/

@[simp] lemma Pmm.bitToggle_bitTest (s : Pmm) (o p o' p' : ℕ) : (s.bitToggle o p).bitTest o' p' =
      if o' = o ∧ p' = p then !s.bitTest o p else s.bitTest o' p' := by
  by_cases ho : o' = o
  · subst ho
    simp [bitToggle, bitTest, WordBitmap.test_toggle]
  · simp [bitToggle, bitTest, ho]

/-- The pair of a block: its free bits are those of the block and of its buddy. -/
lemma xor_pair (L : ℕ → List ℕ) (b : DyadicBlock) :
    (decide (IsFree L (.left b.order (b.index / 2))) ^^
      decide (IsFree L (.right b.order (b.index / 2)))) =
    (decide (IsFree L b) ^^ decide (IsFree L b.buddy)) := by
  rcases eq_left_or_right b with h | h
  · have hb : b.buddy = .right b.order (b.index / 2) := by
      conv_lhs => rw [h]
      exact buddy_left _ _
    rw [hb, ← h]
  · have hb : b.buddy = .left b.order (b.index / 2) := by
      conv_lhs => rw [h]
      exact buddy_right _ _
    rw [hb, ← h, Bool.xor_comm]

/-- A pair that is not the pair of `b` contains neither `b` nor its buddy. -/
lemma ne_of_pair_ne {p : ℕ} (h : ¬ (o = b.order ∧ p = b.index / 2)) :
    left o p ≠ b ∧ right o p ≠ b := by
  constructor
  · rintro rfl
    exact h ⟨rfl, by simp [left]⟩
  · rintro rfl
    refine h ⟨rfl, ?_⟩
    simp only [right]
    omega

namespace BuddyInv

lemma bit_eq (h : BuddyInv s L) (ho : b.order ≤ maxOrder) :
    s.bitTest b.order (b.index / 2) = (decide (IsFree L b) ^^ decide (IsFree L b.buddy)) := by
  rw [h.bits _ _ ho, xor_pair]

/-- The state once a free block has left its list and its bit is toggled. -/
def taken (s : Pmm) (b : DyadicBlock) : Pmm :=
  let (mem, head) := IntrusiveList.remove s.overlay (s.freeLists b.order) (blockAddr b)
  { s with
    overlay := mem
    freeLists := update s.freeLists b.order head
    coalesce := update s.coalesce b.order (WordBitmap.toggle (s.coalesce b.order) (b.index / 2)) }

/-- The state once a block has joined the list of its order and its bit is toggled. -/
def given (s : Pmm) (b : DyadicBlock) : Pmm :=
  (s.freeListPush b.order (blockAddr b)).bitToggle b.order (b.index / 2)

section

variable (h : BuddyInv s L)
include h

lemma dlist_taken (hb : IsFree L b) (o : ℕ) :
    IsDList (taken s b).overlay ((taken s b).freeLists o) (eraseBlock L b o) := by
  simp only [taken, eraseBlock]
  by_cases ho : o = b.order
  · subst ho
    rw [update_self, update_self]
    exact (h.dlist _).remove hb
  · rw [update_of_ne ho, update_of_ne ho]
    refine (h.dlist o).frame fun a ha => ?_
    refine remove_apply_of_notMem (h.dlist b.order) hb fun hmem => ?_
    obtain ⟨i, rfl⟩ := h.aligned _ _ hmem
    exact h.notMem_of_order_ne (b := ⟨b.order, i⟩) hmem ho ha

lemma dlist_given (hd : ∀ c, IsFree L c → Disjoint b.frames c.frames) (o : ℕ) :
    IsDList (given s b).overlay ((given s b).freeLists o) (insertBlock L b o) := by
  simp only [given, bitToggle, freeListPush, insertBlock]
  by_cases ho : o = b.order
  · subst ho
    rw [update_self, update_self]
    exact (h.dlist _).push (h.notMem_of_disjoint fun c hc _ => hd c hc)
  · rw [update_of_ne ho, update_of_ne ho]
    refine (h.dlist o).frame fun a ha => ?_
    refine push_apply_of_notMem (h.dlist b.order) ?_ fun hmem => ?_
    · rintro rfl
      exact h.notMem_of_disjoint (fun c hc _ => hd c hc) ha
    · obtain ⟨i, rfl⟩ := h.aligned _ _ hmem
      exact h.notMem_of_order_ne (b := ⟨b.order, i⟩) hmem ho ha

/-- The bit of a pair is toggled when one of its blocks is taken or put back. -/
lemma bits_toggle {L' : ℕ → List ℕ} {p : ℕ} (hord : b.order ≤ maxOrder) (ho : o ≤ maxOrder)
    (hother : ∀ c, c ≠ b → (IsFree L' c ↔ IsFree L c)) (hb : IsFree L' b ↔ ¬ IsFree L b) :
    (s.bitToggle b.order (b.index / 2)).bitTest o p =
      (decide (IsFree L' (.left o p)) ^^ decide (IsFree L' (.right o p))) := by
  rw [bitToggle_bitTest]
  by_cases hpair : o = b.order ∧ p = b.index / 2
  · obtain ⟨rfl, rfl⟩ := hpair
    rw [if_pos ⟨rfl, rfl⟩, xor_pair, h.bit_eq hord]
    simp [hother _ b.buddy_ne, hb]
  · obtain ⟨hl, hr⟩ := ne_of_pair_ne hpair
    rw [if_neg hpair, h.bits o p ho]
    simp [hother _ hl, hother _ hr]

/-- **Taking a block**: the invariant survives the removal of a free block together with the
toggle of its bit. -/
lemma take (hb : IsFree L b) : BuddyInv (taken s b) (eraseBlock L b) := by
  have hfree : ∀ c, IsFree (eraseBlock L b) c ↔ c ≠ b ∧ IsFree L c := fun c =>
    isFree_eraseBlock (h.nodup _)
  refine
    { config := ⟨h.config.total_le, h.config.ceiling, h.config.blocks⟩
      dlist := h.dlist_taken hb
      aligned := (forall_update_iff L fun o l => ∀ a ∈ l, ∃ i, a = blockAddr ⟨o, i⟩).mpr
        ⟨fun a ha => h.aligned _ a (mem_of_mem_erase ha), fun o _ => h.aligned o⟩
      order_le := fun c hc => h.order_le c ((hfree c).mp hc).2
      inRange := fun c hc => h.inRange c ((hfree c).mp hc).2
      disjoint := fun c d hc hd => h.disjoint c d ((hfree c).mp hc).2 ((hfree d).mp hd).2
      noBuddies := fun c hc hcf hbf =>
        h.noBuddies c hc ((hfree c).mp hcf).2 ((hfree c.buddy).mp hbf).2
      bits := fun o p ho => ?_ }
  exact h.bits_toggle (h.order_le b hb) ho (fun c hc => by simp [hfree, hc]) (by simp [hfree, hb])

/-- **Putting a block**: the invariant survives the insertion of a block that misses all free
frames and whose buddy is in use, together with the toggle of its bit. -/
lemma put (hord : b.order ≤ maxOrder) (hlast : b.last ≤ s.totalFrames)
    (hd : ∀ c, IsFree L c → Disjoint b.frames c.frames) (hbuddy : ¬ IsFree L b.buddy) :
    BuddyInv (given s b) (insertBlock L b) := by
  have hfree : ∀ c, IsFree (insertBlock L b) c ↔ c = b ∨ IsFree L c := fun c => isFree_insertBlock
  have hnb : ¬ IsFree L b := fun hb =>
    disjoint_left.mp (hd b hb) b.first_mem_frames b.first_mem_frames
  refine
    { config := ⟨h.config.total_le, h.config.ceiling, h.config.blocks⟩
      dlist := h.dlist_given hd
      aligned := (forall_update_iff L fun o l => ∀ a ∈ l, ∃ i, a = blockAddr ⟨o, i⟩).mpr
        ⟨forall_mem_cons.mpr ⟨⟨b.index, rfl⟩, h.aligned _⟩, fun o _ => h.aligned o⟩
      order_le := fun c hc => ?_
      inRange := fun c hc => ?_
      disjoint := fun c d hc hd' hne => ?_
      noBuddies := fun c hc hcf hbf => ?_
      bits := fun o p ho => ?_ }
  · rcases (hfree c).mp hc with rfl | hc
    · exact hord
    · exact h.order_le c hc
  · rcases (hfree c).mp hc with rfl | hc
    · exact hlast
    · exact h.inRange c hc
  · rcases (hfree c).mp hc with hcb | hcL <;> rcases (hfree d).mp hd' with hdb | hdL
    · exact absurd (hcb.trans hdb.symm) hne
    · exact hcb ▸ hd d hdL
    · exact hdb ▸ (hd c hcL).symm
    · exact h.disjoint c d hcL hdL hne
  · rcases (hfree c).mp hcf with rfl | hcf <;> rcases (hfree _).mp hbf with hcb | hbf
    · exact c.buddy_ne hcb
    · exact hbuddy hbf
    · exact hbuddy (by rw [← hcb, buddy_buddy]; exact hcf)
    · exact h.noBuddies c hc hcf hbf
  · exact h.bits_toggle hord ho (fun c hc => by simp [hfree, hc]) (by simp [hfree, hnb])

lemma freeFrames_erase (hb : IsFree L b) :
    freeFrames (eraseBlock L b) = freeFrames L \ b.frames := by
  ext f
  simp only [freeFrames, mem_sdiff, mem_ofPred_eq, isFree_eraseBlock (h.nodup _)]
  constructor
  · rintro ⟨c, ⟨hne, hc⟩, hf⟩
    exact ⟨⟨c, hc, hf⟩, fun hfb => disjoint_left.mp (h.disjoint c b hc hb hne) hf hfb⟩
  · rintro ⟨⟨c, hc, hf⟩, hnb⟩
    exact ⟨c, ⟨fun hcb => hnb (hcb ▸ hf), hc⟩, hf⟩

end

lemma frames_subset_free (hb : IsFree L b) : b.frames ⊆ freeFrames L :=
  fun _ hf => ⟨b, hb, hf⟩

lemma freeFrames_lt (h : BuddyInv s L) {f : ℕ} (hf : f ∈ freeFrames L) : f < s.totalFrames := by
  obtain ⟨b, hb, hfb⟩ := hf
  exact lt_of_lt_of_le hfb.2 (h.inRange b hb)

lemma disjoint_of_frames (hd : Disjoint b.frames (freeFrames L)) (c : DyadicBlock) (hc : IsFree L c) :
    Disjoint b.frames c.frames :=
  hd.mono_right (frames_subset_free hc)

end BuddyInv

/-! ### What a call leaves alone -/

/-- A call that turns `s` into `s'` keeps the configuration, and the first words of every frame
outside `F`. -/
structure Keeps (s s' : Pmm) (F : Set ℕ) : Prop where
  ceiling : s'.physCeiling = s.physCeiling
  total : s'.totalFrames = s.totalFrames
  overlay : ∀ a, a / pageSize ∉ F → s'.overlay a = s.overlay a

namespace Keeps

lemma refl (s : Pmm) (F : Set ℕ) : Keeps s s F := ⟨rfl, rfl, fun _ _ => rfl⟩

variable {F G : Set ℕ}

lemma trans {s' s'' : Pmm} (h : Keeps s s' F) (h' : Keeps s' s'' G) (hGF : G ⊆ F) : Keeps s s'' F :=
  ⟨h'.ceiling.trans h.ceiling, h'.total.trans h.total, fun a ha =>
    (h'.overlay a fun hG => ha (hGF hG)).trans (h.overlay a ha)⟩

lemma mono {s' : Pmm} (h : Keeps s s' F) (hFG : F ⊆ G) : Keeps s s' G :=
  ⟨h.ceiling, h.total, fun a ha => h.overlay a fun hF => ha (hFG hF)⟩

end Keeps

lemma blockAddr_div (b : DyadicBlock) : blockAddr b / pageSize = b.first := by
  rw [blockAddr, Nat.mul_div_cancel _ pageSize_pos]

namespace BuddyInv

lemma notMem_of_notFree (h : BuddyInv s L) (ha : a / pageSize ∉ freeFrames L) (o : ℕ) :
    a ∉ L o := by
  intro hmem
  obtain ⟨i, rfl⟩ := h.aligned o a hmem
  rw [blockAddr_div] at ha
  exact ha ⟨⟨o, i⟩, hmem, first_mem_frames _⟩

lemma keeps_taken (h : BuddyInv s L) (hb : IsFree L b) : Keeps s (taken s b) (freeFrames L) :=
  ⟨rfl, rfl, fun _ ha =>
    remove_apply_of_notMem (h.dlist b.order) hb (h.notMem_of_notFree ha _)⟩

lemma keeps_given (h : BuddyInv s L) (b : DyadicBlock) :
    Keeps s (given s b) (b.frames ∪ freeFrames L) := by
  refine ⟨rfl, rfl, fun a ha => ?_⟩
  rw [mem_union, not_or] at ha
  refine push_apply_of_notMem (h.dlist b.order) ?_ (h.notMem_of_notFree ha.2 _)
  rintro rfl
  rw [blockAddr_div] at ha
  exact ha.1 b.first_mem_frames

end BuddyInv

/-! ### The two loops -/

open BuddyInv (taken given)

/-- **The split loop** keeps the invariant: the held block shrinks to its first piece of the
wanted order, and the rest of it becomes free. -/
lemma splitDown_spec {order : ℕ} : ∀ {current : ℕ} {s : Pmm} {L : ℕ → List ℕ} {i : ℕ},
    BuddyInv s L → order ≤ current → current ≤ maxOrder →
    (⟨current, i⟩ : DyadicBlock).last ≤ s.totalFrames →
    Disjoint (⟨current, i⟩ : DyadicBlock).frames (freeFrames L) →
    ∃ L' j, BuddyInv (splitDown order current s i) L' ∧
      (⟨order, j⟩ : DyadicBlock).first = (⟨current, i⟩ : DyadicBlock).first ∧
      freeFrames L' = freeFrames L ∪
        ((⟨current, i⟩ : DyadicBlock).frames \ (⟨order, j⟩ : DyadicBlock).frames) ∧
      (⟨order, j⟩ : DyadicBlock).frames ⊆ (⟨current, i⟩ : DyadicBlock).frames ∧
      Keeps s (splitDown order current s i)
        (freeFrames L ∪ (⟨current, i⟩ : DyadicBlock).frames) := by
  intro current
  induction current with
  | zero =>
    intro s L i h ho _ _ _
    obtain rfl : order = 0 := by omega
    exact ⟨L, i, h, rfl, by simp, le_rfl, Keeps.refl _ _⟩
  | succ current ih =>
    intro s L i h ho hmax hlast hdisj
    rw [splitDown]
    by_cases hlt : order < current + 1
    · rw [if_pos hlt]
      dsimp only
      -- the right half goes onto its list; its buddy is the left half, which stays held
      have hhalves := frames_halves current i
      have hsubR : (right current i).frames ⊆
          (⟨current + 1, i⟩ : DyadicBlock).frames := by rw [hhalves]; exact subset_union_right
      have hsubL : (left current i).frames ⊆
          (⟨current + 1, i⟩ : DyadicBlock).frames := by rw [hhalves]; exact subset_union_left
      have hLR : Disjoint (left current i).frames
          (right current i).frames := by
        rw [← buddy_left]
        exact disjoint_buddy _
      have hbuddy : ¬ IsFree L (right current i).buddy := by
        rw [buddy_right]
        intro hfree
        exact disjoint_left.mp hdisj (hsubL (first_mem_frames _))
          (BuddyInv.frames_subset_free hfree (first_mem_frames _))
      have hput : BuddyInv (given s (.right current i)) (insertBlock L (.right current i)) :=
        h.put (le_of_succ_le hmax) (by rw [right_last]; exact hlast)
          (BuddyInv.disjoint_of_frames (hdisj.mono_left hsubR)) hbuddy
      have hstate : (s.freeListPush current
          ((((i <<< 1) + 1) <<< current) <<< pageShift)).bitToggle current
            (((i <<< 1) + 1) >>> 1) = given s (.right current i) := by
        rw [blockAddr_eq_shift, shiftLeft_eq, shiftRight_eq_div_pow]
        simp only [given, right, pow_one]
        rw [mul_comm i 2]
      rw [hstate, show i <<< 1 = 2 * i by rw [shiftLeft_eq]; omega]
      have hff := freeFrames_insertBlock L (.right current i)
      have hdisj' : Disjoint (left current i).frames
          (freeFrames (insertBlock L (.right current i))) := by
        rw [hff]
        exact disjoint_union_right.mpr ⟨hLR, hdisj.mono_left hsubL⟩
      obtain ⟨L', j, hinv, hfirst, hfree, hsub, hkeep⟩ := ih hput (by omega)
        (le_of_succ_le hmax) ((left_last_le current i).trans hlast) hdisj'
      refine ⟨L', j, hinv, hfirst.trans (left_first current i), ?_, hsub.trans hsubL, ?_⟩
      · have hjR : Disjoint (⟨order, j⟩ : DyadicBlock).frames
            (right current i).frames := hLR.mono_left hsub
        rw [hfree, hff, hhalves, union_sdiff_distrib, hjR.symm.sdiff_eq_left]
        simp only [left]
        ext f
        simp only [mem_union]
        tauto
      · refine (h.keeps_given (.right current i)).mono ?_ |>.trans hkeep ?_
        · rw [union_comm]
          exact union_subset_union_right _ hsubR
        · rw [hff]
          refine union_subset (union_subset ?_ subset_union_left) ?_
          · exact hsubR.trans subset_union_right
          · exact hsubL.trans subset_union_right
    · obtain rfl : order = current + 1 := by omega
      rw [if_neg hlt]
      exact ⟨L, i, h, rfl, by simp, le_rfl, Keeps.refl _ _⟩

lemma index_lt_blocks (h : PmmConfig s) (ho : b.order ≤ maxOrder) (hlast : b.last ≤ s.totalFrames) :
    b.index < s.buddyBlocks b.order := by
  have hpos : 0 < 2 ^ b.order := Nat.two_pow_pos _
  rw [h.blocks _ ho, orderToPages, Nat.shiftRight_eq_div_pow, Nat.shiftLeft_eq, Nat.one_mul,
    lt_iff_add_one_le, le_div_iff_mul_le hpos]
  rw [last] at hlast
  omega

lemma freeListRemove_eq_taken (h : BuddyInv s L) (hb : IsFree L b) :
    (s.bitToggle b.order (b.index / 2)).freeListRemove b.order (blockAddr b) = .ok (taken s b) := by
  obtain ⟨hn, hp⟩ := h.overlay_ok hb
  have hn' : (s.bitToggle b.order (b.index / 2)).overlayPtrOk (s.overlay (blockAddr b)).next
      = true := hn
  have hp' : (s.bitToggle b.order (b.index / 2)).overlayPtrOk (s.overlay (blockAddr b)).prev
      = true := hp
  rw [freeListRemove]
  simp only [bitToggle] at hn' hp' ⊢
  simp [hn', hp', taken]

/-- **The merge loop** keeps the invariant and adds exactly the held block to the free frames. -/
lemma mergeUp_spec : ∀ {fuel : ℕ} {s : Pmm} {L : ℕ → List ℕ} {b : DyadicBlock},
    BuddyInv s L → fuel = maxOrder - b.order → b.order ≤ maxOrder → b.last ≤ s.totalFrames →
    Disjoint b.frames (freeFrames L) →
    ∃ s' L', mergeUp fuel s b.order b.index (blockAddr b) = .ok s' ∧ BuddyInv s' L' ∧
      freeFrames L' = b.frames ∪ freeFrames L ∧ Keeps s s' (b.frames ∪ freeFrames L) := by
  intro fuel
  induction fuel with
  | zero =>
    intro s L b h hfuel ho hlast _
    have hlt := h.order_lt_of_last_le ho hlast
    omega
  | succ fuel ih =>
    intro s L b h hfuel ho hlast hdisj
    have hlt := h.order_lt_of_last_le ho hlast
    have hd := BuddyInv.disjoint_of_frames hdisj
    have hnb : ¬ IsFree L b := fun hb =>
      disjoint_left.mp (hd b hb) b.first_mem_frames b.first_mem_frames
    have hidx := index_lt_blocks h.config ho hlast
    have hpair : ¬ b.index >>> 1 ≥ (s.buddyBlocks b.order + 1) >>> 1 := by
      rw [shiftRight_eq_div_pow, shiftRight_eq_div_pow]
      omega
    have hhalf : b.index >>> 1 = b.index / 2 := shiftRight_eq_div_pow _ 1
    have htest : (s.bitToggle b.order (b.index / 2)).bitTest b.order (b.index / 2) =
        !(decide (IsFree L b) ^^ decide (IsFree L b.buddy)) := by
      rw [bitToggle_bitTest, if_pos ⟨rfl, rfl⟩, h.bit_eq ho]
    rw [mergeUp, if_pos hlt]
    dsimp only
    rw [if_neg hpair, hhalf, htest]
    by_cases hbuddy : IsFree L b.buddy
    · -- both halves are free now: the parent is held
      have htake := h.take hbuddy
      have hrem := freeListRemove_eq_taken h hbuddy
      rw [buddy_index_div_two, buddy_order] at hrem
      have hphys : ((b.index ^^^ 1) <<< b.order) <<< pageShift = blockAddr b.buddy :=
        blockAddr_eq_shift _ _
      rw [clearBit_blockAddr, hphys, hrem]
      simp only [hnb, hbuddy, decide_false, decide_true, Bool.false_xor, Bool.not_true,
        Bool.false_eq_true, if_false]
      have hff := h.freeFrames_erase hbuddy
      have hsub := BuddyInv.frames_subset_free hbuddy
      have hdisj' : Disjoint b.parent.frames (freeFrames (eraseBlock L b.buddy)) := by
        rw [hff, frames_parent]
        refine disjoint_union_left.mpr ⟨hdisj.mono_right sdiff_subset, ?_⟩
        exact disjoint_sdiff_right
      have hlast' : b.parent.last ≤ (taken s b.buddy).totalFrames :=
        parent_last_le hlast (h.inRange _ hbuddy)
      obtain ⟨s', L', hok, hinv, hfree, hkeep⟩ :=
        ih (b := b.parent) htake (by simp only [parent]; omega) hlt hlast' hdisj'
      have hset : b.parent.frames ∪ freeFrames (eraseBlock L b.buddy) =
          b.frames ∪ freeFrames L := by
        rw [hff, frames_parent, union_assoc, union_sdiff_cancel hsub]
      rw [hset] at hfree hkeep
      refine ⟨s', L', hok, hinv, hfree, ?_⟩
      exact ((h.keeps_taken hbuddy).mono subset_union_right).trans hkeep le_rfl
    · -- the buddy is in use: the held block is pushed
      simp only [hnb, hbuddy, decide_false, Bool.false_xor, Bool.not_false, if_true]
      exact ⟨given s b, insertBlock L b, rfl, h.put ho hlast hd hbuddy,
        freeFrames_insertBlock L b, h.keeps_given b⟩

end Makaos
