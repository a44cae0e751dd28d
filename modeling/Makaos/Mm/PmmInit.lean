import Makaos.Mm.BuddyRun

/-!
The boot-time construction of the buddy allocator from the memory map, `pmm_mem_survey` and
`pmm_buddy_init_from_map` of `kernel/mm/pmm.c`.

* `pmmMemSurvey`, `buddyInitFromMap`: the survey of the map for the largest hole, the fit check of
  the metadata, and the loop that frees every block that meets no forbidden frame.
* `buddyInitFromMap_frames`: where the metadata lies and what is free after a successful start.
-/

namespace Makaos

open Set Nat

open IntrusiveList (Links)
variable {n a c : ℕ}

/-! ### The memory map -/

/-- `e820_entry_t`. -/
structure E820Entry where
  base : ℕ
  length : ℕ
  type : ℕ
  deriving DecidableEq, Repr

namespace E820Entry

/-- The entry is usable memory. -/
def Usable (e : E820Entry) : Prop := e.type = 1

instance (e : E820Entry) : Decidable e.Usable := inferInstanceAs (Decidable (_ = _))

/-- `align_up(entry.base)`. -/
def start (e : E820Entry) : ℕ := alignUp e.base

/-- `align_down(entry.base + entry.length)`. -/
def endAddr (e : E820Entry) : ℕ := alignDown (wrap (e.base + e.length))

/-- The addresses of the entry. -/
def bytes (e : E820Entry) : Set ℕ := Set.Ico e.base (e.base + e.length)

/-- The frames all of whose bytes belong to the entry. -/
def wholeFrames (e : E820Entry) : Set ℕ :=
  {f | e.base ≤ f * pageSize ∧ (f + 1) * pageSize ≤ e.base + e.length}

/-- The bounds of the entry, rounded to frames, stay below `2^64`. -/
structure NoWrap (e : E820Entry) : Prop where
  base_le : e.base ≤ 2 ^ 64 - pageSize
  end_lt : e.base + e.length < 2 ^ 64

end E820Entry

/-- The range that is excluded around the kernel: `KERNEL_BASE_PHYS`, `LOADER_RESERVED_SIZE`. -/
structure KernelImage where
  basePhys : ℕ
  reservedSize : ℕ
  deriving DecidableEq, Repr

namespace KernelImage

/-- `kernel_start_idx`. -/
def startIdx (k : KernelImage) : ℕ := alignDown k.basePhys >>> pageShift

/-- `kernel_end_idx`. -/
def endIdx (k : KernelImage) : ℕ := alignUp (wrap (k.basePhys + k.reservedSize)) >>> pageShift

/-- The frames that hold a byte of the kernel image. -/
def frames (k : KernelImage) : Set ℕ :=
  {f | k.basePhys < (f + 1) * pageSize ∧ f * pageSize < k.basePhys + k.reservedSize}

/-- The image is not empty and its end, rounded to frames, stays below `2^64`. -/
structure WellFormed (k : KernelImage) : Prop where
  pos : 0 < k.reservedSize
  end_le : k.basePhys + k.reservedSize ≤ 2 ^ 64 - pageSize

end KernelImage

/-- `PMM_RESERVED_FRAMES`. -/
def reservedFrames : ℕ := (4 * 1024 * 1024) >>> pageShift

/-! ### The survey -/

/-- What `pmm_mem_survey` keeps while it walks the map: `g_phys_ceiling` and the largest hole so
far, its first frame `none` for `PMM_INVALID_FRAME`. -/
structure Survey where
  ceiling : ℕ
  base : Option ℕ
  size : ℕ
  deriving DecidableEq, Repr

/-- Take a hole if it is larger than the one at hand. -/
def Survey.offer (st : Survey) (base size : ℕ) : Survey :=
  if size ≤ st.size then st else { st with base := some base, size := size }

/-- The holes of the frames `[startIdx, endIdx)` around the kernel image. -/
def Survey.offerAround (k : KernelImage) (st : Survey) (startIdx endIdx : ℕ) : Survey :=
  if startIdx < k.endIdx ∧ endIdx > k.startIdx then
    let st := if startIdx ≥ k.startIdx then st else st.offer startIdx (k.startIdx - startIdx)
    if endIdx ≤ k.endIdx then st else st.offer k.endIdx (endIdx - k.endIdx)
  else st.offer startIdx (endIdx - startIdx)

/-- One round of the loop of `pmm_mem_survey`. -/
def surveyEntry (k : KernelImage) (st : Survey) (e : E820Entry) : Survey :=
  if ¬ e.Usable then st
  else
    let top := wrap (e.base + e.length)
    let st := if top > st.ceiling then { st with ceiling := top } else st
    let startIdx := e.start >>> pageShift
    let endIdx := e.endAddr >>> pageShift
    if endIdx ≤ reservedFrames then st
    else
      let startIdx := if startIdx < reservedFrames then reservedFrames else startIdx
      if startIdx ≥ k.startIdx ∧ endIdx ≤ k.endIdx then st
      else if startIdx ≥ maxFrames then st
      else
        let endIdx := if endIdx > maxFrames then maxFrames else endIdx
        if startIdx ≥ endIdx then st else st.offerAround k startIdx endIdx

/-- `pmm_mem_survey`: the hole, if there is one, is the field `base` as a frame index. -/
def pmmMemSurvey (k : KernelImage) (map : List E820Entry) : Survey :=
  map.foldl (surveyEntry k) ⟨0, none, 0⟩

/-! ### The metadata -/

/-- `bytes_for_bits`. -/
def bytesForBits (bitCount : ℕ) : ℕ := ((bitCount + 63) >>> 6) * 8

/-- `g_buddy_blocks` for a number of frames. -/
def blocksOf (totalFrames order : ℕ) : ℕ := (totalFrames + Pmm.orderToPages order - 1) >>> order

/-- `meta_size_bytes`: the coalesce bitmaps of all orders, then the reference counts, the pin
counts, the slab trackers and the slab heads.  At most `MAX_FRAMES` frames, so nothing wraps. -/
def metaSizeBytes (totalFrames : ℕ) : ℕ :=
  ((List.range (maxOrder + 1)).map fun order =>
    bytesForBits ((blocksOf totalFrames order + 1) >>> 1)).sum +
  totalFrames * 4 + totalFrames * 2 + totalFrames * 8 + totalFrames * 8

/-- `meta_frames`. -/
def metaFrames (totalFrames : ℕ) : ℕ := alignUp (metaSizeBytes totalFrames) >>> pageShift

/-- `hole_size_frames` of the fit check: from the hole to the end of the first usable entry that
holds its start. -/
def holeSizeFrames (map : List E820Entry) (holeStart : ℕ) : ℕ :=
  match map.find? (fun e => e.Usable ∧ ¬ (holeStart < e.start ∨ holeStart ≥ e.endAddr)) with
  | none => 0
  | some e => (e.endAddr - holeStart) >>> pageShift

/-! ### The populate loop -/

/-- `__builtin_ctzll`. -/
def ctz (x : ℕ) : ℕ := ((List.range 64).find? fun i => x.testBit i).getD 0

/-- `calculate_max_order`; `63 - __builtin_clzll(pages)` is the binary logarithm. -/
def calculateMaxOrder (addr endAddr : ℕ) : ℕ :=
  let frameIndex := addr >>> pageShift
  let alignOrder := if frameIndex = 0 then maxOrder else ctz frameIndex
  let pages := (endAddr - addr) >>> pageShift
  let rangeOrder := if pages = 0 then 0 else pages.log2
  let currentOrder := if alignOrder > rangeOrder then rangeOrder else alignOrder
  if currentOrder > maxOrder then maxOrder else currentOrder

/-- The frames the populate loop must not free, as index ranges. -/
structure Forbidden where
  metaStart : ℕ
  metaEnd : ℕ
  kernelStart : ℕ
  kernelEnd : ℕ

/-- `block_overlaps_forbidden`. -/
def blockOverlapsForbidden (totalFrames : ℕ) (m : Forbidden) (frameIndex order : ℕ) : Bool :=
  let blockEnd := frameIndex + Pmm.orderToPages order
  if frameIndex < reservedFrames then true
  else if frameIndex < reservedFrames ∧ blockEnd > reservedFrames then true
  else if frameIndex < m.metaEnd ∧ blockEnd > m.metaStart then true
  else if frameIndex < m.kernelEnd ∧ blockEnd > m.kernelStart then true
  else decide (blockEnd > totalFrames)

/-- The loop that reduces the order until the block meets no forbidden frame. -/
def reduceOrder (forbidden : ℕ → Bool) : ℕ → ℕ
  | 0 => 0
  | order + 1 => if forbidden (order + 1) then reduceOrder forbidden order else order + 1

/-- The inner populate loop, over the frames of one entry.  Every round advances by a page at
least, so the number of pages is enough fuel. -/
def populateRange (m : Forbidden) (endAddr : ℕ) : ℕ → Pmm → ℕ → Except Scribbled Pmm
  | 0, s, _ => .ok s
  | fuel + 1, s, current =>
    if current < endAddr then
      let frameIndex := current >>> pageShift
      if frameIndex < reservedFrames then
        populateRange m endAddr fuel s (current + pageSize)
      else if frameIndex ≥ m.metaStart ∧ frameIndex < m.metaEnd then
        populateRange m endAddr fuel s (current + pageSize)
      else if frameIndex ≥ m.kernelStart ∧ frameIndex < m.kernelEnd then
        populateRange m endAddr fuel s (current + pageSize)
      else
        let overlaps := blockOverlapsForbidden s.totalFrames m frameIndex
        let order := reduceOrder overlaps (calculateMaxOrder current endAddr)
        if overlaps order then populateRange m endAddr fuel s (current + pageSize)
        else
          match s.buddyFreeLocked current order with
          | .error e => .error e
          | .ok s => populateRange m endAddr fuel s (current + pageSize <<< order)
    else .ok s

/-- One round of the outer populate loop. -/
def populateEntry (m : Forbidden) (s : Pmm) (e : E820Entry) : Except Scribbled Pmm :=
  if ¬ e.Usable then .ok s
  else if e.start ≥ s.totalFrames <<< pageShift then .ok s
  else
    let endAddr :=
      if e.endAddr > s.totalFrames <<< pageShift then s.totalFrames <<< pageShift else e.endAddr
    if e.start ≥ endAddr then .ok s
    else populateRange m endAddr ((endAddr - e.start) / pageSize) s e.start

/-- The inner loop of `pmm_count_free_pages`, over one list. -/
def countList (overlay : ℕ → Links ℕ) (pages : ℕ) : ℕ → Option ℕ → ℕ
  | fuel + 1, some b => pages + countList overlay pages fuel (overlay b).next
  | _, _ => 0

/-- `pmm_count_free_pages`: no list is longer than the number of frames. -/
def countFreePages (s : Pmm) : Pmm :=
  let count := ((List.range (maxOrder + 1)).map fun o =>
    countList s.overlay (Pmm.orderToPages o) s.totalFrames (s.freeLists o)).sum
  { s with freePages := BitVec.ofNat 64 count }

/-- What a successful `pmm_buddy_init_from_map` leaves behind: the allocator and the reserved
metadata region. -/
structure BuddyInit where
  pmm : Pmm
  metaStart : ℕ
  metaFrames : ℕ

/-- The allocator as it is before the populate loop: every bit clear, every list empty. -/
def emptyPmm (overlay : ℕ → Links ℕ) (ceiling totalFrames : ℕ) : Pmm where
  physCeiling := ceiling
  totalFrames := totalFrames
  freePages := 0
  overlay := overlay
  freeLists := fun _ => none
  coalesce := fun _ _ => 0
  buddyBlocks := blocksOf totalFrames
  frameRefcount := fun _ => 0

/-- `g_total_frames`. -/
def totalFramesOf (ceiling : ℕ) : ℕ :=
  if ceiling >>> pageShift > maxFrames then maxFrames else ceiling >>> pageShift

/-- `pmm_buddy_init_from_map` on a machine whose memory holds `overlay`; `none` where it returns
early and leaves no allocator. -/
def buddyInitFromMap (k : KernelImage) (overlay : ℕ → Links ℕ) (map : List E820Entry) :
    Except Scribbled (Option BuddyInit) :=
  let survey := pmmMemSurvey k map
  match survey.base with
  | none => .ok none
  | some hole =>
    if survey.ceiling = 2 ^ 64 - 1 then .ok none
    else
      let total := totalFramesOf survey.ceiling
      if holeSizeFrames map (alignUp (hole <<< pageShift)) < metaFrames total then .ok none
      else
        let m : Forbidden := ⟨hole, hole + metaFrames total, k.startIdx, k.endIdx⟩
        match map.foldlM (populateEntry m) (emptyPmm overlay survey.ceiling total) with
        | .error e => .error e
        | .ok s => .ok (some ⟨countFreePages s, hole, metaFrames total⟩)

/-! ### Frames of entries and of the kernel image -/

variable {e : E820Entry}

lemma E820Entry.mem_wholeFrames (h : e.NoWrap) {f : ℕ} :
    f ∈ e.wholeFrames ↔ e.start >>> pageShift ≤ f ∧ f < e.endAddr >>> pageShift := by
  rw [E820Entry.start, alignUp_shiftRight h.base_le, E820Entry.endAddr, alignDown_shiftRight,
    wrap_eq_of_lt h.end_lt]
  simp only [E820Entry.wholeFrames, mem_ofPred_eq, pageSize]
  omega

variable {k : KernelImage}

lemma KernelImage.mem_frames (h : k.WellFormed) {f : ℕ} :
    f ∈ k.frames ↔ k.startIdx ≤ f ∧ f < k.endIdx := by
  have hlt : k.basePhys + k.reservedSize < 2 ^ 64 := by
    have := h.end_le
    simp only [pageSize] at this
    omega
  rw [KernelImage.startIdx, alignDown_shiftRight, KernelImage.endIdx, wrap_eq_of_lt hlt,
    alignUp_shiftRight h.end_le]
  simp only [KernelImage.frames, mem_ofPred_eq, pageSize]
  omega

lemma KernelImage.startIdx_lt (h : k.WellFormed) : k.startIdx < k.endIdx := by
  have hmem : k.basePhys / pageSize ∈ k.frames := by
    have := h.pos
    simp only [KernelImage.frames, mem_ofPred_eq, pageSize]
    omega
  rw [KernelImage.mem_frames h] at hmem
  omega

/-! ### The survey finds the largest hole -/

/-- A run of `n` frames from `a` on that can hold the metadata: whole frames of a usable entry, at
or above the reserved ones, below `MAX_FRAMES` and outside the kernel image. -/
structure IsHole (k : KernelImage) (e : E820Entry) (a n : ℕ) : Prop where
  usable : e.Usable
  reserved_le : reservedFrames ≤ a
  le_max : a + n ≤ maxFrames
  whole : Set.Ico a (a + n) ⊆ e.wholeFrames
  outside : Disjoint (Set.Ico a (a + n)) k.frames

lemma IsHole.idx (h : IsHole k e a n) (he : e.NoWrap) (hk : k.WellFormed) (hn : 0 < n) :
    e.start >>> pageShift ≤ a ∧ a + n ≤ e.endAddr >>> pageShift ∧
      (a + n ≤ k.startIdx ∨ k.endIdx ≤ a) := by
  have hfirst := (E820Entry.mem_wholeFrames he).mp (h.whole ⟨le_rfl, by omega⟩)
  have hin : a + n - 1 ∈ Ico a (a + n) := ⟨by omega, by omega⟩
  have hlast := (E820Entry.mem_wholeFrames he).mp (h.whole hin)
  refine ⟨hfirst.1, by omega, ?_⟩
  by_contra hcon
  -- the larger of the two first frames is in both runs
  have hlt := KernelImage.startIdx_lt hk
  have hboth : max a k.startIdx ∈ Ico a (a + n) := ⟨by omega, by omega⟩
  exact disjoint_left.mp h.outside hboth ((KernelImage.mem_frames hk).mpr (by omega))

lemma IsHole.of_idx (he : e.NoWrap) (hk : k.WellFormed)
    (hu : e.Usable) (hres : reservedFrames ≤ a) (hmax : a + n ≤ maxFrames)
    (hstart : e.start >>> pageShift ≤ a) (hend : a + n ≤ e.endAddr >>> pageShift)
    (hkern : a + n ≤ k.startIdx ∨ k.endIdx ≤ a) : IsHole k e a n where
  usable := hu
  reserved_le := hres
  le_max := hmax
  whole := by
    rintro f ⟨h1, h2⟩
    exact (E820Entry.mem_wholeFrames he).mpr ⟨by omega, by omega⟩
  outside := by
    refine disjoint_left.mpr ?_
    rintro f ⟨h1, h2⟩ hf
    have := (KernelImage.mem_frames hk).mp hf
    omega

/-- The survey after a step has the old hole or a larger one, which lies in the entry. -/
structure Improves (k : KernelImage) (e : E820Entry) (st st' : Survey) : Prop where
  ceiling : st'.ceiling = st.ceiling
  size_le : st.size ≤ st'.size
  chosen : (st'.base = st.base ∧ st'.size = st.size) ∨
    ∃ b, st'.base = some b ∧ 0 < st'.size ∧ IsHole k e b st'.size

lemma Improves.refl (k : KernelImage) (e : E820Entry) (st : Survey) : Improves k e st st :=
  ⟨rfl, le_rfl, .inl ⟨rfl, rfl⟩⟩

lemma Improves.trans {st st1 st2 : Survey}
    (h : Improves k e st st1) (h' : Improves k e st1 st2) : Improves k e st st2 := by
  refine ⟨h'.ceiling.trans h.ceiling, h.size_le.trans h'.size_le, ?_⟩
  rcases h'.chosen with ⟨hb, hs⟩ | hnew
  · rw [hb, hs]
    exact h.chosen
  · exact .inr hnew

lemma Improves.offer (st : Survey) {b z : ℕ}
    (h : IsHole k e b z) : Improves k e st (st.offer b z) := by
  rw [Survey.offer]
  split_ifs with hlt
  · exact Improves.refl k e st
  · exact ⟨rfl, by simp only; omega, .inr ⟨b, rfl, by simp only; omega, h⟩⟩

lemma size_offer (st : Survey) (b z : ℕ) : (st.offer b z).size = max st.size z := by
  rw [Survey.offer]
  split_ifs with hle
  · exact (max_eq_left hle).symm
  · exact (max_eq_right (not_le.mp hle).le).symm

section Around

variable {st : Survey} {lo hi : ℕ}

/-- The frames `[lo, hi)` of the entry that a hole may use. -/
structure Usables (e : E820Entry) (lo hi : ℕ) : Prop where
  usable : e.Usable
  reserved_le : reservedFrames ≤ lo
  le_max : hi ≤ maxFrames
  start_le : e.start >>> pageShift ≤ lo
  le_end : hi ≤ e.endAddr >>> pageShift

lemma Usables.isHole (hu : Usables e lo hi) (he : e.NoWrap) (hk : k.WellFormed) (ha : lo ≤ a)
    (hn : a + n ≤ hi) (hkern : a + n ≤ k.startIdx ∨ k.endIdx ≤ a) : IsHole k e a n :=
  .of_idx he hk hu.usable (hu.reserved_le.trans ha) (hn.trans hu.le_max) (hu.start_le.trans ha)
    (hn.trans hu.le_end) hkern

lemma improves_offerAround (hu : Usables e lo hi) (he : e.NoWrap) (hk : k.WellFormed)
    (hlt : lo < hi) : Improves k e st (st.offerAround k lo hi) := by
  rw [Survey.offerAround]
  split
  next hmeet =>
    -- the hole below the kernel image, then the one above it
    have hbelow : Improves k e st
        (if lo ≥ k.startIdx then st else st.offer lo (k.startIdx - lo)) := by
      split_ifs with h
      · exact .refl k e st
      · exact .offer st (hu.isHole he hk le_rfl (by omega) (by omega))
    dsimp only
    split
    · exact hbelow
    next h =>
      exact hbelow.trans (.offer _ (hu.isHole he hk (by omega) (by omega) (by omega)))
  next hmiss => exact .offer st (hu.isHole he hk le_rfl (by omega) (by omega))

lemma size_le_offerAround (ha : lo ≤ a) (hn : a + n ≤ hi) (hpos : 0 < n)
    (hkern : a + n ≤ k.startIdx ∨ k.endIdx ≤ a) : n ≤ (st.offerAround k lo hi).size := by
  rw [Survey.offerAround]
  split
  next hmeet =>
    dsimp only
    rcases hkern with hlow | hhigh
    · rw [if_neg (by omega : ¬ lo ≥ k.startIdx)]
      split <;> simp only [size_offer] <;> omega
    · rw [if_neg (by omega : ¬ hi ≤ k.endIdx), size_offer]
      omega
  next hmiss =>
    rw [size_offer]
    omega

end Around

/-- The survey of a map: the ceiling covers the usable entries, the hole at hand is a hole of one
of them and no hole of any of them is larger. -/
structure SurveyInv (k : KernelImage) (map : List E820Entry) (st : Survey) : Prop where
  ceiling : ∀ e ∈ map, e.Usable → e.base + e.length ≤ st.ceiling
  size_none : st.base = none → st.size = 0
  chosen : ∀ b, st.base = some b → 0 < st.size ∧ ∃ e ∈ map, IsHole k e b st.size
  largest : ∀ e ∈ map, ∀ a n, IsHole k e a n → n ≤ st.size

lemma ite_lt_eq_max (a b : ℕ) : (if a < b then b else a) = max a b := by
  split <;> omega

lemma ite_gt_eq_min (a b : ℕ) : (if a > b then b else a) = min a b := by
  split <;> omega

/-- One round: the ceiling covers the entry, the hole at hand is the old one or one of the entry,
and no hole of the entry is larger. -/
lemma surveyEntry_spec (st : Survey) (he : e.Usable → e.NoWrap) (hk : k.WellFormed) :
    ∃ st1 : Survey, st1.base = st.base ∧ st1.size = st.size ∧ st.ceiling ≤ st1.ceiling ∧
      (e.Usable → e.base + e.length ≤ st1.ceiling) ∧ Improves k e st1 (surveyEntry k st e) ∧
      ∀ a n, IsHole k e a n → n ≤ (surveyEntry k st e).size := by
  by_cases hu : e.Usable
  swap
  · rw [surveyEntry, if_pos hu]
    exact ⟨st, rfl, rfl, le_rfl, fun h => absurd h hu, .refl k e st,
      fun _ _ hole => absurd hole.usable hu⟩
  have he := he hu
  refine ⟨if wrap (e.base + e.length) > st.ceiling then
    { st with ceiling := wrap (e.base + e.length) } else st, ?_, ?_, ?_, fun _ => ?_, ?_⟩
  · split <;> rfl
  · split <;> rfl
  · split_ifs with h
    · exact h.le
    · exact le_rfl
  · rw [wrap_eq_of_lt he.end_lt]
    split_ifs with h
    · exact le_rfl
    · exact not_lt.mp h
  set st1 := if wrap (e.base + e.length) > st.ceiling then
    { st with ceiling := wrap (e.base + e.length) } else st with hst1
  rw [surveyEntry, if_neg (not_not.mpr hu)]
  dsimp only
  rw [← hst1]
  rw [ite_lt_eq_max, ite_gt_eq_min]
  set lo := max (e.start >>> pageShift) reservedFrames with hlo
  set hi := min (e.endAddr >>> pageShift) maxFrames with hhi
  have hidx : ∀ a n, IsHole k e a n → n = 0 ∨ (0 < n ∧ lo ≤ a ∧ a + n ≤ hi ∧
      (a + n ≤ k.startIdx ∨ k.endIdx ≤ a)) := by
    intro a n h
    rcases Nat.eq_zero_or_pos n with hn | hn
    · exact .inl hn
    · obtain ⟨hstart, hend, hkern⟩ := h.idx he hk hn
      exact .inr ⟨hn, max_le hstart h.reserved_le, le_min hend h.le_max, hkern⟩
  -- each early way out of the round leaves no room for a hole
  have hskip : ∀ {p : Prop} [Decidable p] {st' : Survey}, (p → ∀ a n, IsHole k e a n → n = 0) →
      (¬ p → Improves k e st1 st' ∧ ∀ a n, IsHole k e a n → n ≤ st'.size) →
      Improves k e st1 (if p then st1 else st') ∧
        ∀ a n, IsHole k e a n → n ≤ (if p then st1 else st').size := by
    intro p _ st' hp hnp
    split_ifs with h
    · exact ⟨.refl k e st1, fun a n hole => by rw [hp h a n hole]; exact zero_le _⟩
    · exact hnp h
  refine hskip ?_ fun _ => hskip ?_ fun _ => hskip ?_ fun _ => hskip ?_ fun hlt => ?_
  iterate 4
    intro h a n hole
    rcases hidx a n hole with h0 | ⟨hn, h1, h2, h3⟩ <;> omega
  · have husables : Usables e lo hi :=
      ⟨hu, le_max_right _ _, min_le_right _ _, le_max_left _ _, min_le_left _ _⟩
    refine ⟨improves_offerAround husables he hk (by omega), fun a n hole => ?_⟩
    rcases hidx a n hole with h0 | ⟨hn, h1, h2, h3⟩
    · rw [h0]
      exact zero_le _
    · exact size_le_offerAround h1 h2 hn h3

lemma SurveyInv.step {map : List E820Entry} {st : Survey} (h : SurveyInv k map st)
    (he : e.Usable → e.NoWrap) (hk : k.WellFormed) :
    SurveyInv k (map ++ [e]) (surveyEntry k st e) := by
  obtain ⟨st1, hbase, hsize, hceil, htop, himp, hlarge⟩ := surveyEntry_spec st he hk
  refine ⟨fun e' he' hu' => ?_, fun hnone => ?_, fun b hb => ?_, fun e' he' a n hole => ?_⟩
  · rw [himp.ceiling]
    rcases List.mem_append.mp he' with hold | hnew
    · exact (h.ceiling e' hold hu').trans hceil
    · rw [List.mem_singleton] at hnew
      subst hnew
      exact htop hu'
  · rcases himp.chosen with ⟨hb, hs⟩ | ⟨b, hb, _⟩
    · rw [hs, hsize]
      exact h.size_none (by rw [← hbase, ← hb, hnone])
    · rw [hnone] at hb
      nomatch hb
  · rcases himp.chosen with ⟨hb', hs⟩ | ⟨b', hb', hpos, hole⟩
    · rw [hs, hsize]
      obtain ⟨hpos, e', he', hole⟩ := h.chosen b (by rw [← hbase, ← hb', hb])
      exact ⟨hpos, e', List.mem_append_left _ he', hole⟩
    · rw [hb] at hb'
      cases hb'
      exact ⟨hpos, e, List.mem_append_right _ (List.mem_singleton_self e), hole⟩
  · rcases List.mem_append.mp he' with hold | hnew
    · exact (h.largest e' hold a n hole).trans (hsize ▸ himp.size_le)
    · rw [List.mem_singleton.mp hnew] at hole
      exact hlarge a n hole

/-- **The survey** of a whole map. -/
lemma pmmMemSurvey_inv {map : List E820Entry} (hk : k.WellFormed)
    (hmap : ∀ e ∈ map, e.Usable → e.NoWrap) : SurveyInv k map (pmmMemSurvey k map) := by
  induction map using List.reverseRecOn with
  | nil => exact ⟨by simp, fun _ => rfl, by simp [pmmMemSurvey], by simp⟩
  | append_singleton map e ih =>
    rw [pmmMemSurvey, List.foldl_append]
    exact (ih fun e' he' => hmap e' (List.mem_append_left _ he')).step
      (hmap e (List.mem_append_right _ (List.mem_singleton_self e))) hk

/-! ### The populate loop frees the allowed frames -/

/-- The populate loop may free the frame. -/
def Allowed (m : Forbidden) (f : ℕ) : Prop :=
  reservedFrames ≤ f ∧ ¬ (m.metaStart ≤ f ∧ f < m.metaEnd) ∧ ¬ (m.kernelStart ≤ f ∧ f < m.kernelEnd)

lemma two_pow_ctz_dvd (x : ℕ) : 2 ^ ctz x ∣ x := by
  rw [ctz]
  cases hfind : (List.range 64).find? fun i => x.testBit i with
  | none => simp
  | some i =>
    obtain ⟨_, _, hlow⟩ := List.find?_range_eq_some.mp hfind
    refine dvd_of_mod_eq_zero (eq_of_testBit_eq fun j => ?_)
    rw [Option.getD_some, testBit_mod_two_pow, zero_testBit]
    by_cases hj : j < i
    · have := hlow j hj
      simp only [Bool.not_eq_true'] at this
      simp [this]
    · simp [hj]

lemma mul_shiftRight (c : ℕ) : (c * pageSize) >>> pageShift = c := by
  rw [shiftRight_pageShift, Nat.mul_div_cancel _ pageSize_pos]

/-- The order chosen for the frame `c` before `n`: the block is aligned and ends by `n`. -/
lemma calculateMaxOrder_spec (hc : 0 < c) (hlt : c < n) :
    2 ^ calculateMaxOrder (c * pageSize) (n * pageSize) ∣ c ∧
      c + 2 ^ calculateMaxOrder (c * pageSize) (n * pageSize) ≤ n := by
  have hpages : (n * pageSize - c * pageSize) >>> pageShift = n - c := by
    rw [← Nat.sub_mul, mul_shiftRight]
  have hle : calculateMaxOrder (c * pageSize) (n * pageSize) ≤ ctz c ∧
      calculateMaxOrder (c * pageSize) (n * pageSize) ≤ (n - c).log2 := by
    rw [calculateMaxOrder, mul_shiftRight, hpages, if_neg (by omega : ¬ c = 0),
      if_neg (by omega : ¬ n - c = 0), ite_gt_eq_min, ite_gt_eq_min]
    omega
  refine ⟨(pow_dvd_pow 2 hle.1).trans (two_pow_ctz_dvd c), ?_⟩
  have hlog : 2 ^ (n - c).log2 ≤ n - c := Nat.log2_self_le (by omega)
  have := Nat.pow_le_pow_right (n := 2) (by norm_num) hle.2
  omega

lemma reduceOrder_le (forbidden : ℕ → Bool) (o : ℕ) : reduceOrder forbidden o ≤ o := by
  induction o with
  | zero => exact le_rfl
  | succ o ih =>
    rw [reduceOrder]
    split
    · omega
    · exact le_rfl

lemma reduceOrder_spec (forbidden : ℕ → Bool) (o : ℕ) :
    forbidden (reduceOrder forbidden o) = false ∨ reduceOrder forbidden o = 0 := by
  induction o with
  | zero => exact .inr rfl
  | succ o ih =>
    rw [reduceOrder]
    split_ifs with h
    · exact ih
    · exact .inl (Bool.eq_false_iff.mpr h)

variable {m : Forbidden} {L : ℕ → List ℕ} {s : Pmm} {total : ℕ}

lemma allowed_of_not_overlaps {o : ℕ} (h : blockOverlapsForbidden total m c o = false) :
    c + 2 ^ o ≤ total ∧ ∀ f, c ≤ f → f < c + 2 ^ o → Allowed m f := by
  simp only [blockOverlapsForbidden, Pmm.orderToPages, one_shiftLeft] at h
  split_ifs at h with h1 h2 h3 h4
  rw [decide_eq_false_iff_not] at h
  refine ⟨by omega, fun f hf hlt => ⟨by omega, by omega, by omega⟩⟩

lemma not_overlaps_of_allowed (h : Allowed m c) (hlt : c < total) :
    blockOverlapsForbidden total m c 0 = false := by
  obtain ⟨h1, h2, h3⟩ := h
  simp only [blockOverlapsForbidden, Pmm.orderToPages, one_shiftLeft, pow_zero]
  rw [if_neg (by omega), if_neg (by omega), if_neg (by omega), if_neg (by omega),
    decide_eq_false_iff_not]
  omega

/-- The frames of `[c, n)` that are allowed, with the first one singled out. -/
lemma allowed_run_skip (hc : ¬ Allowed m c) (hlt : c < n) :
    Ico c n ∩ {f | Allowed m f} = Ico (c + 1) n ∩ {f | Allowed m f} := by
  rw [← Ioo_insert_left hlt, insert_inter_of_notMem (t := {f | Allowed m f}) hc]
  rfl

/-- The frames of `[c, n)` that are allowed, with an allowed run `[c, d)` singled out. -/
lemma allowed_run_block {d : ℕ} (hcd : c ≤ d) (hdn : d ≤ n)
    (hall : ∀ f, c ≤ f → f < d → Allowed m f) :
    Ico c n ∩ {f | Allowed m f} = Ico c d ∪ Ico d n ∩ {f | Allowed m f} := by
  rw [← Ico_union_Ico_eq_Ico hcd hdn, union_inter_distrib_right,
    inter_eq_left (t := {f | Allowed m f}) |>.mpr fun f hf => hall f hf.1 hf.2]

/-- The run `r` of the populate loop does not panic and adds the frames `S` to the free ones. -/
def Frees (s : Pmm) (L : ℕ → List ℕ) (r : Except Scribbled Pmm) (S : Set ℕ) : Prop :=
  ∃ s' L', r = .ok s' ∧ BuddyInv s' L' ∧ s'.totalFrames = s.totalFrames ∧
    freeFrames L' = freeFrames L ∪ S

lemma Frees.none (hinv : BuddyInv s L) (h : n ≤ c) :
    Frees s L (.ok s) (Ico c n ∩ {f | Allowed m f}) :=
  ⟨s, L, rfl, hinv, rfl, by rw [Ico_eq_empty_of_le h, empty_inter, union_empty]⟩

/-- The loop frees the block of order `o` at frame `c`. -/
lemma frees_block {o : ℕ} (hinv : BuddyInv s L) (hdvd : 2 ^ o ∣ c)
    (hend : c + 2 ^ o ≤ s.totalFrames) (hfree : ∀ f, c ≤ f → f < c + 2 ^ o → f ∉ freeFrames L) :
    Frees s L (s.buddyFreeLocked (c * pageSize) o) (Ico c (c + 2 ^ o)) := by
  obtain ⟨i, hi⟩ := hdvd
  have hfirst : (⟨o, i⟩ : DyadicBlock).first = c := by
    rw [DyadicBlock.first, hi, mul_comm]
  have hlast : (⟨o, i⟩ : DyadicBlock).last = c + 2 ^ o := by
    rw [DyadicBlock.last_eq, hfirst]
  have hframes : (⟨o, i⟩ : DyadicBlock).frames = Ico c (c + 2 ^ o) := by
    rw [DyadicBlock.frames, hfirst, hlast]
  have hdisj : Disjoint (⟨o, i⟩ : DyadicBlock).frames (freeFrames L) := by
    rw [hframes]
    exact disjoint_left.mpr fun f hf => hfree f hf.1 hf.2
  obtain ⟨s1, L1, hok, hinv1, hfree1, hkeep⟩ :=
    buddyFreeLocked_spec hinv (b := ⟨o, i⟩) (hlast.trans_le hend) hdisj
  rw [blockAddr, hfirst] at hok
  exact ⟨s1, L1, hok, hinv1, hkeep.total, by rw [hfree1, hframes, union_comm]⟩

/-- **The inner populate loop**, from frame `c` to frame `n`: it does not panic and adds exactly
the allowed frames. -/
lemma populateRange_spec :
    ∀ (fuel : ℕ) {s : Pmm} {L : ℕ → List ℕ} {c : ℕ}, BuddyInv s L → n ≤ s.totalFrames →
    n ≤ c + fuel → (∀ f, c ≤ f → f < n → f ∉ freeFrames L) →
    Frees s L (populateRange m (n * pageSize) fuel s (c * pageSize))
      (Ico c n ∩ {f | Allowed m f}) := by
  intro fuel
  induction fuel with
  | zero =>
    intro s L c hinv _ hfuel _
    exact .none hinv hfuel
  | succ fuel ih =>
    intro s L c hinv htotal hfuel hfree
    rw [populateRange]
    by_cases hlt : c < n
    swap
    · rw [if_neg (by rw [Nat.mul_lt_mul_right pageSize_pos]; exact hlt)]
      exact .none hinv (not_lt.mp hlt)
    rw [if_pos (by rw [Nat.mul_lt_mul_right pageSize_pos]; exact hlt)]
    -- a round that skips the frame `c`
    have hskip : ¬ Allowed m c →
        Frees s L (populateRange m (n * pageSize) fuel s (c * pageSize + pageSize))
          (Ico c n ∩ {f | Allowed m f}) := by
      intro hc
      rw [allowed_run_skip hc hlt, ← succ_mul]
      exact ih hinv htotal (by omega) fun f h1 h2 => hfree f (by omega) h2
    dsimp only
    rw [mul_shiftRight]
    split_ifs with h1 h2 h3 h4
    · exact hskip fun h => by have := h.1; omega
    · exact hskip fun h => h.2.1 h2
    · exact hskip fun h => h.2.2 h3
    · -- the order has been reduced to zero, where an allowed frame overlaps nothing
      have hallowed : Allowed m c := ⟨by omega, h2, h3⟩
      rcases reduceOrder_spec (blockOverlapsForbidden s.totalFrames m c)
        (calculateMaxOrder (c * pageSize) (n * pageSize)) with hfalse | hzero
      · rw [hfalse] at h4
        nomatch h4
      · rw [hzero, not_overlaps_of_allowed hallowed (by omega)] at h4
        nomatch h4
    · have hpos : 0 < c := by
        have hres : reservedFrames = 1024 := rfl
        omega
      obtain ⟨hdvd, hend⟩ := calculateMaxOrder_spec hpos hlt
      have hred := reduceOrder_le (blockOverlapsForbidden s.totalFrames m c)
        (calculateMaxOrder (c * pageSize) (n * pageSize))
      set o := reduceOrder (blockOverlapsForbidden s.totalFrames m c)
        (calculateMaxOrder (c * pageSize) (n * pageSize)) with ho
      obtain ⟨_, hall⟩ := allowed_of_not_overlaps (Bool.eq_false_iff.mpr h4)
      have hpow : 2 ^ o ≤ 2 ^ calculateMaxOrder (c * pageSize) (n * pageSize) :=
        Nat.pow_le_pow_right (by norm_num) hred
      obtain ⟨s1, L1, hok, hinv1, htot1, hfree1⟩ := frees_block hinv
        ((pow_dvd_pow 2 hred).trans hdvd) (by omega) fun f hf hlt => hfree f hf (by omega)
      rw [hok]
      have hnext : c * pageSize + pageSize <<< o = (c + 2 ^ o) * pageSize := by
        rw [shiftLeft_eq, add_mul, mul_comm pageSize]
      dsimp only
      rw [hnext]
      have hrest : ∀ f, c + 2 ^ o ≤ f → f < n → f ∉ freeFrames L1 := by
        intro f hf hn hmem
        rw [hfree1] at hmem
        rcases hmem with hL | hb
        · exact hfree f (le_trans (le_add_right _ _) hf) hn hL
        · exact absurd hb.2 (not_lt.mpr hf)
      obtain ⟨s2, L2, hok2, hinv2, htot2, hfree2⟩ := ih hinv1 (by rw [htot1]; exact htotal)
        (by have := Nat.two_pow_pos o; omega) hrest
      refine ⟨s2, L2, hok2, hinv2, htot2.trans htot1, ?_⟩
      rw [hfree2, hfree1, allowed_run_block (le_add_right c (2 ^ o)) (by omega) hall,
        union_assoc]

/-- The entries of the map share no byte. -/
def NonOverlapping (map : List E820Entry) : Prop :=
  map.Pairwise fun e e' => Disjoint e.bytes e'.bytes

lemma disjoint_wholeFrames {e e' : E820Entry} (h : Disjoint e.bytes e'.bytes) :
    Disjoint e.wholeFrames e'.wholeFrames := by
  refine disjoint_left.mpr ?_
  rintro f ⟨h1, h2⟩ ⟨h3, h4⟩
  simp only [pageSize] at h1 h2 h3 h4
  have hmem : f * 4096 ∈ e.bytes := ⟨h1, by omega⟩
  exact disjoint_left.mp h hmem ⟨h3, by omega⟩

lemma populateEntry_spec (hinv : BuddyInv s L) (he : e.Usable → e.NoWrap)
    (hdisj : e.Usable → Disjoint (freeFrames L) e.wholeFrames) : Frees s L (populateEntry m s e)
      {f | e.Usable ∧ f ∈ e.wholeFrames ∧ f < s.totalFrames ∧ Allowed m f} := by
  by_cases hu : e.Usable
  swap
  · refine ⟨s, L, by rw [populateEntry, if_pos hu], hinv, rfl, ?_⟩
    simp [hu]
  have hnw := he hu
  set a := e.start >>> pageShift with ha
  set z := e.endAddr >>> pageShift with hz
  have hstart : e.start = a * pageSize := by
    rw [ha, shiftRight_pageShift]
    exact (alignDown_eq_self (pageAligned_alignUp e.base)).symm
  have hend : e.endAddr = z * pageSize := by
    rw [hz, shiftRight_pageShift]
    exact (alignDown_eq_self (pageAligned_alignDown _)).symm
  have hset : {f | e.Usable ∧ f ∈ e.wholeFrames ∧ f < s.totalFrames ∧ Allowed m f} =
      Ico a (min z s.totalFrames) ∩ {f | Allowed m f} := by
    ext f
    simp only [mem_ofPred_eq, E820Entry.mem_wholeFrames hnw, hu, true_and, mem_inter_iff, mem_Ico,
      lt_min_iff]
    tauto
  have hshift : s.totalFrames <<< pageShift = s.totalFrames * pageSize := by
    rw [shiftLeft_eq, two_pow_pageShift]
  have hmin : min (z * pageSize) (s.totalFrames * pageSize) = min z s.totalFrames * pageSize :=
    (Nat.mul_min_mul_right _ _ _)
  rw [hset, populateEntry, if_neg (not_not.mpr hu), hshift, hstart, hend]
  dsimp only
  rw [ite_gt_eq_min, hmin]
  -- the two early ways out find no frame of the range in the entry
  split_ifs with h1 h2
  · exact .none hinv ((min_le_right _ _).trans (le_of_mul_le_mul_right h1 pageSize_pos))
  · exact .none hinv (le_of_mul_le_mul_right h2 pageSize_pos)
  · rw [← Nat.sub_mul, Nat.mul_div_cancel _ pageSize_pos]
    refine populateRange_spec _ hinv (min_le_right _ _) (by omega) fun f hf hlt hmem => ?_
    exact disjoint_left.mp (hdisj hu) hmem
      ((E820Entry.mem_wholeFrames hnw).mpr ⟨hf, hlt.trans_le (min_le_left _ _)⟩)

/-- **The populate loop** frees exactly the allowed whole frames of the usable entries. -/
lemma populate_spec : ∀ (map : List E820Entry) {s : Pmm} {L : ℕ → List ℕ},
    BuddyInv s L → NonOverlapping map → (∀ e ∈ map, e.Usable → e.NoWrap) →
    (∀ e ∈ map, e.Usable → Disjoint (freeFrames L) e.wholeFrames) →
    ∃ s' L', map.foldlM (populateEntry m) s = .ok s' ∧ BuddyInv s' L' ∧
      freeFrames L' = freeFrames L ∪
        {f | (∃ e ∈ map, e.Usable ∧ f ∈ e.wholeFrames) ∧ f < s.totalFrames ∧ Allowed m f} := by
  intro map
  induction map with
  | nil =>
    intro s L hinv _ _ _
    exact ⟨s, L, rfl, hinv, by simp⟩
  | cons e map ih =>
    intro s L hinv hover hwrap hdisj
    obtain ⟨hhead, htail⟩ := List.pairwise_cons.mp hover
    obtain ⟨s1, L1, hok1, hinv1, htot1, hfree1⟩ := populateEntry_spec (m := m) hinv
      (hwrap e List.mem_cons_self) (hdisj e List.mem_cons_self)
    have hdisj1 : ∀ e' ∈ map, e'.Usable → Disjoint (freeFrames L1) e'.wholeFrames := by
      intro e' he' hu'
      rw [hfree1]
      refine disjoint_union_left.mpr ⟨hdisj e' (List.mem_cons_of_mem _ he') hu', ?_⟩
      exact (disjoint_wholeFrames (hhead e' he')).mono_left fun f hf => hf.2.1
    obtain ⟨s2, L2, hok2, hinv2, hfree2⟩ := ih hinv1 htail
      (fun e' he' => hwrap e' (List.mem_cons_of_mem _ he')) hdisj1
    refine ⟨s2, L2, ?_, hinv2, ?_⟩
    · rwa [List.foldlM_cons, hok1]
    · rw [hfree2, hfree1, htot1]
      ext f
      simp only [mem_union, mem_ofPred_eq, List.mem_cons, exists_eq_or_imp]
      tauto

/-! ### The whole start -/

lemma totalFramesOf_eq (ceiling : ℕ) :
    totalFramesOf ceiling = min (ceiling / pageSize) maxFrames := by
  rw [totalFramesOf, ite_gt_eq_min, shiftRight_pageShift]

lemma emptyPmm_inv (overlay : ℕ → Links ℕ) (ceiling : ℕ) :
    BuddyInv (emptyPmm overlay ceiling (totalFramesOf ceiling)) (fun _ => []) := by
  refine .empty ⟨?_, ?_, fun _ _ => rfl⟩ rfl rfl
  · show totalFramesOf ceiling ≤ maxFrames
    rw [totalFramesOf_eq]
    exact min_le_right _ _
  · show totalFramesOf ceiling * pageSize ≤ ceiling
    rw [totalFramesOf_eq]
    exact (mul_le_mul_right _ (min_le_left _ _)).trans (div_mul_le_self _ _)

lemma freeFrames_nil : freeFrames (fun _ => []) = ∅ := by
  ext f
  simp [freeFrames, IsFree]

/-- The frames of the reserved metadata region. -/
def BuddyInit.metaRegion (r : BuddyInit) : Set ℕ := Set.Ico r.metaStart (r.metaStart + r.metaFrames)

/-- The hole the metadata goes to, and that the fit check found room behind it. -/
structure Placed (k : KernelImage) (map : List E820Entry) (r : BuddyInit) : Prop where
  base : (pmmMemSurvey k map).base = some r.metaStart
  size : r.metaFrames = metaFrames (totalFramesOf (pmmMemSurvey k map).ceiling)
  fits : r.metaFrames ≤ holeSizeFrames map (alignUp (r.metaStart <<< pageShift))

section Start

variable {map : List E820Entry} {overlay : ℕ → Links ℕ}

variable (overlay) in
/-- If the survey finds a hole and the fit check passes, the start succeeds; it never panics. -/
lemma buddyInitFromMap_some {hole : ℕ} (hk : k.WellFormed) (hover : NonOverlapping map)
    (hwrap : ∀ e ∈ map, e.Usable → e.NoWrap) (hbase : (pmmMemSurvey k map).base = some hole)
    (hceil : (pmmMemSurvey k map).ceiling ≠ 2 ^ 64 - 1 := by decide +kernel)
    (hfit : metaFrames (totalFramesOf (pmmMemSurvey k map).ceiling) ≤
      holeSizeFrames map (alignUp (hole <<< pageShift)) := by decide +kernel) :
    ∃ r L, buddyInitFromMap k overlay map = .ok (some r) ∧ r.metaStart = hole ∧
      Placed k map r ∧ BuddyInv r.pmm L ∧
      freeFrames L = {f | f < maxFrames ∧ (∃ e ∈ map, e.Usable ∧ f ∈ e.wholeFrames) ∧
        reservedFrames ≤ f ∧ f ∉ k.frames ∧ f ∉ r.metaRegion} := by
  set total := totalFramesOf (pmmMemSurvey k map).ceiling with htotal
  obtain ⟨s, L, hok, hinv, hfree⟩ := populate_spec
    (m := ⟨hole, hole + metaFrames total, k.startIdx, k.endIdx⟩) map
    (emptyPmm_inv overlay (pmmMemSurvey k map).ceiling) hover hwrap
    (fun e _ _ => by rw [freeFrames_nil]; exact empty_disjoint _)
  refine ⟨⟨countFreePages s, hole, metaFrames total⟩, L, ?_, rfl, ⟨hbase, rfl, hfit⟩,
    hinv.of_counters _ s.frameRefcount, ?_⟩
  · rw [buddyInitFromMap, hbase]
    dsimp only
    rw [if_neg hceil, if_neg (not_lt.mpr hfit), hok]
  · rw [hfree, freeFrames_nil, empty_union]
    ext f
    -- a whole frame of a usable entry lies below the ceiling
    have hceilf : ∀ e ∈ map, e.Usable → f ∈ e.wholeFrames →
        f < (pmmMemSurvey k map).ceiling / pageSize := by
      intro e he hu hf
      have htop := (pmmMemSurvey_inv hk hwrap).ceiling e he hu
      rw [lt_div_iff_mul_lt pageSize_pos]
      have := hf.2
      simp only [pageSize] at this ⊢
      omega
    have hrange : (emptyPmm overlay (pmmMemSurvey k map).ceiling
        (totalFramesOf (pmmMemSurvey k map).ceiling)).totalFrames =
        min ((pmmMemSurvey k map).ceiling / pageSize) maxFrames := totalFramesOf_eq _
    simp only [mem_ofPred_eq, hrange, Allowed, lt_min_iff, KernelImage.mem_frames hk,
      BuddyInit.metaRegion, mem_Ico]
    constructor
    · rintro ⟨hex, ⟨_, hmax⟩, hres, hmeta, hkern⟩
      exact ⟨hmax, hex, hres, hkern, hmeta⟩
    · rintro ⟨hmax, ⟨e, he, hu, hf⟩, hres, hkern, hmeta⟩
      exact ⟨⟨e, he, hu, hf⟩, ⟨hceilf e he hu hf, hmax⟩, hres, hmeta, hkern⟩

lemma alignUp_hole (h : a ≤ maxFrames) : alignUp (a <<< pageShift) = a * pageSize := by
  have hmax : maxFrames = 16777216 := rfl
  rw [shiftLeft_eq, two_pow_pageShift, alignUp_eq (by simp only [pageSize]; omega)]
  simp only [pageSize]
  omega

section

variable {r : BuddyInit} (h : Placed k map r) (hk : k.WellFormed)
  (hwrap : ∀ e ∈ map, e.Usable → e.NoWrap)
include h hk hwrap

lemma Placed.subset_entry : ∃ e ∈ map, e.Usable ∧ r.metaRegion ⊆ e.wholeFrames := by
  obtain ⟨_, e0, he0, hole0⟩ := (pmmMemSurvey_inv hk hwrap).chosen _ h.base
  have hfits := h.fits
  rw [alignUp_hole ((le_add_right _ _).trans hole0.le_max), holeSizeFrames] at hfits
  cases hfind : map.find? fun e => e.Usable ∧
      ¬ (r.metaStart * pageSize < e.start ∨ r.metaStart * pageSize ≥ e.endAddr) with
  | none =>
    -- nothing was found, so there is no metadata at all
    rw [hfind] at hfits
    refine ⟨e0, he0, hole0.usable, ?_⟩
    rintro f ⟨h1, h2⟩
    dsimp only at hfits
    omega
  | some e =>
    rw [hfind] at hfits
    have he := List.mem_of_find?_eq_some hfind
    have hprop := List.find?_some hfind
    simp only [decide_eq_true_eq, not_or, not_lt, ge_iff_le, not_le] at hprop
    obtain ⟨hu, hstart, hend⟩ := hprop
    refine ⟨e, he, hu, ?_⟩
    rintro f ⟨h1, h2⟩
    rw [E820Entry.mem_wholeFrames (hwrap e he hu)]
    simp only [shiftRight_pageShift, pageSize] at hfits hstart hend ⊢
    omega

lemma Placed.reserved_le : ∀ f ∈ r.metaRegion, reservedFrames ≤ f := by
  obtain ⟨_, _, _, hole⟩ := (pmmMemSurvey_inv hk hwrap).chosen _ h.base
  exact fun f hf => hole.reserved_le.trans hf.1

/-- If any hole has room for the metadata, the chosen one has. -/
lemma Placed.disjoint_kernel (he : e ∈ map)
    (hroom : IsHole k e a r.metaFrames) : Disjoint r.metaRegion k.frames := by
  have hinv := pmmMemSurvey_inv hk hwrap
  obtain ⟨_, _, _, hole⟩ := hinv.chosen _ h.base
  have hle := hinv.largest e he a _ hroom
  refine hole.outside.mono_left ?_
  rintro f ⟨h1, h2⟩
  exact ⟨h1, by omega⟩

end

/-- **The start of the allocator.**  For every map of non-overlapping entries and every kernel
image, a successful start keeps its metadata inside one usable entry and off the reserved frames,
off the kernel image too whenever some hole outside the image has room for it, and leaves free
exactly the whole frames below `MAX_FRAMES` of usable entries that are not reserved and belong
neither to the kernel image nor to the metadata. -/
theorem buddyInitFromMap_frames {r : BuddyInit} (hk : k.WellFormed) (hover : NonOverlapping map)
    (hwrap : ∀ e ∈ map, e.Usable → e.NoWrap) (hok : buddyInitFromMap k overlay map = .ok (some r)) :
    (∃ e ∈ map, e.Usable ∧ r.metaRegion ⊆ e.wholeFrames) ∧
    (∀ f ∈ r.metaRegion, reservedFrames ≤ f) ∧
    ((∃ e ∈ map, ∃ a, IsHole k e a r.metaFrames) → Disjoint r.metaRegion k.frames) ∧
    ∃ L, BuddyInv r.pmm L ∧
      freeFrames L = {f | f < maxFrames ∧ (∃ e ∈ map, e.Usable ∧ f ∈ e.wholeFrames) ∧
        reservedFrames ≤ f ∧ f ∉ k.frames ∧ f ∉ r.metaRegion} := by
  -- a start that returns an allocator went through the fit check
  have hcase := hok
  rw [buddyInitFromMap] at hcase
  cases hbase : (pmmMemSurvey k map).base with
  | none => simp [hbase] at hcase
  | some hole =>
    simp only [hbase] at hcase
    split_ifs at hcase with hceil hfit
    · nomatch hcase
    · nomatch hcase
    · obtain ⟨r', L, hok', _, hplaced, hinv, hfree⟩ :=
        buddyInitFromMap_some overlay hk hover hwrap hbase hceil (not_lt.mp hfit)
      rw [hok] at hok'
      cases Except.ok.inj hok'
      refine ⟨hplaced.subset_entry hk hwrap, hplaced.reserved_le hk hwrap, ?_, L, hinv, hfree⟩
      rintro ⟨e, he, a, hroom⟩
      exact hplaced.disjoint_kernel hk hwrap he hroom

end Start

/-! ### Three maps -/

/-- The kernel image at 8 MiB, of the size that the loader reserves. -/
def kernelAt8M : KernelImage := ⟨8 * 2 ^ 20, 32 * 2 ^ 20⟩

lemma kernelAt8M_wellFormed : kernelAt8M.WellFormed := ⟨by decide, by decide⟩

/-- 60 MiB of memory around the kernel image. -/
def smallMap : List E820Entry := [⟨4 * 2 ^ 20, 60 * 2 ^ 20, 1⟩]

/-- The first entry leaves 4 MiB on either side of the kernel image; the last frame below 1 GiB
makes the metadata larger than that. -/
def tightMap : List E820Entry := [⟨4 * 2 ^ 20, 40 * 2 ^ 20, 1⟩, ⟨2 ^ 30 - 4096, 4096, 1⟩]

/-- A frame of usable memory at 64 GiB. -/
def highMap : List E820Entry := [⟨64 * 2 ^ 20, 512 * 2 ^ 20, 1⟩, ⟨2 ^ 36, 4096, 1⟩]

lemma noWrap_of_lt (h : e.base + e.length < 2 ^ 40) : e.NoWrap :=
  ⟨by simp only [pageSize]; omega, by omega⟩

lemma nonOverlapping_pair {e e' : E820Entry} (h : e.base + e.length ≤ e'.base) :
    NonOverlapping [e, e'] := by
  refine List.pairwise_pair.mpr (disjoint_left.mpr ?_)
  rintro a ⟨_, h1⟩ ⟨h2, _⟩
  omega

/-- Memory whose first words hold no links. -/
def noLinks : ℕ → Links ℕ := fun _ => ⟨none, none⟩

/-- On the small map the metadata is placed above the kernel image and the frame behind it is
free. -/
theorem smallMap_frames : ∃ r L, buddyInitFromMap kernelAt8M noLinks smallMap = .ok (some r) ∧
      Disjoint r.metaRegion kernelAt8M.frames ∧ BuddyInv r.pmm L ∧
      r.metaStart + r.metaFrames ∈ freeFrames L := by
  have hover : NonOverlapping smallMap := List.pairwise_singleton _ _
  have hwrap : ∀ e ∈ smallMap, e.Usable → e.NoWrap := by
    intro e he _
    exact noWrap_of_lt (by rw [List.mem_singleton.mp he]; norm_num)
  have hbase : (pmmMemSurvey kernelAt8M smallMap).base = some 10240 := by decide +kernel
  obtain ⟨r, _, hok, hstart, hplaced, _⟩ := buddyInitFromMap_some noLinks kernelAt8M_wellFormed
    hover hwrap hbase
  have hframes : r.metaFrames = 89 := hplaced.size.trans (by decide +kernel)
  obtain ⟨_, _, hkern, L, hinv, hfree⟩ :=
    buddyInitFromMap_frames kernelAt8M_wellFormed hover hwrap hok
  refine ⟨r, L, hok, hkern ⟨_, List.mem_singleton_self _, 10240, ?_⟩, hinv, ?_⟩
  · rw [hframes]
    exact .of_idx (hwrap _ (List.mem_singleton_self _) rfl) kernelAt8M_wellFormed rfl
      (by decide +kernel) (by decide +kernel) (by decide +kernel) (by decide +kernel)
      (by decide +kernel)
  · rw [hfree, hframes, hstart]
    refine ⟨by decide +kernel, ⟨_, List.mem_singleton_self _, rfl, ?_⟩, by decide +kernel, ?_, ?_⟩
    · exact ⟨by decide, by decide⟩
    · rintro ⟨_, h⟩
      exact absurd h (by decide)
    · rintro ⟨_, h⟩
      rw [hframes, hstart] at h
      exact absurd h (by decide)

/-- Two successful starts: on the tight map the metadata overlaps the kernel image, since the fit
check measures the hole up to the end of its entry; on the high map the frame at 64 GiB, a whole
frame of a usable entry far from the kernel image and the metadata, is not free. -/
theorem metadata_over_kernel_and_high_frame_lost :
    (∃ r, buddyInitFromMap kernelAt8M noLinks tightMap = .ok (some r) ∧
      ¬ Disjoint r.metaRegion kernelAt8M.frames) ∧
    (∃ r L, buddyInitFromMap kernelAt8M noLinks highMap = .ok (some r) ∧ BuddyInv r.pmm L ∧
      maxFrames ∉ freeFrames L ∧ (∃ e ∈ highMap, e.Usable ∧ maxFrames ∈ e.wholeFrames) ∧
      reservedFrames ≤ maxFrames ∧ maxFrames ∉ kernelAt8M.frames ∧ maxFrames ∉ r.metaRegion) := by
  constructor
  · have hover : NonOverlapping tightMap := nonOverlapping_pair (by norm_num)
    have hwrap : ∀ e ∈ tightMap, e.Usable → e.NoWrap := by
      simp only [tightMap, List.mem_cons, List.not_mem_nil, or_false]
      rintro e (rfl | rfl) _ <;> exact noWrap_of_lt (by norm_num)
    have hbase : (pmmMemSurvey kernelAt8M tightMap).base = some 1024 := by decide +kernel
    obtain ⟨r, _, hok, hstart, hplaced, _⟩ := buddyInitFromMap_some noLinks kernelAt8M_wellFormed
      hover hwrap hbase
    have hsize : 1025 ≤ r.metaFrames := hplaced.size ▸ (by decide +kernel)
    refine ⟨r, hok, fun hdisj => ?_⟩
    have hmeta : 2048 ∈ r.metaRegion := ⟨by omega, by omega⟩
    exact disjoint_left.mp hdisj hmeta ⟨by decide, by decide⟩
  · have hover : NonOverlapping highMap := nonOverlapping_pair (by norm_num)
    have hwrap : ∀ e ∈ highMap, e.Usable → e.NoWrap := by
      simp only [highMap, List.mem_cons, List.not_mem_nil, or_false]
      rintro e (rfl | rfl) _ <;> exact noWrap_of_lt (by norm_num)
    have hbase : (pmmMemSurvey kernelAt8M highMap).base = some 16384 := by decide +kernel
    obtain ⟨r, L, hok, hstart, hplaced, hinv, hfree⟩ := buddyInitFromMap_some noLinks
      kernelAt8M_wellFormed hover hwrap hbase
    have hsize : r.metaFrames ≤ 2 ^ 20 := hplaced.size ▸ (by decide +kernel)
    refine ⟨r, L, hok, hinv, ?_, ⟨_, List.mem_cons_of_mem _ (List.mem_singleton_self _), rfl, ?_⟩,
      by decide, ?_, ?_⟩
    · rw [hfree]
      exact fun h => absurd h.1 (lt_irrefl _)
    · exact ⟨by decide, by decide⟩
    · rintro ⟨_, h⟩
      exact absurd h (by decide)
    · rintro ⟨_, h⟩
      have hmax : maxFrames = 16777216 := rfl
      omega

end Makaos
