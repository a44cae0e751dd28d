import Makaos.Mm.KheapFrames

/-!
What `kmalloc` hands out and what `kfree` takes back, over every run.

* `Alloc`: a live allocation, with the slot or the block that was obtained for it.
* `FitsBlock`: the sizes for which the block that `kmalloc` asks for holds what it promises.
* `KheapSys`, `KheapStep`: the heap, its live allocations and the rest of the kernel, which takes
  and returns blocks of its own; holders store into what they hold.
* `kmalloc_run`: the specification over every run whose requests fit.
-/

namespace Makaos

open Function Kheap List Option Nat Prod Except
open IntrusiveList (Links)
open FramesInv (PageStep PageAlloc PageFree)
variable {mem : ℕ → ℕ} {loc loc' : ℕ → SlotLoc} {own : ℕ → FrameOwner} {size cls x : ℕ}
  {b : DyadicBlock} {m : PageMap} {s' : Slab} {L' L : ℕ → List ℕ}

/-! ### Allocations -/

/-- What was obtained for an allocation: a slot of a class, or a block of an order. -/
inductive Origin where
  | slot (cls : ℕ)
  | block (order : ℕ)
  deriving DecidableEq, Repr

/-- A live allocation. -/
structure Alloc where
  ptr : ℕ
  size : ℕ
  origin : Origin
  deriving DecidableEq, Repr

/-- What `kmalloc` obtains for a size. -/
def originOf (size : ℕ) : Origin :=
  match Kheap.pickCacheIdx size with
  | some cls => .slot cls
  | none => .block (Kheap.sizeToOrder (wrap (size + 8)))

namespace Alloc

/-- The bytes the caller asked for. -/
def bytes (a : Alloc) : Set ℕ := Set.Ico a.ptr (a.ptr + a.size)

/-- The first byte of the slot or block. -/
def base (a : Alloc) : ℕ :=
  match a.origin with
  | .slot _ => a.ptr
  | .block _ => a.ptr - 16

/-- The number of bytes of the slot or block. -/
def roomSize (a : Alloc) : ℕ :=
  match a.origin with
  | .slot cls => (geomOf cls).slotSize
  | .block order => pageSize <<< order

/-- The bytes of the slot or block. -/
def room (a : Alloc) : Set ℕ := Set.Ico a.base (a.base + a.roomSize)

/-- The bytes of the allocator's own header: the slab header of the page of a slot, the sixteen
bytes in front of what is handed out of a block. -/
def header (a : Alloc) (s : Slab) : Set ℕ :=
  match a.origin with
  | .slot _ =>
    Set.Ico (s.heads (a.ptr / pageSize) * pageSize)
      (s.heads (a.ptr / pageSize) * pageSize + slabHeaderSize)
  | .block _ => Set.Ico (a.ptr - 16) a.ptr

end Alloc

/-! ### Sizes -/

/-- The request fits into what `kmalloc` obtains: it goes to a slab, or the sum `size + 8` does
not wrap and `size + 16` stays under the power of two that `size + 8` is rounded up to. -/
def FitsBlock (size : ℕ) : Prop :=
  size ≤ pageSize ∨ (size + 8 < 2 ^ 64 ∧ ∀ k, ¬ (2 ^ k < size + 16 ∧ size + 8 ≤ 2 ^ k))

lemma pickCacheIdx_some (h : pickCacheIdx size = some cls) :
    cls < kmallocCacheCount ∧ size ≤ (geomOf cls).slotSize := by
  obtain ⟨hlt, hp, _⟩ := findIdx?_eq_some_iff_getElem.mp h
  refine ⟨hlt, ?_⟩
  have hslot : (geomOf cls).slotSize = kmallocSizes[cls] := by
    show kmallocSizes.getD cls 0 = _
    rw [getD_eq_getElem?_getD, getElem?_eq_getElem hlt, getD_some]
  rw [hslot]
  exact of_decide_eq_true hp

lemma pickCacheIdx_none (h : pickCacheIdx size = none) : pageSize < size := by
  have hall := findIdx?_eq_none_iff.mp h 4096 (by decide)
  simpa [pageSize] using hall

/-- The block of a large size that does not wrap: the least power of two from `size + 8` on. -/
lemma sizeToOrder_bytes {n : ℕ} (h : pageSize < n) :
    pageSize <<< sizeToOrder n = 2 ^ ((n - 1).log2 + 1) := by
  have hpos := pageSize_pos
  have hlog : pageShift ≤ (n - 1).log2 := by
    rw [le_log2 (by omega), two_pow_pageShift]
    omega
  rw [sizeToOrder, if_neg (by omega), shiftLeft_eq, ← two_pow_pageShift, ← pow_add]
  congr 1
  omega

lemma fits_iff_large (hlarge : pageSize < size) :
    16 + size ≤ pageSize <<< sizeToOrder (wrap (size + 8)) ∧ size + 8 < 2 ^ 64 ↔
      FitsBlock size := by
  have hps : pageSize = 4096 := rfl
  constructor
  · rintro ⟨hroom, hwrap⟩
    refine .inr ⟨hwrap, fun k hk => ?_⟩
    rw [wrap_eq_of_lt hwrap, sizeToOrder_bytes (by omega)] at hroom
    -- the power of two lies strictly between the two neighbours of `size + 8`
    have hlow : 2 ^ (size + 8 - 1).log2 ≤ size + 8 - 1 := log2_self_le (by omega)
    have h1 : k < (size + 8 - 1).log2 + 1 :=
      (Nat.pow_lt_pow_iff_right (by norm_num : 1 < 2)).mp (by omega)
    have h2 : (size + 8 - 1).log2 < k :=
      (Nat.pow_lt_pow_iff_right (by norm_num : 1 < 2)).mp (by omega)
    omega
  · rintro (hsmall | ⟨hwrap, hk⟩)
    · omega
    · refine ⟨?_, hwrap⟩
      rw [wrap_eq_of_lt hwrap, sizeToOrder_bytes (by omega)]
      have hup : size + 8 - 1 < 2 ^ ((size + 8 - 1).log2 + 1) := lt_log2_self
      have := hk ((size + 8 - 1).log2 + 1)
      omega

/-- A large request whose size wraps asks for a single page. -/
lemma sizeToOrder_wrapped (hlt : size < 2 ^ 64) (hwrap : ¬ size + 8 < 2 ^ 64) :
    sizeToOrder (wrap (size + 8)) = 0 := by
  have : wrap (size + 8) ≤ pageSize := by
    simp only [wrap, pageSize]
    omega
  rw [sizeToOrder, if_pos this]

lemma sizeToOrder_lt {n : ℕ} (h : n < 2 ^ 64) : sizeToOrder n < 2 ^ 8 := by
  rw [sizeToOrder]
  split_ifs with hn
  · norm_num
  · have : (n - 1).log2 < 64 := by
      rw [log2_lt (by simp only [pageSize] at hn; omega)]
      omega
    omega

/-- **The bytes lie in the slot or block iff the size fits.** -/
lemma bytes_subset_room_iff {p : ℕ} (hlt : size < 2 ^ 64) (hp : 16 ≤ p) :
    (Alloc.mk p size (originOf size)).bytes ⊆ (Alloc.mk p size (originOf size)).room
      ↔ FitsBlock size := by
  rw [originOf]
  cases hidx : pickCacheIdx size with
  | some cls =>
    obtain ⟨_, hle⟩ := pickCacheIdx_some hidx
    refine iff_of_true ?_ (.inl ?_)
    · exact Set.Ico_subset_Ico_right (Nat.add_le_add_left hle p)
    · by_contra hbig
      have hnone : pickCacheIdx size = none := by
        refine findIdx?_eq_none_iff.mpr fun x hx => ?_
        have : x ≤ pageSize := by
          simp only [kmallocSizes, mem_cons, not_mem_nil, or_false] at hx
          simp only [pageSize]
          omega
        exact decide_eq_false (by omega)
      rw [hnone] at hidx
      cases hidx
  | none =>
    have hlarge := pickCacheIdx_none hidx
    rw [← fits_iff_large hlarge]
    have hps : pageSize = 4096 := rfl
    simp only [Alloc.bytes, Alloc.room, Alloc.base, Alloc.roomSize]
    rw [Set.Ico_subset_Ico_iff (by omega)]
    constructor
    · rintro ⟨_, hend⟩
      refine ⟨by omega, ?_⟩
      by_contra hwrap
      rw [sizeToOrder_wrapped hlt hwrap] at hend
      simp only [shiftLeft_zero] at hend
      omega
    · rintro ⟨hroom, _⟩
      omega

/-! ### The system -/

/-- A store of one byte; the links the buddy allocator would read in that frame may change with
it. -/
def Kheap.write (k : Kheap) (addr v : ℕ) (l : Links ℕ) : Kheap :=
  { k.setPmm { k.slab.pmm with
      overlay := update k.slab.pmm.overlay (addr / pageSize * pageSize) l } with
    mem := update k.mem addr v }

/-- The heap, the live allocations, and the frames the rest of the kernel holds. -/
structure KheapSys where
  heap : Kheap
  live : List Alloc
  other : Set ℕ

/-- The allocation that a call of `kmalloc` makes. -/
def granted (size : ℕ) : Option ℕ → List Alloc
  | none => []
  | some p => [⟨p, size, originOf size⟩]

/-- One step of the system, where the sizes that are asked for satisfy `P`. -/
inductive KheapStep (P : ℕ → Prop) : KheapSys → KheapSys → Prop
  | kmalloc {t : KheapSys} {c size : ℕ} {r : Option ℕ} {k : Kheap} :
      size < 2 ^ 64 → P size → t.heap.kmalloc c size = .ok (r, k) →
      KheapStep P t ⟨k, granted size r ++ t.live, t.other⟩
  | kfree {t : KheapSys} {c : ℕ} {a : Alloc} {k : Kheap} :
      a ∈ t.live → t.heap.kfree c a.ptr = .ok k → KheapStep P t ⟨k, t.live.erase a, t.other⟩
  /-- the holder of an allocation stores to one of its bytes -/
  | store {t : KheapSys} {a : Alloc} {x : ℕ} (v : ℕ) (l : Links ℕ) :
      a ∈ t.live → x ∈ a.bytes → KheapStep P t ⟨t.heap.write x v l, t.live, t.other⟩
  /-- the rest of the kernel takes a block, -/
  | pageAlloc {t : KheapSys} {c order : ℕ} {r : Option ℕ} {k : Kheap} :
      t.heap.pmmBuddyAlloc c order = .ok (r, k) →
      KheapStep P t ⟨k, t.live, t.other ∪ grantedFrames order r⟩
  /-- returns an aligned piece of what it holds, -/
  | pageFree {t : KheapSys} {c : ℕ} {b : DyadicBlock} {k : Kheap} :
      b.frames ⊆ t.other → t.heap.pmmBuddyFree c (blockAddr b) b.order = .ok k →
      KheapStep P t ⟨k, t.live, t.other \ b.frames⟩
  /-- or stores to it -/
  | pageStore {t : KheapSys} {x : ℕ} (v : ℕ) (l : Links ℕ) :
      x / pageSize ∈ t.other → KheapStep P t ⟨t.heap.write x v l, t.live, t.other⟩

/-! ### The invariant -/

/-- The allocation is a handed-out slot of its class, or a live block of its order whose first
byte still holds the order. -/
inductive Held (m : PageMap) (mem : ℕ → ℕ) (loc : ℕ → SlotLoc) (own : ℕ → FrameOwner)
    (a : Alloc) : Prop
  | slot {cls : ℕ} {b : DyadicBlock} (origin : a.origin = .slot cls) (page : m.IsPage cls b)
      (mem_slots : a.ptr ∈ pageSlots cls b) (live : loc a.ptr = .live)
  | block {b : DyadicBlock} (origin : a.origin = .block b.order) (ptr : a.ptr = blockAddr b + 16)
      (inRange : b.last ≤ m.totalFrames) (owned : ∀ f ∈ b.frames, own f = .block (blockAddr b))
      (order : mem (blockAddr b) = b.order)

/-- The state of the system. -/
structure KheapInv (t : KheapSys) (L : ℕ → List ℕ) (loc : ℕ → SlotLoc) (own : ℕ → FrameOwner) :
    Prop where
  frames : FramesInv t.heap L loc own
  other : ∀ f ∈ t.other, own f = .other ∧ f < t.heap.slab.pmm.totalFrames
  held : ∀ a ∈ t.live, Held t.heap.slab.pageMap t.heap.mem loc own a
  distinct : (t.live.map Alloc.ptr).Nodup

variable {a : Alloc} {own' : ℕ → FrameOwner} {r : Option ℕ} {L : ℕ → List ℕ} {loc : ℕ → SlotLoc}
  {t : KheapSys}

/-- What an allocation rests on is kept when its page, its slot, its frames and its first byte
are. -/
lemma Held.mono {m' : PageMap} {mem' : ℕ → ℕ}
    (h : Held m mem loc own a)
    (hown : ∀ f, own f = .block (a.ptr - 16) → own' f = .block (a.ptr - 16))
    (hmem : own ((a.ptr - 16) / pageSize) = .block (a.ptr - 16) →
      mem' (a.ptr - 16) = mem (a.ptr - 16) := by exact fun _ => rfl)
    (hpages : ∀ cls b, m.IsPage cls b → m'.IsPage cls b := by exact fun _ _ => id)
    (htotal : m'.totalFrames = m.totalFrames := by rfl)
    (hloc : loc a.ptr = .live → loc' a.ptr = .live := by exact id) : Held m' mem' loc' own' a := by
  cases h with
  | slot origin page mem_slots live => exact .slot origin (hpages _ _ page) mem_slots (hloc live)
  | @block b origin ptr inRange owned order =>
    have hbase : a.ptr - 16 = blockAddr b := by omega
    rw [hbase] at hown hmem
    have hfirst : own (blockAddr b / pageSize) = .block (blockAddr b) := by
      rw [blockAddr_div]
      exact owned _ b.first_mem_frames
    exact .block origin ptr (inRange.trans_eq htotal.symm) (fun f hf => hown f (owned f hf))
      ((hmem hfirst).trans order)

lemma Held.le_ptr (h : Held m mem loc own a) : 16 ≤ a.ptr := by
  cases h with
  | slot origin page mem_slots live =>
    obtain ⟨h1, _⟩ := page.slot_bounds mem_slots
    simp only [slabHeaderSize] at h1
    omega
  | block origin ptr => omega

lemma pageSize_le_shiftLeft (o : ℕ) : pageSize ≤ pageSize <<< o := by
  rw [Nat.shiftLeft_eq]
  exact Nat.le_mul_of_pos_right _ (Nat.two_pow_pos _)

lemma Held.ptr_mem_room (h : Held m mem loc own a) : a.ptr ∈ a.room := by
  simp only [Alloc.room, Alloc.base, Alloc.roomSize, Set.mem_Ico]
  cases h with
  | slot origin page mem_slots live =>
    have := (geomOk_of_lt _ page.cls_lt).slot_pos
    simp only [origin]
    omega
  | @block b origin ptr inRange owned order =>
    have := pageSize_le_shiftLeft b.order
    simp only [origin]
    simp only [pageSize] at this ⊢
    omega

lemma div_mem_frames (h1 : blockAddr b ≤ x) (h2 : x < blockAddr b + pageSize <<< b.order) :
    x / pageSize ∈ b.frames := by
  have hps := pageSize_pos
  rw [shiftLeft_eq, blockAddr, mul_comm pageSize, ← add_mul, ← DyadicBlock.last_eq] at h2
  exact ⟨(le_div_iff_mul_le hps).mpr h1, (div_lt_iff_lt_mul hps).mpr h2⟩

namespace FramesInv

variable {k : Kheap}

section

variable (h : FramesInv k L loc own)
include h

lemma own_of_page {f : ℕ} (hp : k.slab.pageMap.IsPage cls b)
    (hf : f ∈ b.frames) : own f = .slab := by
  refine (h.slabs f).mp fun hnone => ?_
  have ht : k.slab.trackers f = some cls := (hp.tracked f hf).1
  rw [hnone] at ht
  nomatch ht

lemma own_of_room (ha : Held k.slab.pageMap mem loc own a) (hx : x ∈ a.room) :
    (∃ cls b, a.origin = .slot cls ∧ k.slab.pageMap.IsPage cls b ∧ a.ptr ∈ pageSlots cls b ∧
      x / pageSize ∈ b.frames ∧ own (x / pageSize) = .slab) ∨
    own (x / pageSize) = .block (a.ptr - 16) := by
  simp only [Alloc.room, Alloc.base, Alloc.roomSize, Set.mem_Ico] at hx
  cases ha with
  | @slot cls b origin page mem_slots live =>
    obtain ⟨h1, h2⟩ := page.slot_bounds mem_slots
    simp only [origin] at hx
    have hf : x / pageSize ∈ b.frames := by
      refine ⟨(le_div_iff_mul_le pageSize_pos).mpr ?_,
        (div_lt_iff_lt_mul pageSize_pos).mpr (by omega)⟩
      rw [blockAddr] at h1
      omega
    exact .inl ⟨cls, b, origin, page, mem_slots, hf, h.own_of_page page hf⟩
  | @block b origin ptr inRange owned order =>
    have hbase : a.ptr - 16 = blockAddr b := by omega
    simp only [origin, hbase] at hx
    rw [hbase]
    exact .inr (owned _ (div_mem_frames hx.1 hx.2))

/-- **The slots and blocks of two live allocations do not overlap.** -/
lemma rooms_disjoint {a a' : Alloc}
    (ha : Held k.slab.pageMap mem loc own a) (ha' : Held k.slab.pageMap mem loc own a')
    (hne : a.ptr ≠ a'.ptr) : Disjoint a.room a'.room := by
  refine Set.disjoint_left.mpr fun x hx hx' => ?_
  rcases h.own_of_room ha hx with ⟨cls, b, ho, hp, hs, hf, hown⟩ | hown <;>
    rcases h.own_of_room ha' hx' with ⟨cls', b', ho', hp', hs', hf', hown'⟩ | hown'
  · obtain ⟨rfl, rfl⟩ := hp.unique hp' hf hf'
    simp only [Alloc.room, Alloc.base, Alloc.roomSize, ho, ho', Set.mem_Ico] at hx hx'
    have := GeomOk.slots_apart hs hs' hne
    omega
  · rw [hown] at hown'
    nomatch hown'
  · rw [hown] at hown'
    nomatch hown'
  · rw [hown, FrameOwner.block.injEq] at hown'
    have h1 := ha.le_ptr
    have h2 := ha'.le_ptr
    omega

/-- A store to a frame that is not free and not in a stash. -/
lemma write (hx : own (x / pageSize) ≠ .free) (v : ℕ) (l : Links ℕ) :
    FramesInv (k.write x v l) L loc own := by
  have hdiv : x / pageSize * pageSize / pageSize = x / pageSize := Nat.mul_div_cancel _ pageSize_pos
  have hnot : x / pageSize * pageSize / pageSize ∉ freeFrames L := by
    rwa [hdiv, h.free]
  exact { h with
    slab := h.slab.setPmm (h.slab.buddy.update_overlay hnot l) rfl h.slab.pages.apart }

end

open Classical in
/-- The slab allocator takes the frames of a fresh page from the free lists. -/
lemma slabAlloc (h : FramesInv k L loc own) {c : ℕ}
    (heff : SlabInv.AllocEffect k.slab s' L L' loc loc' c cls r) :
    ∃ own', FramesInv { k with slab := s' } L' loc' own' ∧
      ∀ f, own' f = own f ∨ (own f = .free ∧ own' f = .slab) := by
  let fresh : ℕ → Prop := fun f => f ∈ freeFrames L ∧ f ∉ freeFrames L'
  refine ⟨fun f => if fresh f then .slab else own f, ⟨heff.inv, fun f => ?_, fun f => ?_,
    fun c p => ?_, h.stash_nodup, fun f c hf => ?_⟩, fun f => ?_⟩
  · by_cases hf : fresh f
    · simp [hf, hf.2]
    · rw [if_neg hf, ← h.free]
      exact ⟨fun hm => heff.free_sub hm, fun hm => by_contra fun hn => hf ⟨hm, hn⟩⟩
  · show f ∈ s'.frames ↔ _
    rw [heff.frames]
    by_cases hf : fresh f
    · simp [hf, show f ∈ freeFrames L \ freeFrames L' from hf]
    · rw [if_neg hf, ← h.slabs]
      exact ⟨fun hm => hm.resolve_right hf, .inl⟩
  · have hsame : ∀ f, (if fresh f then FrameOwner.slab else own f) = .stash c ↔
        own f = .stash c := by
      intro f
      by_cases hf : fresh f
      · simp [hf, (h.free f).mp hf.1]
      · rw [if_neg hf]
    rw [show ({ k with slab := s' } : Kheap).stash c = k.stash c from rfl, h.stash c p]
    simp only [hsame]
  · by_cases hfr : fresh f
    · rw [if_pos hfr] at hf
      nomatch hf
    · rw [if_neg hfr] at hf
      exact (h.stash_lt f c hf).trans_eq heff.keeps.total.symm
  · by_cases hf : fresh f
    · exact .inr ⟨(h.free f).mp hf.1, if_pos hf⟩
    · exact .inl (if_neg hf)

lemma slabFree (h : FramesInv k L loc own) (heff : SlabInv.FreeEffect k.slab s' L loc loc' x) :
    FramesInv { k with slab := s' } L loc' own := by
  have htrack : s'.trackers = k.slab.trackers := congrArg PageMap.trackers heff.map
  refine ⟨heff.inv, h.free, fun f => ?_, h.stash, h.stash_nodup, fun f c hf => ?_⟩
  · rw [← h.slabs]
    simp only [Slab.frames, htrack]
  · show f < s'.pmm.totalFrames
    rw [heff.pmm]
    exact h.stash_lt f c hf

end FramesInv

/-! ### `kmalloc` -/

namespace KheapInv

section

variable (h : KheapInv t L loc own)
include h

lemma cons (ha : Held t.heap.slab.pageMap t.heap.mem loc own a)
    (hnew : ∀ a' ∈ t.live, a'.ptr ≠ a.ptr) : KheapInv { t with live := a :: t.live } L loc own := by
  refine ⟨h.frames, h.other, forall_mem_cons.mpr ⟨ha, h.held⟩, ?_⟩
  rw [map_cons, nodup_cons]
  refine ⟨fun hmem => ?_, h.distinct⟩
  obtain ⟨a', ha', heq⟩ := mem_map.mp hmem
  exact hnew a' ha' heq

/-- A call of `slab_pcpu_alloc` keeps what the live allocations rest on. -/
lemma slabAlloc {c : ℕ} (heff : SlabInv.AllocEffect t.heap.slab s' L L' loc loc' c cls r) :
    ∃ own', KheapInv { t with heap := { t.heap with slab := s' } } L' loc' own' := by
  obtain ⟨own', hframes, hown⟩ := h.frames.slabAlloc heff
  have hkeep : ∀ f w, own f = w → w ≠ .free → own' f = w := by
    rintro f w rfl hw
    exact (hown f).resolve_right fun hf => hw hf.1
  refine ⟨own', hframes, fun f hf => ?_, fun a ha => ?_, h.distinct⟩
  · obtain ⟨ho, hlt⟩ := h.other f hf
    exact ⟨hkeep f _ ho (by simp), hlt.trans_eq heff.keeps.total.symm⟩
  · exact (h.held a ha).mono (fun f hf => hkeep f _ hf (by simp)) (fun _ => rfl) heff.pages
      heff.keeps.total fun hlive => (heff.live _).mpr (.inl hlive)

/-- A call of the public page allocator keeps what the live allocations rest on, if it changes no
frame in use but those of `S`. -/
lemma pageStep {k : Kheap} {S : Set ℕ} (hframes : FramesInv k L' loc own')
    (hstep : PageStep t.heap k)
    (hout : ∀ f ∈ S, own f = .other ∧ f ∉ t.other)
    (hown : ∀ f, f ∉ S → ¬ (own f).Pooled → own' f = own f) :
    KheapInv { t with heap := k } L' loc own' := by
  refine ⟨hframes, fun f hf => ?_, fun a ha => ?_, h.distinct⟩
  · obtain ⟨ho, hlt⟩ := h.other f hf
    refine ⟨?_, hlt.trans_eq hstep.total.symm⟩
    rw [hown f (fun hmem => (hout f hmem).2 hf) (by rw [ho]; exact id), ho]
  · refine (h.held a ha).mono (fun f hf => ?_) (fun _ => congrFun hstep.mem _) ?_ ?_
    · refine (hown f (fun hmem => ?_) (by rw [hf]; exact id)).trans hf
      rw [(hout f hmem).1] at hf
      nomatch hf
    · rw [hstep.pageMap]
      exact fun _ _ hp => hp
    · rw [hstep.pageMap]

/-- A block that was just obtained becomes a live allocation when its order is written. -/
lemma newBlock (hheld : ∀ f ∈ b.frames, own f = .other)
    (hout : ∀ f ∈ b.frames, f ∉ t.other) (hlast : b.last ≤ t.heap.slab.pmm.totalFrames) (size : ℕ) :
    KheapInv ⟨{ t.heap with mem := update t.heap.mem (blockAddr b) b.order },
        ⟨blockAddr b + 16, size, .block b.order⟩ :: t.live, t.other⟩ L loc
      (reown own b (.block (blockAddr b))) := by
  have hframes : FramesInv t.heap L loc (reown own b (.block (blockAddr b))) := by
    refine h.frames.rename fun f => ?_
    by_cases hf : f ∈ b.frames
    · exact .inr ⟨.inl (hheld f hf), .inr ⟨_, reown_of_mem hf⟩⟩
    · exact .inl (reown_of_notMem hf)
  have hkeep : ∀ f a, own f = .block a → f ∉ b.frames := by
    intro f a hf hmem
    rw [hheld f hmem] at hf
    nomatch hf
  have hlive : KheapInv { t with heap :=
      { t.heap with mem := update t.heap.mem (blockAddr b) b.order } } L loc
      (reown own b (.block (blockAddr b))) := by
    refine ⟨{ hframes with }, fun f hf => ?_, fun a ha => ?_, h.distinct⟩
    · obtain ⟨ho, hlt⟩ := h.other f hf
      exact ⟨(reown_of_notMem fun hmem => hout f hmem hf).trans ho, hlt⟩
    · refine (h.held a ha).mono (fun f hf => ?_) fun hf => ?_
      · exact (reown_of_notMem (hkeep f _ hf)).trans hf
      · refine update_of_ne (fun heq => ?_) _ _
        refine hkeep _ _ hf ?_
        rw [heq, blockAddr_div]
        exact b.first_mem_frames
  refine hlive.cons (.block rfl rfl hlast (fun f hf => reown_of_mem hf)
    (update_self _ _ _)) fun a ha heq => ?_
  -- the frame of an allocation at that address would be in use already
  have hroom := h.frames.own_of_room (h.held a ha) (h.held a ha).ptr_mem_room
  have hdiv : a.ptr / pageSize ∈ b.frames := by
    have := pageSize_le_shiftLeft b.order
    simp only [pageSize] at this
    simp only at heq
    exact div_mem_frames (by omega) (by simp only [pageSize]; omega)
  rw [hheld _ hdiv] at hroom
  simp at hroom

end

end KheapInv

/-- The slot or block of the allocation is what a call on the CPU obtains. -/
inductive Obtained (k : Kheap) (c : ℕ) (a : Alloc) : Prop
  | slot {cls : ℕ} {s : Slab} (origin : a.origin = .slot cls)
      (call : k.slab.pcpuAlloc c cls = .ok (some a.base, s))
  | block {order : ℕ} {k' : Kheap} (origin : a.origin = .block order)
      (call : k.pmmBuddyAlloc c order = .ok (some a.base, k'))

/-- **`kmalloc`** of any 64-bit size: it does not panic, and what it returns is a live allocation
of its own. -/
lemma KheapInv.kmalloc_spec (h : KheapInv t L loc own) (c size : ℕ) :
    ∃ r k L' loc' own', t.heap.kmalloc c size = .ok (r, k) ∧
      KheapInv ⟨k, granted size r ++ t.live, t.other⟩ L' loc' own' ∧
      ∀ a ∈ granted size r, Obtained t.heap c a := by
  rw [kmalloc]
  cases hidx : pickCacheIdx size with
  | some cls =>
    obtain ⟨hcls, _⟩ := pickCacheIdx_some hidx
    have horigin : originOf size = .slot cls := by rw [originOf, hidx]
    obtain ⟨r, s', L', loc', hok, heff⟩ := h.frames.slab.pcpuAlloc_spec hcls c
    obtain ⟨own', h'⟩ := h.slabAlloc heff
    dsimp only
    rw [hok]
    cases r with
    | none => exact ⟨none, _, L', loc', own', rfl, h', by simp [granted]⟩
    | some x =>
      obtain ⟨hnot, b, hp, hx⟩ := heff.result x rfl
      refine ⟨some x, _, L', loc', own', rfl, h'.cons (.slot horigin hp hx
        ((heff.live x).mpr (.inr rfl))) fun a ha heq => ?_, ?_⟩
      · cases h.held a ha with
        | slot origin page mem_slots live =>
          have hptr : a.ptr = x := heq
          exact hnot (by rw [← hptr]; exact live)
        | @block b' origin ptr inRange owned order =>
          -- the frame cannot be part of a block and of a page
          have hroom := h'.frames.own_of_room (h'.held a ha) (h'.held a ha).ptr_mem_room
          rw [heq, h'.frames.own_of_page hp (hp.slot_frame hx)] at hroom
          simp [origin] at hroom
      · simp only [granted, mem_singleton, forall_eq]
        have hbase : (Alloc.mk x size (originOf size)).base = x := by rw [Alloc.base, horigin]
        exact .slot horigin (hbase.symm ▸ hok)
  | none =>
    have horigin : originOf size = .block (sizeToOrder (wrap (size + 8))) := by
      rw [originOf, hidx]
    have hbyte : sizeToOrder (wrap (size + 8)) % 2 ^ 8 =
        sizeToOrder (wrap (size + 8)) :=
      mod_eq_of_lt (sizeToOrder_lt (wrap_lt _))
    obtain ⟨r, k, L', own', hok, hframes, hal⟩ :=
      h.frames.pmmBuddyAlloc_spec c (sizeToOrder (wrap (size + 8)))
    dsimp only
    rw [hok, hbyte]
    cases r with
    | none =>
      exact ⟨none, k, L', loc, own', rfl, h.pageStep hframes hal.step
        (S := ∅) nofun fun f _ hf => (hal.failed rfl f).eq hf, by simp [granted]⟩
    | some raw =>
      obtain ⟨b, rfl, ho, hlast, hblock, hothers⟩ := hal.block raw rfl
      rw [← ho]
      have h' := h.pageStep hframes hal.step (S := ∅) nofun fun f _ hf =>
        (hothers f fun hmem => hf (hblock f hmem).1).eq hf
      have hnew := h'.newBlock (fun f hf => (hblock f hf).2) (fun f hf hmem => by
        have := (hblock f hf).1
        rw [(h.other f hmem).1] at this
        exact this) (hlast.trans_eq hal.step.total.symm) size
      refine ⟨some (blockAddr b + 16), _, L', loc, reown own' b (.block (blockAddr b)), rfl, ?_, ?_⟩
      · rwa [granted, horigin, ← ho]
      · simp only [granted, mem_singleton, forall_eq]
        have hbase : (Alloc.mk (blockAddr b + 16) size (originOf size)).base = blockAddr b := by
          simp only [Alloc.base, horigin, Nat.add_sub_cancel]
        exact .block horigin (hbase.symm ▸ hok)

/-! ### `kfree` -/

/-- The heap after the slot or block of an allocation, and nothing else, was given back on a
CPU. -/
inductive Returned (k : Kheap) (c : ℕ) (a : Alloc) : Kheap → Prop
  | chain {cls : ℕ} (origin : a.origin = .slot cls) :
      Returned k c a { k with slab := (k.slab.setCpu c cls { k.slab.cpus c cls with
        freelist := a.base :: (k.slab.cpus c cls).freelist }) }
  | remote {cls : ℕ} {b : DyadicBlock} (origin : a.origin = .slot cls)
      (page : k.slab.pageMap.IsPage cls b) (mem_slots : a.base ∈ pageSlots cls b) :
      Returned k c a { k with slab := (k.slab.setHeader (blockAddr b) {
        k.slab.headers (blockAddr b) with
          remoteFree := a.base :: (k.slab.headers (blockAddr b)).remoteFree }) }
  | block {order : ℕ} {k' : Kheap} (origin : a.origin = .block order)
      (call : k.pmmBuddyFree c a.base order = .ok k') : Returned k c a k'

namespace KheapInv

section

variable (h : KheapInv t L loc own)
include h

lemma ptr_ne_of_mem_erase {a a' : Alloc} (ha : a ∈ t.live)
    (ha' : a' ∈ t.live.erase a) : a' ∈ t.live ∧ a'.ptr ≠ a.ptr := by
  obtain ⟨hne, hmem⟩ := (Nodup.mem_erase_iff h.distinct.of_map).mp ha'
  exact ⟨hmem, fun heq => hne (inj_on_of_nodup_map h.distinct hmem ha heq)⟩

lemma erase_distinct (a : Alloc) : ((t.live.erase a).map Alloc.ptr).Nodup :=
  h.distinct.sublist (erase_sublist.map _)

/-- A block of the rest of the kernel goes back to the page allocator. -/
lemma freeBlock (hb : ∀ f ∈ b.frames, own f = .other ∧ f ∉ t.other)
    (hlast : b.last ≤ t.heap.slab.pmm.totalFrames) (c : ℕ) :
    ∃ k L' own', t.heap.pmmBuddyFree c (blockAddr b) b.order = .ok k ∧
      KheapInv { t with heap := k } L' loc own' := by
  obtain ⟨k, L', own', hok, hframes, hfree⟩ :=
    h.frames.pmmBuddyFree_spec c (fun f hf => (hb f hf).1) hlast
  exact ⟨k, L', own', hok, h.pageStep hframes hfree.step hb fun f hf => (hfree.others f hf).eq⟩

lemma kfree_slot (ha : a ∈ t.live)
    (origin : a.origin = .slot cls) (page : t.heap.slab.pageMap.IsPage cls b)
    (mem_slots : a.ptr ∈ pageSlots cls b) (live : loc a.ptr = .live) (c : ℕ) :
    ∃ k L' loc' own', t.heap.kfree c a.ptr = .ok k ∧
      KheapInv ⟨k, t.live.erase a, t.other⟩ L' loc' own' ∧ Returned t.heap c a k := by
  have hf := page.slot_frame mem_slots
  have hlt : a.ptr / pageSize < t.heap.slab.pmm.totalFrames := hf.2.trans_le page.inRange
  have hslab : t.heap.slab.isSlabPtr a.ptr = true := by
    rw [Slab.isSlabPtr, shiftRight_pageShift, if_neg (not_le.mpr hlt),
      show t.heap.slab.trackers (a.ptr / pageSize) = some cls from (page.tracked _ hf).1]
    rfl
  obtain ⟨loc', heff⟩ := h.frames.slab.pcpuFree_spec live c
  rw [kfree, if_pos hslab]
  refine ⟨_, L, loc', own, rfl, ⟨h.frames.slabFree heff, fun f hf => ?_, fun a' ha' => ?_,
    h.erase_distinct a⟩, ?_⟩
  · obtain ⟨ho, hlt⟩ := h.other f hf
    exact ⟨ho, hlt.trans_eq (by rw [heff.pmm])⟩
  · obtain ⟨hmem, hne⟩ := h.ptr_ne_of_mem_erase ha ha'
    refine (h.held a' hmem).mono (fun _ hf => hf) (fun _ => rfl) ?_ ?_ fun hlive =>
      (heff.live _).mpr ⟨hlive, hne⟩
    · show ∀ cls b, t.heap.slab.pageMap.IsPage cls b → (t.heap.slab.pcpuFree c a.ptr).pageMap.IsPage cls b
      rw [heff.map]
      exact fun _ _ hp => hp
    · exact congrArg PageMap.totalFrames heff.map
  · have hbase : a.base = a.ptr := by rw [Alloc.base, origin]
    have hown : (t.heap.slab.headers (blockAddr b)).cache = cls := page.owner
    rw [Slab.pcpuFree, SlabInv.headerOf_slot page mem_slots]
    dsimp only
    subst hown
    rw [← hbase]
    split
    · exact .chain origin
    · exact .remote origin page (by rw [hbase]; exact mem_slots)

lemma kfree_block (ha : a ∈ t.live)
    (origin : a.origin = .block b.order) (ptr : a.ptr = blockAddr b + 16)
    (inRange : b.last ≤ t.heap.slab.pmm.totalFrames)
    (owned : ∀ f ∈ b.frames, own f = .block (blockAddr b))
    (order : t.heap.mem (blockAddr b) = b.order) (c : ℕ) :
    ∃ k L' loc' own', t.heap.kfree c a.ptr = .ok k ∧
      KheapInv ⟨k, t.live.erase a, t.other⟩ L' loc' own' ∧ Returned t.heap c a k := by
  have hbase : a.ptr - 16 = blockAddr b := by omega
  have hslab : t.heap.slab.isSlabPtr a.ptr = false := by
    have hroom := h.frames.own_of_room (h.held a ha) (h.held a ha).ptr_mem_room
    have hown : own (a.ptr / pageSize) = .block (a.ptr - 16) := by
      simpa [origin] using hroom
    have hnone : t.heap.slab.trackers (a.ptr / pageSize) = none := by
      by_contra hsome
      rw [(h.frames.slabs _).mp hsome] at hown
      nomatch hown
    simp [Slab.isSlabPtr, shiftRight_pageShift, hnone]
  -- the block is handed over to the page allocator
  have hkeep : ∀ f w, own f = w → w ≠ .block (blockAddr b) → reown own b .other f = w := by
    rintro f w rfl hw
    exact reown_of_notMem fun hmem => hw (owned f hmem)
  have hgiven : KheapInv ⟨t.heap, t.live.erase a, t.other⟩ L loc (reown own b .other) := by
    refine ⟨h.frames.rename fun f => ?_, fun f hf => ?_, fun a' ha' => ?_, h.erase_distinct a⟩
    · by_cases hf : f ∈ b.frames
      · exact .inr ⟨.inr ⟨_, owned f hf⟩, .inl (reown_of_mem hf)⟩
      · exact .inl (reown_of_notMem hf)
    · obtain ⟨ho, hlt⟩ := h.other f hf
      exact ⟨hkeep f _ ho (by simp), hlt⟩
    · obtain ⟨hmem, hne⟩ := h.ptr_ne_of_mem_erase ha ha'
      have hle := (h.held a' hmem).le_ptr
      refine (h.held a' hmem).mono fun f hf => hkeep f _ hf ?_
      rw [Ne, FrameOwner.block.injEq]
      omega
  obtain ⟨k, L', own', hok, h'⟩ := hgiven.freeBlock (fun f hf => ⟨reown_of_mem hf, fun hmem => by
    have := owned f hf
    rw [(h.other f hmem).1] at this
    nomatch this⟩) inRange c
  rw [kfree, hslab]
  simp only [Bool.false_eq_true, if_false, hbase, order]
  refine ⟨k, L', loc, own', hok, h', .block origin ?_⟩
  rw [Alloc.base, origin]
  simp only [hbase]
  exact hok

/-- **`kfree`** of a live allocation: it does not panic, and gives back what was obtained. -/
lemma kfree_spec (ha : a ∈ t.live) (c : ℕ) : ∃ k L' loc' own', t.heap.kfree c a.ptr = .ok k ∧
      KheapInv ⟨k, t.live.erase a, t.other⟩ L' loc' own' ∧ Returned t.heap c a k := by
  cases h.held a ha with
  | slot origin page mem_slots live => exact h.kfree_slot ha origin page mem_slots live c
  | block origin ptr inRange owned order => exact h.kfree_block ha origin ptr inRange owned order c

/-! ### Runs -/

/-- A store outside the free frames that spares the orders in front of the live blocks. -/
lemma write (hfree : own (x / pageSize) ≠ .free) (hspare : own (x / pageSize) ≠ .block x) (v : ℕ)
    (l : Links ℕ) : KheapInv ⟨t.heap.write x v l, t.live, t.other⟩ L loc own := by
  refine ⟨h.frames.write hfree v l, h.other, fun a ha => ?_, h.distinct⟩
  refine (h.held a ha).mono (fun _ hf => hf) fun hf => ?_
  refine update_of_ne (fun heq => hspare ?_) _ _
  rwa [← heq]

/-- **One step** of a run whose requests fit. -/
lemma step {t' : KheapSys}
    (hfits : ∀ a ∈ t.live, a.bytes ⊆ a.room) (hstep : KheapStep FitsBlock t t') :
    (∃ L' loc' own', KheapInv t' L' loc' own') ∧ ∀ a ∈ t'.live, a.bytes ⊆ a.room := by
  cases hstep with
  | @kmalloc c size r k hsize hfit hcall =>
    obtain ⟨r', k', L', loc', own', hok, h', _⟩ := h.kmalloc_spec c size
    rw [hok] at hcall
    obtain ⟨rfl, rfl⟩ := mk.inj (ok.inj hcall)
    refine ⟨⟨L', loc', own', h'⟩, fun a ha => ?_⟩
    rcases mem_append.mp ha with hnew | hold
    · cases r' with
      | none => simp [granted] at hnew
      | some p =>
        obtain rfl := mem_singleton.mp hnew
        exact (bytes_subset_room_iff hsize (h'.held _ ha).le_ptr).mpr hfit
    · exact hfits a hold
  | @kfree c a k ha hcall =>
    obtain ⟨k', L', loc', own', hok, h', _⟩ := h.kfree_spec ha c
    rw [hok] at hcall
    obtain rfl := ok.inj hcall
    exact ⟨⟨L', loc', own', h'⟩, fun a' ha' => hfits a' (mem_of_mem_erase ha')⟩
  | @store a x v l ha hx =>
    have hroom := h.frames.own_of_room (h.held a ha) (hfits a ha hx)
    refine ⟨⟨L, loc, own, h.write ?_ ?_ v l⟩, hfits⟩
    · rcases hroom with ⟨_, _, _, _, _, _, hown⟩ | hown <;> simp [hown]
    · rcases hroom with ⟨_, _, _, _, _, _, hown⟩ | hown
      · simp [hown]
      · have hle := (h.held a ha).le_ptr
        have hlt := hx.1
        rw [hown, Ne, FrameOwner.block.injEq]
        omega
  | @pageAlloc c order r k hcall =>
    obtain ⟨r', k', L', own', hok, hframes, hal⟩ := h.frames.pmmBuddyAlloc_spec c order
    rw [hok] at hcall
    obtain ⟨rfl, rfl⟩ := mk.inj (ok.inj hcall)
    refine ⟨⟨L', loc, own', ?_⟩, hfits⟩
    cases r' with
    | none =>
      simp only [grantedFrames, Set.union_empty]
      exact h.pageStep hframes hal.step (S := ∅) (by simp) fun f _ hf => (hal.failed rfl f).eq hf
    | some addr =>
      obtain ⟨b, rfl, rfl, hlast, hblock, hothers⟩ := hal.block addr rfl
      have h' := h.pageStep hframes hal.step (S := ∅) (by simp) fun f _ hf =>
        (hothers f fun hmem => hf (hblock f hmem).1).eq hf
      rw [grantedFrames_blockAddr]
      refine ⟨h'.frames, ?_, h'.held, h'.distinct⟩
      rintro f (hf | hf)
      · exact h'.other f hf
      · exact ⟨(hblock f hf).2, (hf.2.trans_le hlast).trans_eq hal.step.total.symm⟩
  | @pageFree c b k hsub hcall =>
    have hlast : b.last ≤ t.heap.slab.pmm.totalFrames := by
      have hlt := b.first_lt_last
      have := (h.other (b.last - 1) (hsub ⟨by omega, by omega⟩)).2
      omega
    have hgiven : KheapInv ⟨t.heap, t.live, t.other \ b.frames⟩ L loc own :=
      ⟨h.frames, fun f hf => h.other f hf.1, h.held, h.distinct⟩
    obtain ⟨k', L', own', hok, h'⟩ :=
      hgiven.freeBlock (fun f hf => ⟨(h.other f (hsub hf)).1, fun hmem => hmem.2 hf⟩) hlast c
    rw [hok] at hcall
    obtain rfl := ok.inj hcall
    exact ⟨⟨L', loc, own', h'⟩, hfits⟩
  | @pageStore x v l hx =>
    have ho := (h.other _ hx).1
    exact ⟨⟨L, loc, own, h.write (by simp [ho]) (by simp [ho]) v l⟩, hfits⟩

end

end KheapInv

/-- The system as `kheap_init` leaves it. -/
def KheapSys.init (pmm : Pmm) (mem : ℕ → ℕ) (other : Set ℕ) : KheapSys :=
  ⟨Kheap.init pmm mem, [], other⟩

open Classical in
lemma KheapSys.init_inv {pmm : Pmm} (hinv : BuddyInv pmm L) {other : Set ℕ}
    (hother : ∀ f ∈ other, f ∉ freeFrames L ∧ f < pmm.totalFrames) (mem : ℕ → ℕ) :
    KheapInv (KheapSys.init pmm mem other) L (fun _ => .nowhere)
      (fun f => if f ∈ freeFrames L then .free else .other) := by
  refine ⟨FramesInv.fresh hinv rfl fun _ => rfl, fun f hf => ?_, fun a ha => ?_, nodup_nil⟩
  · exact ⟨if_neg (hother f hf).1, (hother f hf).2⟩
  · exact absurd ha (by simp [KheapSys.init])

/-- What `kmalloc` promises for an allocation, beside the live ones: its bytes lie in the slot or
block that was obtained for it, off the header and off the bytes of the others, and `kfree` on any
CPU gives back that slot or block. -/
structure Sound (k : Kheap) (live : List Alloc) (a : Alloc) : Prop where
  inside : a.bytes ⊆ a.room
  offHeader : Disjoint a.bytes (a.header k.slab)
  apart : ∀ a' ∈ live, a' ≠ a → Disjoint a.bytes a'.bytes
  back : ∀ c, ∃ k', k.kfree c a.ptr = .ok k' ∧ Returned k c a k'

lemma Held.off_header {s : Slab} (h : Held s.pageMap mem loc own a) :
    Disjoint a.bytes (a.header s) := by
  refine Set.disjoint_left.mpr fun x hx hx' => ?_
  have hle : a.ptr ≤ x := hx.1
  cases h with
  | @slot cls b origin page mem_slots live =>
    have hhead : s.heads (a.ptr / pageSize) = b.first :=
      (page.tracked _ (page.slot_frame mem_slots)).2
    simp only [Alloc.header, origin, hhead, Set.mem_Ico] at hx'
    have := (page.slot_bounds mem_slots).1
    rw [blockAddr] at this
    omega
  | block origin ptr =>
    simp only [Alloc.header, origin, Set.mem_Ico] at hx'
    omega

/-- A live allocation whose bytes fit, beside others whose bytes fit, is sound. -/
lemma KheapInv.sound (h : KheapInv t L loc own)
    (hfits : ∀ a ∈ t.live, a.bytes ⊆ a.room) (ha : a ∈ t.live) : Sound t.heap t.live a := by
  refine ⟨hfits a ha, (h.held a ha).off_header, fun a' ha' hne => ?_, fun c => ?_⟩
  · have hptr : a.ptr ≠ a'.ptr := fun heq =>
      hne (inj_on_of_nodup_map h.distinct ha' ha heq.symm)
    exact (h.frames.rooms_disjoint (h.held a ha) (h.held a' ha') hptr).mono (hfits a ha)
      (hfits a' ha')
  · obtain ⟨k, _, _, _, hok, _, hret⟩ := h.kfree_spec ha c
    exact ⟨k, hok, hret⟩

/-- **`kmalloc` and `kfree` over every run whose requests fit.**  Every live allocation is sound.
No call of `kmalloc` panics, whatever size comes next; the slot or block behind what it returns is
the one this call obtained, and the new allocation is sound exactly if its size fits. -/
theorem kmalloc_run {pmm : Pmm} {L : ℕ → List ℕ} (hinv : BuddyInv pmm L) {other : Set ℕ}
    (hother : ∀ f ∈ other, f ∉ freeFrames L ∧ f < pmm.totalFrames) {mem : ℕ → ℕ}
    (hrun : Relation.ReflTransGen (KheapStep FitsBlock) (KheapSys.init pmm mem other) t) :
    (∀ a ∈ t.live, Sound t.heap t.live a) ∧
    ∀ c size, size < 2 ^ 64 → ∃ r k, t.heap.kmalloc c size = .ok (r, k) ∧
      ∀ a ∈ granted size r, Obtained t.heap c a ∧ (Sound k t.live a ↔ FitsBlock size) := by
  have key : (∃ L' loc own, KheapInv t L' loc own) ∧ ∀ a ∈ t.live, a.bytes ⊆ a.room := by
    induction hrun with
    | refl =>
      exact ⟨⟨L, _, _, KheapSys.init_inv hinv hother mem⟩, fun a ha => by
        simp [KheapSys.init] at ha⟩
    | tail _ hstep ih =>
      obtain ⟨⟨L1, loc1, own1, h1⟩, hfits1⟩ := ih
      exact h1.step hfits1 hstep
  obtain ⟨⟨L', loc, own, h⟩, hfits⟩ := key
  refine ⟨fun a ha => h.sound hfits ha, fun c size hsize => ?_⟩
  obtain ⟨r, k, L1, loc1, own1, hok, h1, hobt⟩ := h.kmalloc_spec c size
  refine ⟨r, k, hok, fun a ha => ⟨hobt a ha, ?_⟩⟩
  cases r with
  | none => simp [granted] at ha
  | some p =>
    obtain rfl := mem_singleton.mp ha
    have hmem : Alloc.mk p size (originOf size) ∈ granted size (some p) ++ t.live :=
      mem_append_left _ ha
    have hiff := bytes_subset_room_iff hsize (h1.held _ hmem).le_ptr
    refine ⟨fun hs => hiff.mp hs.inside, fun hfit => ?_⟩
    have hall : ∀ a ∈ granted size (some p) ++ t.live, a.bytes ⊆ a.room := by
      intro a ha'
      rcases mem_append.mp ha' with hnew | hold
      · obtain rfl := mem_singleton.mp hnew
        exact hiff.mpr hfit
      · exact hfits a hold
    have hs := h1.sound hall hmem
    exact ⟨hs.inside, hs.offHeader, fun a' ha' => hs.apart a' (mem_append_right _ ha'), hs.back⟩

lemma eq_ok_of_toOption {ε α : Type} {x : Except ε α} {a : α} (h : x.toOption = some a) :
    x = .ok a := by
  cases x with
  | error e => cases h
  | ok b => exact congrArg _ (Option.some.inj h)

/-- **A request that does not fit**: 8180 bytes get the two pages at 8, handed out from byte 16
on, and the last of them is byte 3 of page 10.  The next such request gets the pages from 10 on, so
that the first allocation contains the byte that holds the order of the second. -/
theorem block_too_small : ∃ k₁ k₂,
    (Kheap.init twentyFour fun _ => 0).kmalloc 0 8180 = .ok (some (8 * pageSize + 16), k₁) ∧
    k₁.kmalloc 0 8180 = .ok (some (10 * pageSize + 16), k₂) ∧ originOf 8180 = .block 1 ∧
    ¬ (Alloc.mk (8 * pageSize + 16) 8180 (originOf 8180)).bytes ⊆
      (Alloc.mk (8 * pageSize + 16) 8180 (originOf 8180)).room ∧
    10 * pageSize ∈ (Alloc.mk (8 * pageSize + 16) 8180 (originOf 8180)).bytes := by
  have horigin : originOf 8180 = .block 1 := by decide +kernel
  have hcalls : ((init twentyFour fun _ => 0).kmalloc 0 8180).toOption.bind (fun r =>
      (r.2.kmalloc 0 8180).toOption.map fun r' => (r.1, r'.1)) =
        some (some (8 * pageSize + 16), some (10 * pageSize + 16)) := by decide +kernel
  obtain ⟨⟨p, k₁⟩, h1, hcall⟩ := Option.bind_eq_some_iff.mp hcalls
  obtain ⟨⟨q, k₂⟩, h2, hpq⟩ := Option.map_eq_some_iff.mp hcall
  obtain ⟨rfl, rfl⟩ := Prod.mk.inj hpq
  have hbyte : 10 * pageSize ∈ (Alloc.mk (8 * pageSize + 16) 8180 (originOf 8180)).bytes :=
    ⟨by decide, by decide⟩
  refine ⟨k₁, k₂, eq_ok_of_toOption h1, eq_ok_of_toOption h2, horigin, fun hsub => ?_, hbyte⟩
  have hroom := hsub hbyte
  rw [horigin] at hroom
  exact absurd hroom.2 (by decide)

/-- The same two pages with 8000 bytes asked for. -/
theorem twoPages_sound : ∃ k,
    (Kheap.init twentyFour fun _ => 0).kmalloc 0 8000 = .ok (some (8 * pageSize + 16), k) ∧
    Sound k [⟨8 * pageSize + 16, 8000, .block 1⟩] ⟨8 * pageSize + 16, 8000, .block 1⟩ := by
  obtain ⟨L, hinv⟩ := twentyFour_inv
  have hfit : FitsBlock 8000 := (fits_iff_large (by decide)).mp ⟨by decide, by decide⟩
  have horigin : originOf 8000 = .block 1 := by decide +kernel
  have hcall : ((init twentyFour fun _ => 0).kmalloc 0 8000).toOption.map Prod.fst =
      some (some (8 * pageSize + 16)) := by decide +kernel
  obtain ⟨⟨p, k⟩, hok, rfl⟩ := Option.map_eq_some_iff.mp hcall
  have hok := eq_ok_of_toOption hok
  have hrun := Relation.ReflTransGen.single
    (@KheapStep.kmalloc FitsBlock (KheapSys.init twentyFour (fun _ => 0) ∅) 0 8000 _ k
      (by decide) hfit hok)
  have hs := (kmalloc_run hinv (by simp) hrun).1 ⟨8 * pageSize + 16, 8000, .block 1⟩ (by
    rw [granted, horigin]
    exact mem_cons_self)
  rw [granted, horigin] at hs
  exact ⟨k, hok, hs⟩

end Makaos
