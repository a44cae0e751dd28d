import Makaos.Mm.Slab

/-!
The invariant of the slab allocator and the moves its calls are made of.

* `SlotLoc`, `SlabInv`: every slot of every page is in exactly one place, handed out, on the
  chain of one CPU or on the remote stack of its page; between calls the pages of the `kmalloc`
  caches are active on one CPU or parked on the full list, and on no other list.
* `SlabInv.pop`, `rescue`, `park`, `fresh`, `pushLocal`, `pushRemote`: the six things the calls
  are made of.
-/

namespace Makaos

open Function Slab List DyadicBlock Option Nat
variable {x base cls : ℕ} {b : DyadicBlock} {s : Slab} {hd : SlabHeader}
  {headers headers' : ℕ → SlabHeader} {cpus cpus' : ℕ → ℕ → CpuSlab}
/-! ### Geometry of the `kmalloc` caches -/

/-- The geometry of the cache of a class. -/
def geomOf (cls : ℕ) : SlabGeometry := slabCacheInit (kmallocSizes.getD cls 0)

/-- The facts about the geometry of a class that the proofs use. -/
structure GeomOk (g : SlabGeometry) : Prop where
  slot_pos : 0 < g.slotSize
  header_le : slabHeaderSize ≤ g.firstSlotOff
  first_lt : g.firstSlotOff < g.slabBytes
  slots_pos : 0 < g.numSlots
  order_le : g.slabOrder ≤ slabMaxOrder

lemma geomOk_of_lt : ∀ cls < kmallocCacheCount, GeomOk (geomOf cls) := by
  have h : ∀ cls < kmallocCacheCount, 0 < (geomOf cls).slotSize ∧
      slabHeaderSize ≤ (geomOf cls).firstSlotOff ∧
      (geomOf cls).firstSlotOff < (geomOf cls).slabBytes ∧ 0 < (geomOf cls).numSlots ∧
      (geomOf cls).slabOrder ≤ slabMaxOrder := by decide +kernel
  intro cls hcls
  obtain ⟨h1, h2, h3, h4, h5⟩ := h cls hcls
  exact ⟨h1, h2, h3, h4, h5⟩

namespace GeomOk

variable {g : SlabGeometry}

lemma slot_bounds (h : GeomOk g) (hx : x ∈ g.slots base) :
    base + slabHeaderSize ≤ x ∧ x + g.slotSize ≤ base + g.slabBytes := by
  obtain ⟨i, hi, rfl⟩ := mem_map.mp hx
  have hlt : i < g.numSlots := mem_range.mp hi
  have hmul : (i + 1) * g.slotSize ≤ g.numSlots * g.slotSize := mul_le_mul_right _ hlt
  have hfit : g.numSlots * g.slotSize ≤ g.slabBytes - g.firstSlotOff := div_mul_le_self _ _
  have h1 := h.header_le
  have h2 := h.first_lt
  rw [succ_mul] at hmul
  omega

lemma slots_nodup (h : GeomOk g) (base : ℕ) : (g.slots base).Nodup := by
  refine Nodup.map (fun i j hij => ?_) nodup_range
  have : i * g.slotSize = j * g.slotSize := by omega
  exact eq_of_mul_eq_mul_right h.slot_pos this

lemma slots_ne_nil (h : GeomOk g) (base : ℕ) : g.slots base ≠ [] := by
  intro hnil
  have hlen : (g.slots base).length = g.numSlots := by
    rw [SlabGeometry.slots, length_map, length_range]
  rw [hnil] at hlen
  exact absurd h.slots_pos (by rw [← hlen]; simp)

lemma slots_apart {y : ℕ} (hx : x ∈ g.slots base) (hy : y ∈ g.slots base) (hne : x ≠ y) :
    x + g.slotSize ≤ y ∨ y + g.slotSize ≤ x := by
  obtain ⟨i, _, rfl⟩ := mem_map.mp hx
  obtain ⟨j, _, rfl⟩ := mem_map.mp hy
  rcases lt_trichotomy i j with hij | rfl | hij
  · left
    have : (i + 1) * g.slotSize ≤ j * g.slotSize := mul_le_mul_right _ hij
    rw [succ_mul] at this
    omega
  · exact absurd rfl hne
  · right
    have : (j + 1) * g.slotSize ≤ i * g.slotSize := mul_le_mul_right _ hij
    rw [succ_mul] at this
    omega

end GeomOk

/-! ### Pages -/

/-- What identifies the pages of the caches: the trackers and heads of the frames and the owner in
the header. -/
structure PageMap where
  totalFrames : ℕ
  trackers : ℕ → Option ℕ
  heads : ℕ → ℕ
  owner : ℕ → ℕ

/-- The page map of a state. -/
def Slab.pageMap (s : Slab) : PageMap :=
  ⟨s.pmm.totalFrames, s.trackers, s.heads, fun base => (s.headers base).cache⟩

/-- The block is a slab of the class. -/
structure PageMap.IsPage (m : PageMap) (cls : ℕ) (b : DyadicBlock) : Prop where
  cls_lt : cls < kmallocCacheCount
  order : b.order = (geomOf cls).slabOrder
  inRange : b.last ≤ m.totalFrames
  tracked : ∀ f ∈ b.frames, m.trackers f = some cls ∧ m.heads f = b.first
  owner : m.owner (blockAddr b) = cls

/-- The slots of a page. -/
def pageSlots (cls : ℕ) (b : DyadicBlock) : List ℕ := (geomOf cls).slots (blockAddr b)

/-- The slots of a block of the right order lie behind the header and inside its frames. -/
lemma pageSlots_bounds (hcls : cls < kmallocCacheCount) (ho : b.order = (geomOf cls).slabOrder)
    (hx : x ∈ pageSlots cls b) :
    blockAddr b + slabHeaderSize ≤ x ∧ x + (geomOf cls).slotSize ≤ b.last * pageSize := by
  have hbytes : blockAddr b + (geomOf cls).slabBytes = b.last * pageSize := by
    rw [SlabGeometry.slabBytes, ← ho, blockAddr, last_eq, shiftLeft_eq,
      add_mul, mul_comm pageSize]
  have := (geomOk_of_lt cls hcls).slot_bounds hx
  rwa [hbytes] at this

lemma pageSlots_frame (hcls : cls < kmallocCacheCount) (ho : b.order = (geomOf cls).slabOrder)
    (hx : x ∈ pageSlots cls b) : x / pageSize ∈ b.frames := by
  obtain ⟨h1, h2⟩ := pageSlots_bounds hcls ho hx
  have hpos := (geomOk_of_lt cls hcls).slot_pos
  rw [blockAddr] at h1
  simp only [frames, Set.mem_Ico, pageSize] at *
  omega

namespace PageMap.IsPage

variable {m : PageMap} {cls cls' : ℕ} {b b' : DyadicBlock}

section

variable (h : m.IsPage cls b)
include h

lemma unique (h' : m.IsPage cls' b') {f : ℕ} (hf : f ∈ b.frames)
    (hf' : f ∈ b'.frames) : cls = cls' ∧ b = b' := by
  obtain ⟨ht, hh⟩ := h.tracked f hf
  obtain ⟨ht', hh'⟩ := h'.tracked f hf'
  have hcls : cls = cls' := some.inj (ht.symm.trans ht')
  refine ⟨hcls, eq_of_first_eq ?_ (hh.symm.trans hh')⟩
  rw [h.order, h'.order, hcls]

lemma eq_of_addr (h' : m.IsPage cls' b') (ha : blockAddr b = blockAddr b') :
    cls = cls' ∧ b = b' := by
  have hfirst : b.first = b'.first := eq_of_mul_eq_mul_right pageSize_pos ha
  refine h.unique h' b.first_mem_frames ?_
  rw [hfirst]
  exact b'.first_mem_frames

lemma slot_bounds (hx : x ∈ pageSlots cls b) :
    blockAddr b + slabHeaderSize ≤ x ∧ x + (geomOf cls).slotSize ≤ b.last * pageSize :=
  pageSlots_bounds h.cls_lt h.order hx

lemma slot_frame (hx : x ∈ pageSlots cls b) : x / pageSize ∈ b.frames :=
  pageSlots_frame h.cls_lt h.order hx

lemma slot_unique (h' : m.IsPage cls' b') (hx : x ∈ pageSlots cls b)
    (hx' : x ∈ pageSlots cls' b') : cls = cls' ∧ b = b' :=
  h.unique h' (h.slot_frame hx) (h'.slot_frame hx')

end

end PageMap.IsPage

/-- The map with the block added as a slab of the class. -/
def PageMap.extend (m : PageMap) (cls : ℕ) (b : DyadicBlock) : PageMap where
  totalFrames := m.totalFrames
  trackers := fun f => if b.first ≤ f ∧ f < b.last then some cls else m.trackers f
  heads := fun f => if b.first ≤ f ∧ f < b.last then b.first else m.heads f
  owner := update m.owner (blockAddr b) cls

lemma PageMap.isPage_extend {cls' : ℕ} {b' : DyadicBlock} {m : PageMap}
    (hcls : cls < kmallocCacheCount) (ho : b.order = (geomOf cls).slabOrder)
    (hlast : b.last ≤ m.totalFrames) (hfresh : ∀ f ∈ b.frames, m.trackers f = none) :
    (m.extend cls b).IsPage cls' b' ↔ m.IsPage cls' b' ∨ (cls' = cls ∧ b' = b) := by
  have haddr (hout : ¬ (b.first ≤ b'.first ∧ b'.first < b.last)) :
      blockAddr b' ≠ blockAddr b := by
    intro heq
    have hfirst : b'.first = b.first := eq_of_mul_eq_mul_right pageSize_pos heq
    exact hout ⟨hfirst.ge, hfirst ▸ b.first_lt_last⟩
  constructor
  · intro h
    by_cases hshare : b'.first ∈ b.frames
    · obtain ⟨ht, hh⟩ := h.tracked b'.first b'.first_mem_frames
      have hin : b.first ≤ b'.first ∧ b'.first < b.last := hshare
      simp only [PageMap.extend, if_pos hin, some.injEq] at ht hh
      refine .inr ⟨ht.symm, eq_of_first_eq ?_ hh.symm⟩
      rw [h.order, ho, ht]
    · -- no frame of the page lies in the new block, or its head would
      have hout : ∀ f ∈ b'.frames, ¬ (b.first ≤ f ∧ f < b.last) := by
        intro f hf hin
        have hh := (h.tracked f hf).2
        simp only [PageMap.extend, if_pos hin] at hh
        exact hshare (hh ▸ b.first_mem_frames)
      refine .inl ⟨h.cls_lt, h.order, h.inRange, fun f hf => ?_, ?_⟩
      · have hft := h.tracked f hf
        simp only [PageMap.extend, if_neg (hout f hf)] at hft
        exact hft
      · have hown := h.owner
        simp only [PageMap.extend, update_of_ne (haddr (hout _ b'.first_mem_frames))] at hown
        exact hown
  · rintro (h | ⟨rfl, rfl⟩)
    · have hout : ∀ f ∈ b'.frames, ¬ (b.first ≤ f ∧ f < b.last) := by
        intro f hf hin
        have := (h.tracked f hf).1
        rw [hfresh f hin] at this
        nomatch this
      refine ⟨h.cls_lt, h.order, h.inRange, fun f hf => ?_, ?_⟩
      · simp only [PageMap.extend, if_neg (hout f hf)]
        exact h.tracked f hf
      · simp only [PageMap.extend, update_of_ne (haddr (hout _ b'.first_mem_frames))]
        exact h.owner
    · refine ⟨hcls, ho, hlast, fun f hf => ?_, ?_⟩
      · have hin : b'.first ≤ f ∧ f < b'.last := hf
        simp only [PageMap.extend, if_pos hin, and_self]
      · simp only [PageMap.extend, update_self]

/-! ### The invariant -/

/-- Where a slot is. -/
inductive SlotLoc where
  /-- no slot of any page -/
  | nowhere
  /-- handed out to a caller -/
  | live
  /-- on the active chain of a CPU for a class -/
  | cpu (c cls : ℕ)
  /-- on the `remote_free` stack of the page at the address -/
  | remote (base : ℕ)
  deriving DecidableEq, Repr

/-- The pages and the free frames. -/
structure PagesInv (m : PageMap) (L : ℕ → List ℕ) : Prop where
  page : ∀ f cls, m.trackers f = some cls → ∃ b, m.IsPage cls b ∧ f ∈ b.frames
  apart : ∀ f, m.trackers f ≠ none → f ∉ freeFrames L

/-- The slots, the chains and the active pages. -/
structure SlotsInv (m : PageMap) (headers : ℕ → SlabHeader) (cpus : ℕ → ℕ → CpuSlab)
    (full : ℕ → List ℕ) (loc : ℕ → SlotLoc) : Prop where
  slot : ∀ x, loc x ≠ .nowhere ↔ ∃ cls b, m.IsPage cls b ∧ x ∈ pageSlots cls b
  chain : ∀ c cls x, x ∈ (cpus c cls).freelist ↔ loc x = .cpu c cls
  chain_nodup : ∀ c cls, (cpus c cls).freelist.Nodup
  chain_active : ∀ c cls x, loc x = .cpu c cls → ∃ b, m.IsPage cls b ∧ x ∈ pageSlots cls b ∧
    (cpus c cls).active = some (blockAddr b)
  remote : ∀ cls b, m.IsPage cls b →
    ∀ x, x ∈ (headers (blockAddr b)).remoteFree ↔ loc x = .remote (blockAddr b)
  remote_nodup : ∀ cls b, m.IsPage cls b → (headers (blockAddr b)).remoteFree.Nodup
  remote_page : ∀ x a, loc x = .remote a → ∃ cls b, m.IsPage cls b ∧ x ∈ pageSlots cls b ∧
    a = blockAddr b
  freelist : ∀ cls b, m.IsPage cls b → (headers (blockAddr b)).freelist = []
  active : ∀ c cls a, (cpus c cls).active = some a → ∃ b, m.IsPage cls b ∧ a = blockAddr b
  active_inj : ∀ c c' cls cls' a, (cpus c cls).active = some a → (cpus c' cls').active = some a →
    c = c' ∧ cls = cls'
  parked : ∀ cls b, m.IsPage cls b →
    ((∃ c, (cpus c cls).active = some (blockAddr b)) ↔ blockAddr b ∉ full cls)
  full_page : ∀ cls, ∀ a ∈ full cls, ∃ b, m.IsPage cls b ∧ a = blockAddr b

/-- **The invariant of the slab allocator** between calls, with the contents `L` of the buddy
lists and the place `loc` of every slot. -/
structure SlabInv (s : Slab) (L : ℕ → List ℕ) (loc : ℕ → SlotLoc) : Prop where
  buddy : BuddyInv s.pmm L
  geom : ∀ cls, (s.caches cls).geom = geomOf cls
  noPartial : ∀ cls, (s.caches cls).cachePartial = []
  noEmpty : ∀ cls, (s.caches cls).empty = []
  noCpuPartial : ∀ c cls, (s.cpus c cls).partialPages = []
  pages : PagesInv s.pageMap L
  slots : SlotsInv s.pageMap s.headers s.cpus (fun cls => (s.caches cls).full) loc

/-- The frames of the slabs. -/
def Slab.frames (s : Slab) : Set ℕ := {f | s.trackers f ≠ none}

/-- The allocator as `kheap_init` leaves it. -/
lemma Slab.init_inv {L : ℕ → List ℕ} {pmm : Pmm} (h : BuddyInv pmm L) :
    SlabInv (init pmm) L (fun _ => .nowhere) := by
  have hno : ∀ cls b, ¬ (init pmm).pageMap.IsPage cls b := by
    intro cls b hp
    have := (hp.tracked b.first b.first_mem_frames).1
    simp [pageMap, init] at this
  refine ⟨h, fun _ => rfl, fun _ => rfl, fun _ => rfl, fun _ _ => rfl, ⟨?_, ?_⟩, ?_⟩
  · intro f cls hf
    simp [pageMap, init] at hf
  · intro f hf
    simp [pageMap, init] at hf
  · refine ⟨?_, ?_, ?_, ?_, ?_, ?_, ?_, ?_, ?_, ?_, ?_, ?_⟩
    · exact fun x => ⟨fun hx => absurd rfl hx, fun ⟨cls, b, hp, _⟩ => absurd hp (hno cls b)⟩
    · simp [init]
    · simp [init]
    · simp
    · exact fun cls b hp => absurd hp (hno cls b)
    · exact fun cls b hp => absurd hp (hno cls b)
    · simp
    · exact fun cls b hp => absurd hp (hno cls b)
    · simp [init]
    · simp [init]
    · exact fun cls b hp => absurd hp (hno cls b)
    · simp [init]

/-! ### State updates -/

lemma Slab.setCpu_apply (s : Slab) (c cls : ℕ) (v : CpuSlab) (c' cls' : ℕ) :
    (s.setCpu c cls v).cpus c' cls' = if c' = c ∧ cls' = cls then v else s.cpus c' cls' := by
  by_cases hc : c' = c
  · subst hc
    by_cases hcls : cls' = cls
    · subst hcls
      simp [setCpu]
    · simp [setCpu, hcls]
  · simp [setCpu, hc]

/-- What holds of the changed CPU and held of all holds of all. -/
lemma Slab.forall_setCpu {c cls : ℕ} {P : ℕ → ℕ → CpuSlab → Prop} {v : CpuSlab} (hv : P c cls v)
    (h : ∀ c' cls', P c' cls' (s.cpus c' cls')) (c' cls' : ℕ) :
    P c' cls' ((s.setCpu c cls v).cpus c' cls') := by
  rw [setCpu_apply]
  split_ifs with heq
  · obtain ⟨rfl, rfl⟩ := heq; exact hv
  · exact h c' cls'

@[simp] lemma Slab.setCpu_self (s : Slab) (c cls : ℕ) (v : CpuSlab) :
    (s.setCpu c cls v).cpus c cls = v := by
  rw [setCpu_apply, if_pos ⟨rfl, rfl⟩]

@[simp] lemma Slab.setCpu_setCpu (s : Slab) (c cls : ℕ) (v w : CpuSlab) :
    (s.setCpu c cls v).setCpu c cls w = s.setCpu c cls w := by
  simp [setCpu]

/-- What holds of the changed cache and held of all holds of all. -/
lemma Slab.forall_setCache {P : ℕ → SlabCache → Prop} {v : SlabCache} (hv : P cls v)
    (h : ∀ cls', P cls' (s.caches cls')) (cls' : ℕ) : P cls' ((s.setCache cls v).caches cls') := by
  by_cases hc : cls' = cls
  · subst hc
    simpa [setCache] using hv
  · simpa [setCache, hc] using h cls'

lemma Slab.pageMap_setHeader (hc : hd.cache = (s.headers base).cache) :
    (s.setHeader base hd).pageMap = s.pageMap := by
  have : (fun a => ((s.setHeader base hd).headers a).cache) = fun a => (s.headers a).cache := by
    funext a
    by_cases ha : a = base
    · subst ha
      simp [setHeader, hc]
    · simp [setHeader, ha]
  rw [pageMap, this]
  rfl

lemma Slab.setHeader_remoteFree {a : ℕ} : ((s.setHeader base hd).headers a).remoteFree =
      if a = base then hd.remoteFree else (s.headers a).remoteFree := by
  by_cases ha : a = base <;> simp [setHeader, ha]

lemma Slab.setHeader_freelist {a : ℕ} : ((s.setHeader base hd).headers a).freelist =
      if a = base then hd.freelist else (s.headers a).freelist := by
  by_cases ha : a = base <;> simp [setHeader, ha]

/-! ### Moving slots -/

/-- Slots move between places, with the pages and their CPUs as they are. -/
lemma SlotsInv.relocate {m : PageMap} {full : ℕ → List ℕ} {loc loc' : ℕ → SlotLoc}
    (h : SlotsInv m headers cpus full loc)
    (hactive : ∀ c cls, (cpus' c cls).active = (cpus c cls).active)
    (hfree : ∀ a, (headers' a).freelist = (headers a).freelist)
    (hnowhere : ∀ x, loc' x = .nowhere ↔ loc x = .nowhere)
    (hchain : ∀ c cls x, x ∈ (cpus' c cls).freelist ↔ loc' x = .cpu c cls)
    (hchain_nodup : ∀ c cls, (cpus' c cls).freelist.Nodup) (hremote : ∀ cls b, m.IsPage cls b →
      ∀ x, x ∈ (headers' (blockAddr b)).remoteFree ↔ loc' x = .remote (blockAddr b))
    (hremote_nodup : ∀ cls b, m.IsPage cls b → (headers' (blockAddr b)).remoteFree.Nodup)
    (hmoved : ∀ x, loc' x = loc x ∨ loc' x = .live ∨ ∃ cls b, m.IsPage cls b ∧
      x ∈ pageSlots cls b ∧ (loc' x = .remote (blockAddr b) ∨
        ∃ c, loc' x = .cpu c cls ∧ (cpus c cls).active = some (blockAddr b))) :
    SlotsInv m headers' cpus' full loc' where
  slot := fun x => by rw [← h.slot x, ne_eq, ne_eq, hnowhere]
  chain := hchain
  chain_nodup := hchain_nodup
  chain_active := by
    intro c cls x hx
    rw [hactive]
    rcases hmoved x with heq | hlive | ⟨cls', b, hp, hs, hrem | ⟨c', hcpu, hact⟩⟩
    · exact h.chain_active c cls x (heq ▸ hx)
    · rw [hlive] at hx
      nomatch hx
    · rw [hrem] at hx
      nomatch hx
    · rw [hcpu] at hx
      obtain ⟨rfl, rfl⟩ := SlotLoc.cpu.inj hx
      exact ⟨b, hp, hs, hact⟩
  remote := hremote
  remote_nodup := hremote_nodup
  remote_page := by
    intro x a hx
    rcases hmoved x with heq | hlive | ⟨cls, b, hp, hs, hrem | ⟨c, hcpu, _⟩⟩
    · exact h.remote_page x a (heq ▸ hx)
    · rw [hlive] at hx
      nomatch hx
    · rw [hrem] at hx
      exact ⟨cls, b, hp, hs, (SlotLoc.remote.inj hx).symm⟩
    · rw [hcpu] at hx
      nomatch hx
  freelist := fun cls b hp => (hfree _).trans (h.freelist cls b hp)
  active := fun c cls a ha => h.active c cls a (hactive c cls ▸ ha)
  active_inj := fun c c' cls cls' a ha ha' =>
    h.active_inj c c' cls cls' a (hactive c cls ▸ ha) (hactive c' cls' ▸ ha')
  parked := by
    intro cls b hp
    simp only [hactive]
    exact h.parked cls b hp
  full_page := h.full_page

/-- The active page of a CPU with an empty chain goes onto the full list. -/
lemma SlotsInv.park {m : PageMap} {loc : ℕ → SlotLoc} {c : ℕ} {full full' : ℕ → List ℕ}
    (h : SlotsInv m headers cpus full loc) (hempty : (cpus c cls).freelist = [])
    (hp : m.IsPage cls b) (hact : (cpus c cls).active = some (blockAddr b))
    (hchain : ∀ c cls, (cpus' c cls).freelist = (cpus c cls).freelist)
    (hremote : ∀ a, (headers' a).remoteFree = (headers a).remoteFree)
    (hfree : ∀ cls b, m.IsPage cls b → (headers' (blockAddr b)).freelist = [])
    (hactive : ∀ c cls a, (cpus' c cls).active = some a ↔
      (cpus c cls).active = some a ∧ a ≠ blockAddr b)
    (hfull : ∀ cls' a, a ∈ full' cls' ↔ a ∈ full cls' ∨ (cls' = cls ∧ a = blockAddr b)) :
    SlotsInv m headers' cpus' full' loc where
  slot := h.slot
  chain := fun c' cls' x => by rw [hchain]; exact h.chain c' cls' x
  chain_nodup := fun c' cls' => by rw [hchain]; exact h.chain_nodup c' cls'
  chain_active := by
    intro c' cls' x hx
    obtain ⟨b', hp', hx', ha'⟩ := h.chain_active c' cls' x hx
    refine ⟨b', hp', hx', (hactive c' cls' _).mpr ⟨ha', fun heq => ?_⟩⟩
    rw [heq] at ha'
    obtain ⟨rfl, rfl⟩ := h.active_inj c' c cls' cls _ ha' hact
    rw [← h.chain, hempty] at hx
    exact absurd hx not_mem_nil
  remote := fun cls' b' hp' x => by rw [hremote]; exact h.remote cls' b' hp' x
  remote_nodup := fun cls' b' hp' => by rw [hremote]; exact h.remote_nodup cls' b' hp'
  remote_page := h.remote_page
  freelist := hfree
  active := fun c' cls' a ha => h.active c' cls' a ((hactive c' cls' a).mp ha).1
  active_inj := fun c1 c2 cls1 cls2 a h1 h2 =>
    h.active_inj c1 c2 cls1 cls2 a ((hactive _ _ a).mp h1).1 ((hactive _ _ a).mp h2).1
  parked := by
    intro cls' b' hp'
    simp only [hactive, hfull, not_or]
    have hold := h.parked cls' b' hp'
    constructor
    · rintro ⟨c', ha, hne⟩
      exact ⟨hold.mp ⟨c', ha⟩, fun heq => hne heq.2⟩
    · rintro ⟨hnot, hne⟩
      obtain ⟨c', ha⟩ := hold.mpr hnot
      refine ⟨c', ha, fun heq => hne ⟨?_, heq⟩⟩
      exact (hp'.eq_of_addr hp heq).1
  full_page := by
    intro cls' a ha
    rcases (hfull cls' a).mp ha with hold | ⟨rfl, rfl⟩
    · exact h.full_page cls' a hold
    · exact ⟨b, hp, rfl⟩

namespace SlabInv

variable {s : Slab} {L : ℕ → List ℕ} {loc : ℕ → SlotLoc} {c cls : ℕ}

section

variable (h : SlabInv s L loc)
include h

/-- A slot is put on the chain of a CPU or taken off it. -/
lemma moveOne {fl : List ℕ} {v : SlotLoc}
    (hold : loc x = .live ∨ loc x = .cpu c cls) (hnew : v = .live ∨ v = .cpu c cls)
    (hmem : ∀ y, y ∈ fl ↔ update loc x v y = .cpu c cls) (hnodup : fl.Nodup)
    (hpage : v = .live ∨ ∃ b, s.pageMap.IsPage cls b ∧ x ∈ pageSlots cls b ∧
      (s.cpus c cls).active = some (blockAddr b)) :
    SlabInv (s.setCpu c cls { s.cpus c cls with freelist := fl }) L (update loc x v) := by
  have hsame : ∀ l, l ≠ .live → l ≠ .cpu c cls → ∀ y, update loc x v y = l ↔ loc y = l := by
    intro l hlive hcpu y
    by_cases hy : y = x
    · subst hy
      rw [update_self]
      refine iff_of_false ?_ ?_
      · rcases hnew with rfl | rfl
        exacts [hlive.symm, hcpu.symm]
      · rcases hold with ho | ho <;> rw [ho]
        exacts [hlive.symm, hcpu.symm]
    · rw [update_of_ne hy]
  refine ⟨h.buddy, h.geom, h.noPartial, h.noEmpty,
    forall_setCpu (P := fun _ _ v => v.partialPages = []) (h.noCpuPartial c cls) h.noCpuPartial,
    h.pages, ?_⟩
  refine h.slots.relocate (forall_setCpu (P := fun c' cls' v => v.active =
    (s.cpus c' cls').active) rfl fun _ _ => rfl) (fun _ => rfl) (hsame _ nofun nofun)
    (fun c' cls' y => ?_) (forall_setCpu (P := fun _ _ v => v.freelist.Nodup) hnodup
    h.slots.chain_nodup) (fun cls' b hp y => ?_) (h.slots.remote_nodup) (fun y => ?_)
  · rw [setCpu_apply]
    split
    next heq => obtain ⟨rfl, rfl⟩ := heq; exact hmem y
    next hne =>
      exact (h.slots.chain c' cls' y).trans
        (hsame (.cpu c' cls') nofun (fun heq => hne (SlotLoc.cpu.inj heq)) y).symm
  · exact (h.slots.remote cls' b hp y).trans (hsame (.remote _) nofun nofun y).symm
  · by_cases hy : y = x
    · subst hy
      rcases hpage with hlive | ⟨b, hp, hx, hact⟩
      · exact .inr (.inl (by rw [update_self, hlive]))
      · rw [update_self]
        rcases hnew with hlive | hcpu
        · exact .inr (.inl hlive)
        · exact .inr (.inr ⟨cls, b, hp, hx, .inr ⟨c, hcpu, hact⟩⟩)
    · exact .inl (update_of_ne hy _ _)

/-- **Pop**: the head of a CPU's chain is handed out. -/
lemma pop {rest : List ℕ} (hx : (s.cpus c cls).freelist = x :: rest) :
    SlabInv (s.setCpu c cls { s.cpus c cls with freelist := rest }) L (update loc x .live) := by
  have hnd := h.slots.chain_nodup c cls
  have hmem := h.slots.chain c cls
  rw [hx] at hnd hmem
  rw [nodup_cons] at hnd
  refine h.moveOne (.inr ((hmem x).mp mem_cons_self)) (.inl rfl) (fun y => ?_) hnd.2 (.inl rfl)
  by_cases hy : y = x
  · subst hy
    simp [hnd.1]
  · rw [update_of_ne hy, ← hmem, mem_cons, or_iff_right hy]

/-- **Push**: a handed-out slot of the active page goes back onto the CPU's chain. -/
lemma pushLocal (hlive : loc x = .live) (hp : s.pageMap.IsPage cls b)
    (hx : x ∈ pageSlots cls b) (hact : (s.cpus c cls).active = some (blockAddr b)) :
    SlabInv (s.setCpu c cls { s.cpus c cls with freelist := x :: (s.cpus c cls).freelist }) L
      (update loc x (.cpu c cls)) := by
  have hnot : x ∉ (s.cpus c cls).freelist := by
    intro hmem
    rw [h.slots.chain, hlive] at hmem
    nomatch hmem
  refine h.moveOne (.inl hlive) (.inr rfl) (fun y => ?_)
    (nodup_cons.mpr ⟨hnot, h.slots.chain_nodup c cls⟩) (.inr ⟨b, hp, hx, hact⟩)
  by_cases hy : y = x
  · subst hy
    simp
  · rw [update_of_ne hy, ← h.slots.chain, mem_cons, or_iff_right hy]

/-- **Remote push**: a handed-out slot goes onto the remote stack of its page. -/
lemma pushRemote (hlive : loc x = .live) (hp : s.pageMap.IsPage cls b) (hx : x ∈ pageSlots cls b) :
    SlabInv (s.setHeader (blockAddr b) { s.headers (blockAddr b) with
        remoteFree := x :: (s.headers (blockAddr b)).remoteFree }) L
      (update loc x (.remote (blockAddr b))) := by
  have hmap := @Slab.pageMap_setHeader (blockAddr b) s { s.headers (blockAddr b) with
    remoteFree := x :: (s.headers (blockAddr b)).remoteFree } rfl
  refine ⟨h.buddy, h.geom, h.noPartial, h.noEmpty, h.noCpuPartial, by rw [hmap]; exact h.pages, ?_⟩
  rw [hmap]
  refine h.slots.relocate (fun _ _ => rfl) (fun a => ?_) (fun y => ?_) (fun c' cls' y => ?_)
    (h.slots.chain_nodup) (fun cls' b' hp' y => ?_) (fun cls' b' hp' => ?_) (fun y => ?_)
  · rw [setHeader_freelist]
    split_ifs with ha
    · rw [ha]
    · rfl
  · by_cases hy : y = x
    · subst hy
      simp [hlive]
    · rw [update_of_ne hy]
  · refine (h.slots.chain c' cls' y).trans ?_
    by_cases hy : y = x
    · subst hy
      simp [hlive]
    · rw [update_of_ne hy]
  · rw [setHeader_remoteFree]
    have hold := h.slots.remote cls' b' hp' y
    by_cases hy : y = x
    · subst hy
      rw [hlive] at hold
      rw [update_self]
      split_ifs with ha
      · simp [ha]
      · simp only [hold, reduceCtorEq, SlotLoc.remote.injEq, false_iff]
        exact fun heq => ha heq.symm
    · rw [update_of_ne hy, ← hold]
      split_ifs with ha
      · simp [ha, hy]
      · rfl
  · rw [setHeader_remoteFree]
    split_ifs with ha
    · refine nodup_cons.mpr ⟨fun hmem => ?_, h.slots.remote_nodup cls b hp⟩
      rw [h.slots.remote cls b hp, hlive] at hmem
      nomatch hmem
    · exact h.slots.remote_nodup cls' b' hp'
  · by_cases hy : y = x
    · subst hy
      exact .inr (.inr ⟨cls, b, hp, hx, .inl (update_self _ _ _)⟩)
    · exact .inl (update_of_ne hy _ _)

section

variable (hd) (hempty : (s.cpus c cls).freelist = []) (hp : s.pageMap.IsPage cls b)
  (hact : (s.cpus c cls).active = some (blockAddr b))
  (hcache : hd.cache = (s.headers (blockAddr b)).cache) (hfl : hd.freelist = [])
include hempty hp hact hcache hfl

/-- **Rescue**: the remote stack of the active page becomes the CPU's chain. -/
lemma rescue (hrem : hd.remoteFree = []) : SlabInv ((s.setHeader (blockAddr b) hd).setCpu c cls
        { s.cpus c cls with freelist := (s.headers (blockAddr b)).remoteFree }) L
      (fun y => if loc y = .remote (blockAddr b) then .cpu c cls else loc y) := by
  have hmap : ((s.setHeader (blockAddr b) hd).setCpu c cls
      { s.cpus c cls with freelist := (s.headers (blockAddr b)).remoteFree }).pageMap =
      s.pageMap := pageMap_setHeader hcache
  have hnone : ∀ y, loc y ≠ .cpu c cls := by
    intro y hy
    rw [← h.slots.chain, hempty] at hy
    exact absurd hy not_mem_nil
  refine ⟨h.buddy, h.geom, h.noPartial, h.noEmpty,
    forall_setCpu (P := fun _ _ v => v.partialPages = []) (h.noCpuPartial c cls) h.noCpuPartial,
    by rw [hmap]; exact h.pages, ?_⟩
  rw [hmap]
  refine h.slots.relocate (forall_setCpu (P := fun c' cls' v => v.active =
    (s.cpus c' cls').active) rfl fun _ _ => rfl) (fun a => ?_) (fun y => ?_) (fun c' cls' y => ?_)
    (forall_setCpu (P := fun _ _ v => v.freelist.Nodup) (h.slots.remote_nodup cls b hp)
    h.slots.chain_nodup) (fun cls' b' hp' y => ?_) (fun cls' b' hp' => ?_) (fun y => ?_)
  · refine setHeader_freelist.trans ?_
    split_ifs with ha
    · rw [ha, hfl, h.slots.freelist cls b hp]
    · rfl
  · split_ifs with hy
    · simp [hy]
    · rfl
  · rw [setCpu_apply]
    split
    next heq =>
      obtain ⟨rfl, rfl⟩ := heq
      rw [h.slots.remote cls' b hp y]
      by_cases hy : loc y = .remote (blockAddr b)
      · simp [hy]
      · simp [hy, hnone y]
    next hne =>
      refine (h.slots.chain c' cls' y).trans ?_
      by_cases hy : loc y = .remote (blockAddr b)
      · simp only [hy, if_true, reduceCtorEq, SlotLoc.cpu.injEq, false_iff, not_and]
        rintro rfl rfl
        exact hne ⟨rfl, rfl⟩
      · simp [hy]
  · rw [show ((s.setHeader (blockAddr b) hd).setCpu c cls _).headers =
      (s.setHeader (blockAddr b) hd).headers from rfl, setHeader_remoteFree]
    have hold := h.slots.remote cls' b' hp' y
    split
    next ha =>
      rw [hrem, ha]
      by_cases hy : loc y = .remote (blockAddr b) <;> simp [hy]
    next ha =>
      rw [hold]
      by_cases hy : loc y = .remote (blockAddr b)
      · simp only [hy, if_true, SlotLoc.remote.injEq, reduceCtorEq, iff_false]
        exact fun heq => ha heq.symm
      · simp [hy]
  · rw [show ((s.setHeader (blockAddr b) hd).setCpu c cls _).headers =
      (s.setHeader (blockAddr b) hd).headers from rfl, setHeader_remoteFree]
    split
    · rw [hrem]; exact nodup_nil
    · exact h.slots.remote_nodup cls' b' hp'
  · by_cases hy : loc y = .remote (blockAddr b)
    · obtain ⟨cls', b', hp', hs', ha'⟩ := h.slots.remote_page y _ hy
      obtain ⟨rfl, rfl⟩ := hp.eq_of_addr hp' ha'
      exact .inr (.inr ⟨cls, b, hp, hs', .inr ⟨c, by simp [hy], hact⟩⟩)
    · exact .inl (by simp [hy])

/-- **Park**: the active page of a CPU, with no free slot left, goes onto the full list. -/
lemma park (hrem : hd.remoteFree = (s.headers (blockAddr b)).remoteFree) :
    SlabInv (((s.setHeader (blockAddr b) hd).setCache cls
        { s.caches cls with full := blockAddr b :: (s.caches cls).full }).setCpu c cls
        { s.cpus c cls with active := none }) L loc := by
  set s' := ((s.setHeader (blockAddr b) hd).setCache cls
    { s.caches cls with full := blockAddr b :: (s.caches cls).full }).setCpu c cls
    { s.cpus c cls with active := none } with hs'
  have hmap : s'.pageMap = s.pageMap := pageMap_setHeader hcache
  have hhead : s'.headers = (s.setHeader (blockAddr b) hd).headers := rfl
  have hfreelist : ∀ c' cls', (s'.cpus c' cls').freelist = (s.cpus c' cls').freelist :=
    forall_setCpu (P := fun c' cls' v => v.freelist = (s.cpus c' cls').freelist) rfl fun _ _ => rfl
  have hremote : ∀ a, (s'.headers a).remoteFree = (s.headers a).remoteFree := by
    intro a
    rw [hhead, setHeader_remoteFree]
    split_ifs with ha
    · rw [ha, hrem]
    · rfl
  have hactive : ∀ c' cls' a, (s'.cpus c' cls').active = some a ↔
      (s.cpus c' cls').active = some a ∧ a ≠ blockAddr b := by
    intro c' cls' a
    rw [hs', setCpu_apply]
    split_ifs with heq
    · obtain ⟨rfl, rfl⟩ := heq
      simp only [hact, some.injEq, ne_eq, false_iff, not_and, not_not]
      exact fun heq => heq.symm
    · refine ⟨fun ha => ⟨ha, ?_⟩, fun ha => ha.1⟩
      rintro rfl
      exact heq (h.slots.active_inj c' c cls' cls _ ha hact)
  have hfull : ∀ cls' a, a ∈ (s'.caches cls').full ↔
      a ∈ (s.caches cls').full ∨ (cls' = cls ∧ a = blockAddr b) := by
    intro cls' a
    by_cases hc : cls' = cls
    · subst hc
      simp [hs', setCpu, setCache, or_comm]
    · simp [hs', setCpu, setCache, hc]
      rfl
  refine ⟨h.buddy, forall_setCache (P := fun cls' v => v.geom = geomOf cls') (h.geom cls) h.geom,
    forall_setCache (P := fun _ v => v.cachePartial = []) (h.noPartial cls) h.noPartial,
    forall_setCache (P := fun _ v => v.empty = []) (h.noEmpty cls) h.noEmpty,
    forall_setCpu (P := fun _ _ v => v.partialPages = []) (h.noCpuPartial c cls) h.noCpuPartial,
    by rw [hmap]; exact h.pages, ?_⟩
  rw [hmap]
  refine h.slots.park hempty hp hact hfreelist hremote (fun cls' b' hp' => ?_) hactive hfull
  rw [hhead, setHeader_freelist]
  split
  · exact hfl
  · exact h.slots.freelist cls' b' hp'

end

/-- The result of installing a fresh slab as the active page of a CPU. -/
structure Installed (s s' : Slab) (c cls : ℕ) (b : DyadicBlock) : Prop where
  map : s'.pageMap = s.pageMap.extend cls b
  caches : s'.caches = s.caches
  headers : ∀ a, a ≠ blockAddr b → s'.headers a = s.headers a
  header_remote : (s'.headers (blockAddr b)).remoteFree = []
  header_freelist : (s'.headers (blockAddr b)).freelist = []
  cpus : ∀ c' cls', s'.cpus c' cls' = if c' = c ∧ cls' = cls then
    ⟨pageSlots cls b, some (blockAddr b), []⟩ else s.cpus c' cls'

/-- A page does not have the address of a block of free frames. -/
lemma addr_ne {cls' : ℕ} {b' : DyadicBlock} (hsub : b.frames ⊆ freeFrames L)
    (hp : s.pageMap.IsPage cls' b') : blockAddr b' ≠ blockAddr b := by
  intro heq
  have hfirst : b'.first = b.first := eq_of_mul_eq_mul_right pageSize_pos heq
  have ht := (hp.tracked b'.first b'.first_mem_frames).1
  rw [hfirst] at ht
  exact h.pages.apart b.first (by rw [ht]; nofun) (hsub b.first_mem_frames)

end

lemma Installed.active {s' : Slab} (hins : Installed s s' c cls b)
    (hnone : (s.cpus c cls).active = none) {c' cls' a : ℕ} : (s'.cpus c' cls').active = some a ↔
      (s.cpus c' cls').active = some a ∨ (c' = c ∧ cls' = cls) ∧ a = blockAddr b := by
  rw [hins.cpus]
  by_cases hc : c' = c ∧ cls' = cls
  · obtain ⟨rfl, rfl⟩ := hc
    simp [hnone, eq_comm]
  · simp [hc]

section Fresh

variable {s' : Slab} (hs : SlabInv s L loc) (hcls : cls < kmallocCacheCount)
  (ho : b.order = (geomOf cls).slabOrder) (hsub : b.frames ⊆ freeFrames L)
  (hins : Installed s s' c cls b) {L' : ℕ → List ℕ}
include hs hcls ho hsub hins

lemma isPage_installed {cls' : ℕ} {b' : DyadicBlock} :
    s'.pageMap.IsPage cls' b' ↔ s.pageMap.IsPage cls' b' ∨ (cls' = cls ∧ b' = b) := by
  rw [hins.map]
  refine PageMap.isPage_extend hcls ho (hs.buddy.last_le_of_subset hsub) fun f hf => ?_
  by_contra hne
  exact hs.pages.apart f hne (hsub hf)

/-- The frames of the new page are no longer free. -/
lemma pages_installed (hfree : freeFrames L' = freeFrames L \ b.frames) :
    PagesInv s'.pageMap L' := by
  refine ⟨fun f cls' hf => ?_, fun f hf => ?_⟩
  · rw [hins.map] at hf
    by_cases hin : b.first ≤ f ∧ f < b.last
    · simp only [PageMap.extend, if_pos hin, some.injEq] at hf
      exact ⟨b, hf ▸ (hs.isPage_installed hcls ho hsub hins).mpr (.inr ⟨rfl, rfl⟩), hin⟩
    · simp only [PageMap.extend, if_neg hin] at hf
      obtain ⟨b', hp', hf'⟩ := hs.pages.page f cls' hf
      exact ⟨b', (hs.isPage_installed hcls ho hsub hins).mpr (.inl hp'), hf'⟩
  · rw [hfree]
    rw [hins.map] at hf
    rintro ⟨hmem, hnot⟩
    have hin : ¬ (b.first ≤ f ∧ f < b.last) := hnot
    simp only [PageMap.extend, if_neg hin] at hf
    exact hs.pages.apart f hf hmem

/-- The slots of the new page were nowhere. -/
lemma nowhere_of_fresh (hx : x ∈ pageSlots cls b) : loc x = .nowhere := by
  by_contra hne
  obtain ⟨cls', b', hp', hx'⟩ := (hs.slots.slot x).mp hne
  have hold := (hs.isPage_installed hcls ho hsub hins).mpr (.inl hp')
  have hnew := (hs.isPage_installed hcls ho hsub hins).mpr (.inr ⟨rfl, rfl⟩)
  obtain ⟨_, rfl⟩ := hold.slot_unique hnew hx' hx
  exact hs.addr_ne hsub hp' rfl

section

variable (hempty : (s.cpus c cls).freelist = [])
include hempty

/-- The slots of the new page make up the chain of the CPU. -/
lemma mem_freelist_installed {c' cls' : ℕ} : x ∈ (s'.cpus c' cls').freelist ↔
      if x ∈ pageSlots cls b then c' = c ∧ cls' = cls else x ∈ (s.cpus c' cls').freelist := by
  rw [hins.cpus]
  by_cases hc : c' = c ∧ cls' = cls
  · obtain ⟨rfl, rfl⟩ := hc
    simp [hempty]
  · rw [if_neg hc]
    split_ifs with hx
    · rw [hs.slots.chain, hs.nowhere_of_fresh hcls ho hsub hins hx]
      simp [hc]
    · rfl

lemma slots_installed (hnone : (s.cpus c cls).active = none) :
    SlotsInv s'.pageMap s'.headers s'.cpus (fun cls' => (s.caches cls').full)
      (fun y => if y ∈ pageSlots cls b then .cpu c cls else loc y) := by
  have hcase : ∀ {cls' b'}, s'.pageMap.IsPage cls' b' ↔
      s.pageMap.IsPage cls' b' ∨ (cls' = cls ∧ b' = b) := hs.isPage_installed hcls ho hsub hins
  have hnew : s'.pageMap.IsPage cls b := hcase.mpr (.inr ⟨rfl, rfl⟩)
  have hold : ∀ {cls' b'}, s.pageMap.IsPage cls' b' → s'.pageMap.IsPage cls' b' :=
    fun hp => hcase.mpr (.inl hp)
  have hold_ne : ∀ c' cls', (s.cpus c' cls').active ≠ some (blockAddr b) := by
    intro c' cls' ha
    obtain ⟨b', hp', ha'⟩ := hs.slots.active c' cls' _ ha
    exact hs.addr_ne hsub hp' ha'.symm
  constructor
  case slot =>
    intro y
    by_cases hy : y ∈ pageSlots cls b
    · simp only [if_pos hy, ne_eq, reduceCtorEq, not_false_eq_true, true_iff]
      exact ⟨cls, b, hnew, hy⟩
    · simp only [if_neg hy, hs.slots.slot]
      constructor
      · rintro ⟨cls', b', hp', hy'⟩
        exact ⟨cls', b', hold hp', hy'⟩
      · rintro ⟨cls', b', hp', hy'⟩
        rcases hcase.mp hp' with hp' | ⟨rfl, rfl⟩
        · exact ⟨cls', b', hp', hy'⟩
        · exact absurd hy' hy
  case chain =>
    intro c' cls' y
    rw [hs.mem_freelist_installed hcls ho hsub hins hempty]
    by_cases hy : y ∈ pageSlots cls b
    · simp only [if_pos hy, SlotLoc.cpu.injEq]
      exact ⟨fun hc => ⟨hc.1.symm, hc.2.symm⟩, fun hc => ⟨hc.1.symm, hc.2.symm⟩⟩
    · simp only [if_neg hy]
      exact hs.slots.chain c' cls' y
  case chain_nodup =>
    intro c' cls'
    rw [hins.cpus]
    split
    · exact (geomOk_of_lt cls hcls).slots_nodup _
    · exact hs.slots.chain_nodup c' cls'
  case chain_active =>
    intro c' cls' y hy
    by_cases hm : y ∈ pageSlots cls b
    · rw [if_pos hm] at hy
      obtain ⟨rfl, rfl⟩ := SlotLoc.cpu.inj hy
      exact ⟨b, hnew, hm, (hins.active hnone).mpr (.inr ⟨⟨rfl, rfl⟩, rfl⟩)⟩
    · rw [if_neg hm] at hy
      obtain ⟨b', hp', hy', ha'⟩ := hs.slots.chain_active c' cls' y hy
      exact ⟨b', hold hp', hy', (hins.active hnone).mpr (.inl ha')⟩
  case remote =>
    intro cls' b' hp' y
    rcases hcase.mp hp' with hp' | ⟨rfl, rfl⟩
    · rw [hins.headers _ (hs.addr_ne hsub hp'), hs.slots.remote cls' b' hp']
      by_cases hm : y ∈ pageSlots cls b
      · simp [hm, hs.nowhere_of_fresh hcls ho hsub hins hm]
      · simp [hm]
    · rw [hins.header_remote]
      by_cases hm : y ∈ pageSlots cls' b'
      · simp [hm]
      · simp only [not_mem_nil, if_neg hm, false_iff]
        intro hy
        obtain ⟨cls1, b1, hp1, _, ha1⟩ := hs.slots.remote_page y _ hy
        exact hs.addr_ne hsub hp1 ha1.symm
  case remote_nodup =>
    intro cls' b' hp'
    rcases hcase.mp hp' with hp' | ⟨rfl, rfl⟩
    · rw [hins.headers _ (hs.addr_ne hsub hp')]
      exact hs.slots.remote_nodup cls' b' hp'
    · rw [hins.header_remote]
      exact nodup_nil
  case remote_page =>
    intro y a hy
    by_cases hm : y ∈ pageSlots cls b
    · simp [hm] at hy
    · rw [if_neg hm] at hy
      obtain ⟨cls1, b1, hp1, hs1, ha1⟩ := hs.slots.remote_page y a hy
      exact ⟨cls1, b1, hold hp1, hs1, ha1⟩
  case freelist =>
    intro cls' b' hp'
    rcases hcase.mp hp' with hp' | ⟨rfl, rfl⟩
    · rw [hins.headers _ (hs.addr_ne hsub hp')]
      exact hs.slots.freelist cls' b' hp'
    · exact hins.header_freelist
  case active =>
    intro c' cls' a ha
    obtain ha | ⟨⟨rfl, rfl⟩, rfl⟩ := (hins.active hnone).mp ha
    · obtain ⟨b', hp', ha'⟩ := hs.slots.active c' cls' a ha
      exact ⟨b', hold hp', ha'⟩
    · exact ⟨b, hnew, rfl⟩
  case active_inj =>
    intro c1 c2 cls1 cls2 a h1 h2
    obtain h1 | ⟨⟨rfl, rfl⟩, rfl⟩ := (hins.active hnone).mp h1
    · obtain h2 | ⟨-, rfl⟩ := (hins.active hnone).mp h2
      · exact hs.slots.active_inj c1 c2 cls1 cls2 a h1 h2
      · exact absurd h1 (hold_ne _ _)
    · obtain h2 | ⟨⟨rfl, rfl⟩, -⟩ := (hins.active hnone).mp h2
      · exact absurd h2 (hold_ne _ _)
      · exact ⟨rfl, rfl⟩
  case parked =>
    intro cls' b' hp'
    simp only [hins.active hnone]
    rcases hcase.mp hp' with hp' | ⟨rfl, rfl⟩
    · simp only [hs.addr_ne hsub hp', and_false, or_false]
      exact hs.slots.parked cls' b' hp'
    · refine ⟨fun _ hmem => ?_, fun _ => ⟨c, .inr ⟨⟨rfl, rfl⟩, rfl⟩⟩⟩
      obtain ⟨b1, hp1, ha1⟩ := hs.slots.full_page cls' _ hmem
      exact hs.addr_ne hsub hp1 ha1.symm
  case full_page =>
    intro cls' a ha
    obtain ⟨b', hp', ha'⟩ := hs.slots.full_page cls' a ha
    exact ⟨b', hold hp', ha'⟩

/-- **Fresh page**: a block taken from the buddy allocator becomes the active page of a CPU that
has none, with all its slots on the CPU's chain. -/
lemma fresh (hnone : (s.cpus c cls).active = none) (hinv : BuddyInv s'.pmm L')
    (hfree : freeFrames L' = freeFrames L \ b.frames) :
    SlabInv s' L' (fun y => if y ∈ pageSlots cls b then .cpu c cls else loc y) := by
  have hslots := hs.slots_installed hcls ho hsub hins hempty hnone
  rw [← hins.caches] at hslots
  refine ⟨hinv, ?_, ?_, ?_, fun c' cls' => ?_, hs.pages_installed hcls ho hsub hins hfree, hslots⟩
  · rw [hins.caches]
    exact hs.geom
  · rw [hins.caches]
    exact hs.noPartial
  · rw [hins.caches]
    exact hs.noEmpty
  · rw [hins.cpus]
    split
    · rfl
    · exact hs.noCpuPartial c' cls'

end

end Fresh

end SlabInv

end Makaos
