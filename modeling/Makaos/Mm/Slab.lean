import Makaos.Mm.BuddyRun

/-!
The slab allocator behind `kmalloc`, call by call: the pages of `kernel/mm/pmm.c` and the per-CPU
layer of `kernel/mm/slab_pcpu.c`, with each call run to its end on the CPU it starts on.

A chain of free slots is the list of the addresses it links, a list of pages the list of their
base addresses; the page lists are doubly linked in the source, so that a page is removed from the
middle of one.  Pointers are kept as the physical addresses they name.
-/

namespace Makaos

open Function List
/-! ### Geometry of a cache -/

/-- `KMALLOC_CACHE_COUNT`, which is `SLAB_PCPU_CLASSES`. -/
def kmallocCacheCount : ℕ := 10

/-- `g_kmalloc_sizes`. -/
def kmallocSizes : List ℕ := [8, 16, 32, 64, 128, 256, 512, 1024, 2048, 4096]

/-- `SLAB_MAX_ORDER`. -/
def slabMaxOrder : ℕ := 3

/-- `SLAB_WASTE_FRACTION`. -/
def slabWasteFraction : ℕ := 16

/-- `SLAB_MIN_OBJECTS`. -/
def slabMinObjects : ℕ := 8

/-- `SLAB_PCPU_PARTIAL_DEPTH`. -/
def slabPcpuPartialDepth : ℕ := 16

/-- `sizeof(slab_header_t)`. -/
def slabHeaderSize : ℕ := 88

/-- `align_up_to`: `(value + align - 1) & ~(align - 1)`. -/
def alignUpTo (value align : ℕ) : ℕ :=
  value + align - 1 - ((value + align - 1) &&& (align - 1))

/-- `calculate_slab_order`, `none` for `INVALID_ORDER`. -/
def calculateSlabOrder (slotSize : ℕ) : Option ℕ :=
  let fitting := (range (slabMaxOrder + 1)).find? fun order =>
    let slabSize := pageSize <<< order
    ¬ slabSize < slotSize ∧ slabSize / slotSize ≥ slabMinObjects ∧
      slabSize % slotSize ≤ slabSize / slabWasteFraction
  fitting.or ((range (slabMaxOrder + 1)).find? fun order => pageSize <<< order ≥ slotSize)

/-- What `pmm_slab_cache_init` computes once and for all. -/
structure SlabGeometry where
  slotSize : ℕ
  slabOrder : ℕ
  objPerSlab : ℕ
  cpuPartialCap : ℕ
  deriving DecidableEq, Repr

namespace SlabGeometry

/-- `slab_bytes`. -/
def slabBytes (g : SlabGeometry) : ℕ := pageSize <<< g.slabOrder

/-- `first_slot_off`. -/
def firstSlotOff (g : SlabGeometry) : ℕ := alignUpTo slabHeaderSize g.slotSize

/-- `num_slots`. -/
def numSlots (g : SlabGeometry) : ℕ := (g.slabBytes - g.firstSlotOff) / g.slotSize

/-- The slots of the slab at a base address, in the order in which `pmm_slab_grow_locked` links
them. -/
def slots (g : SlabGeometry) (base : ℕ) : List ℕ :=
  (range g.numSlots).map fun i => base + g.firstSlotOff + i * g.slotSize

end SlabGeometry

/-- `pmm_slab_cache_init`; `INVALID_ORDER` is 255 there. -/
def slabCacheInit (slotSize : ℕ) : SlabGeometry :=
  let slabOrder := (calculateSlabOrder slotSize).getD 255
  let slabBytes := pageSize <<< slabOrder
  let firstSlotOff := alignUpTo slabHeaderSize slotSize
  let numSlots := (slabBytes - firstSlotOff) / slotSize
  let objPerSlab :=
    if firstSlotOff ≥ slabBytes then 0 else if numSlots > 0xFFFF then 0xFFFF else numSlots
  let cap := if objPerSlab ≥ 256 then 13 else if objPerSlab ≥ 32 then 6 else 2
  ⟨slotSize, slabOrder, objPerSlab,
    if cap > slabPcpuPartialDepth then slabPcpuPartialDepth else cap⟩

/-! ### State -/

/-- `enum slab_list_kind`. -/
inductive SlabList where
  | unlisted
  | cachePartial
  | full
  | empty
  | cpuPart
  | cpuActive
  | rcuDefer
  deriving DecidableEq, Repr

/-- `slab_header_t`, without the links of the page lists. -/
structure SlabHeader where
  cache : ℕ
  slabPhys : ℕ
  freelist : List ℕ
  inuse : ℕ
  onList : SlabList
  remoteFree : List ℕ
  deriving DecidableEq, Repr

/-- `slab_cache_t`, without the links of the list of caches. -/
structure SlabCache where
  geom : SlabGeometry
  cachePartial : List ℕ
  full : List ℕ
  empty : List ℕ
  deriving DecidableEq, Repr

/-- `cpu_slot[cls]`, `cpu_slab[cls]` and the list at `partial_head[cls]` of one CPU. -/
structure CpuSlab where
  freelist : List ℕ
  active : Option ℕ
  partialPages : List ℕ
  deriving DecidableEq, Repr

/-- The slab allocator on top of the buddy allocator. -/
structure Slab where
  pmm : Pmm
  /-- the header at the base address of a slab -/
  headers : ℕ → SlabHeader
  /-- `g_slab_trackers`, by frame -/
  trackers : ℕ → Option ℕ
  /-- `g_slab_heads`, by frame -/
  heads : ℕ → ℕ
  /-- the `kmalloc` caches, by class -/
  caches : ℕ → SlabCache
  /-- the per-CPU state, by CPU and class -/
  cpus : ℕ → ℕ → CpuSlab

namespace Slab

/-- Replace the header at a base address. -/
def setHeader (s : Slab) (base : ℕ) (h : SlabHeader) : Slab :=
  { s with headers := update s.headers base h }

/-- Replace a cache. -/
def setCache (s : Slab) (cls : ℕ) (cache : SlabCache) : Slab :=
  { s with caches := update s.caches cls cache }

/-- Replace the state of a CPU for a class. -/
def setCpu (s : Slab) (c cls : ℕ) (cpu : CpuSlab) : Slab :=
  { s with cpus := update s.cpus c (update (s.cpus c) cls cpu) }

/-- The loop that writes the trackers and heads of the frames of a slab. -/
def track (s : Slab) (head n : ℕ) (owner : Option ℕ) (headValue : ℕ) : Slab :=
  { s with
    trackers := fun f =>
      if head ≤ f ∧ f < head + n ∧ f < s.pmm.totalFrames then owner else s.trackers f
    heads := fun f =>
      if head ≤ f ∧ f < head + n ∧ f < s.pmm.totalFrames then headValue else s.heads f }

end Slab

/-- `pmm_mark_allocated`. -/
def Pmm.markAllocated (s : Pmm) (phys order : ℕ) : Pmm :=
  let fi := phys >>> pageShift
  { s with frameRefcount := fun f =>
      if fi ≤ f ∧ f < fi + Pmm.orderToPages order ∧ f < s.totalFrames then 1
      else s.frameRefcount f }

/-- `drain_remote_into_freelist_locked`. -/
def SlabHeader.drainRemote (h : SlabHeader) : SlabHeader :=
  if h.remoteFree = [] then h
  else
    { h with
      remoteFree := []
      freelist := h.remoteFree ++ h.freelist
      inuse := if h.inuse ≥ h.remoteFree.length then h.inuse - h.remoteFree.length else 0 }

namespace Slab

/-! ### Pages -/

/-- `pmm_slab_grow_locked`: a fresh slab, put onto the partial list of the cache. -/
def growLocked (s : Slab) (cls : ℕ) : Except Scribbled (Option ℕ × Slab) :=
  let g := (s.caches cls).geom
  match s.pmm.buddyAllocLocked g.slabOrder with
  | .error e => .error e
  | .ok (none, p) => .ok (none, { s with pmm := p })
  | .ok (some slabPhys, p) =>
    let head := slabPhys >>> pageShift
    let s := { s with pmm := p.markAllocated slabPhys g.slabOrder }
    let s := s.track head (1 <<< g.slabOrder) (some cls) head
    if g.firstSlotOff ≥ g.slabBytes then
      let s := s.track head (1 <<< g.slabOrder) none 0
      match s.pmm.buddyFreeLocked slabPhys g.slabOrder with
      | .error e => .error e
      | .ok p => .ok (none, { s with pmm := p })
    else
      let s := s.setHeader slabPhys ⟨cls, slabPhys, g.slots slabPhys, 0, .cachePartial, []⟩
      let cache := s.caches cls
      .ok (some slabPhys,
        s.setCache cls { cache with cachePartial := slabPhys :: cache.cachePartial })

/-- `pmm_slab_grow`: the fresh slab is taken off the partial list again. -/
def grow (s : Slab) (cls : ℕ) : Except Scribbled (Option ℕ × Slab) :=
  match s.growLocked cls with
  | .error e => .error e
  | .ok (none, s) => .ok (none, s)
  | .ok (some h, s) =>
    let cache := s.caches cls
    let s := s.setCache cls { cache with cachePartial := cache.cachePartial.erase h }
    .ok (some h, s.setHeader h { s.headers h with onList := .unlisted }.drainRemote)

/-- `pmm_slab_grab_empty`. -/
def grabEmpty (s : Slab) (cls : ℕ) : Option ℕ × Slab :=
  let cache := s.caches cls
  match cache.empty with
  | [] => (none, s)
  | h :: rest =>
    let s := s.setCache cls { cache with empty := rest }
    (some h, s.setHeader h { s.headers h with onList := .unlisted }.drainRemote)

/-- `pmm_slab_grab_partial_batch`: the pages it removes, in order. -/
def grabPartialBatch (cls : ℕ) : ℕ → Slab → List ℕ × Slab
  | 0, s => ([], s)
  | want + 1, s =>
    let cache := s.caches cls
    match cache.cachePartial with
    | [] => ([], s)
    | h :: rest =>
      let s := s.setCache cls { cache with cachePartial := rest }
      let s := s.setHeader h { s.headers h with onList := .unlisted }.drainRemote
      let (out, s) := grabPartialBatch cls want s
      (h :: out, s)

/-- `pmm_slab_demote_or_keep`: the rescued chain if the page is kept, `none` if it is parked on
the full list. -/
def demoteOrKeep (s : Slab) (cls base : ℕ) : Option (List ℕ) × Slab :=
  let h := (s.headers base).drainRemote
  if h.freelist ≠ [] then (some h.freelist, s.setHeader base { h with freelist := [] })
  else
    let cache := s.caches cls
    let s := s.setHeader base { h with onList := .full }
    (none, s.setCache cls { cache with full := base :: cache.full })

/-! ### The per-CPU layer -/

/-- `publish_freelist`, the write of the chain into `cpu_slot[cls]`. -/
def publishFreelist (s : Slab) (c cls : ℕ) (fl : List ℕ) : Slab :=
  s.setCpu c cls { s.cpus c cls with freelist := fl }

/-- Step 3a of `slab_refill`: a page of the per-CPU partial list. -/
def popCpuPartial (s : Slab) (c cls : ℕ) : Option ℕ × Slab :=
  let cpu := s.cpus c cls
  match cpu.partialPages with
  | [] => (none, s)
  | page :: rest =>
    let s := s.setCpu c cls { cpu with partialPages := rest }
    (some page, s.setHeader page { s.headers page with onList := .unlisted })

/-- The loop of step 3b that stashes a page on the per-CPU partial list. -/
def stashCpuPartial (s : Slab) (c cls page : ℕ) : Slab :=
  let cpu := s.cpus c cls
  let s := s.setCpu c cls { cpu with partialPages := page :: cpu.partialPages }
  s.setHeader page { s.headers page with onList := .cpuPart }

/-- Step 3b of `slab_refill`: a batch of the cache's partial list. -/
def refillBatch (s : Slab) (c cls : ℕ) : Option ℕ × Slab :=
  let cap := (s.caches cls).geom.cpuPartialCap
  let cap := if cap = 0 then 1 else cap
  let room := slabPcpuPartialDepth - (s.cpus c cls).partialPages.length
  let want := if cap > room + 1 then room + 1 else cap
  match grabPartialBatch cls want s with
  | ([], s) => (none, s)
  | (page :: rest, s) => (some page, rest.foldl (fun s h => s.stashCpuPartial c cls h) s)

/-- Step 3 of `slab_refill`: the sources of a page, in order. -/
def acquirePage (s : Slab) (c cls : ℕ) : Except Scribbled (Option ℕ × Slab) :=
  match s.popCpuPartial c cls with
  | (some page, s) => .ok (some page, s)
  | (none, s) =>
    match s.refillBatch c cls with
    | (some page, s) => .ok (some page, s)
    | (none, s) =>
      match s.grabEmpty cls with
      | (some page, s) => .ok (some page, s)
      | (none, s) => s.grow cls

/-- Step 5 of `slab_refill`: promote the page and publish its chain. -/
def promote (s : Slab) (c cls page : ℕ) : Slab :=
  let h := s.headers page
  let s := s.setHeader page
    { h with onList := .cpuActive, inuse := (s.caches cls).geom.objPerSlab, freelist := [] }
  let s := s.setCpu c cls { s.cpus c cls with active := some page }
  s.publishFreelist c cls h.freelist

/-- Steps 1 and 2 of `slab_refill`: `true` if the active page was kept and its chain published. -/
def rescueOrDemote (s : Slab) (c cls : ℕ) : Bool × Slab :=
  match (s.cpus c cls).active with
  | none => (false, s)
  | some active =>
    match s.demoteOrKeep cls active with
    | (some fl, s) => (true, s.publishFreelist c cls fl)
    | (none, s) => (false, s.setCpu c cls { s.cpus c cls with active := none })

/-- `slab_refill` up to the point where it retries the fast path; `false` if it is out of
memory. -/
def refill (s : Slab) (c cls : ℕ) : Except Scribbled (Bool × Slab) :=
  match s.rescueOrDemote c cls with
  | (true, s) => .ok (true, s)
  | (false, s) =>
    match s.acquirePage c cls with
    | .error e => .error e
    | .ok (none, s) => .ok (false, s.publishFreelist c cls [])
    | .ok (some page, s) => .ok (true, s.promote c cls page)

/-- The mutual recursion of `slab_pcpu_alloc` and `slab_refill`. -/
def allocLoop : ℕ → Slab → ℕ → ℕ → Except Scribbled (Option ℕ × Slab)
  | 0, s, _, _ => .ok (none, s)
  | fuel + 1, s, c, cls =>
    let cpu := s.cpus c cls
    match cpu.freelist with
    | slot :: next => .ok (some slot, s.setCpu c cls { cpu with freelist := next })
    | [] =>
      match s.refill c cls with
      | .error e => .error e
      | .ok (false, s) => .ok (none, s)
      | .ok (true, s) => allocLoop fuel s c cls

/-- `slab_pcpu_alloc` on a CPU.  A round that does not end the loop uses up a page of one of the
partial lists or of the empty list, or takes a fresh one, whose chain is not empty. -/
def pcpuAlloc (s : Slab) (c cls : ℕ) : Except Scribbled (Option ℕ × Slab) :=
  if cls ≥ kmallocCacheCount then .ok (none, s)
  else
    let cache := s.caches cls
    allocLoop ((s.cpus c cls).partialPages.length + cache.cachePartial.length +
      cache.empty.length + 3) s c cls

/-- `pmm_slab_header_of`: the base address of the slab a pointer lies in. -/
def headerOf (s : Slab) (ptr : ℕ) : Option ℕ :=
  let fi := ptr >>> pageShift
  if fi ≥ s.pmm.totalFrames then none
  else if s.trackers fi = none then none
  else some (s.heads fi <<< pageShift)

/-- `pmm_is_slab_ptr`. -/
def isSlabPtr (s : Slab) (ptr : ℕ) : Bool :=
  let fi := ptr >>> pageShift
  if fi ≥ s.pmm.totalFrames then false else (s.trackers fi).isSome

/-- `slab_pcpu_free` on a CPU: onto the CPU's chain if the page is the active one there, onto the
page's remote stack otherwise.  The class of a `kmalloc` cache is always below
`SLAB_PCPU_CLASSES`. -/
def pcpuFree (s : Slab) (c ptr : ℕ) : Slab :=
  match s.headerOf ptr with
  | none => s
  | some h =>
    let header := s.headers h
    let cls := header.cache
    let cpu := s.cpus c cls
    if cpu.active = some h then s.setCpu c cls { cpu with freelist := ptr :: cpu.freelist }
    else s.setHeader h { header with remoteFree := ptr :: header.remoteFree }

end Slab

/-- `kheap_init` and the zeroed per-CPU state, over a buddy allocator. -/
def Slab.init (pmm : Pmm) : Slab where
  pmm := pmm
  headers := fun _ => ⟨0, 0, [], 0, .unlisted, []⟩
  trackers := fun _ => none
  heads := fun _ => 0
  caches := fun cls => ⟨slabCacheInit (kmallocSizes.getD cls 0), [], [], []⟩
  cpus := fun _ _ => ⟨[], none, []⟩

end Makaos
