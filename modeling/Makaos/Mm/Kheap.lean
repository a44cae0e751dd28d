import Makaos.Mm.Slab

/-!
`kmalloc` and `kfree` of `kernel/mm/kheap.c`, with the public page allocator `pmm_buddy_alloc` and
`pmm_buddy_free` of `kernel/mm/pmm.c` under them, call by call.

Orders 1 and up go to the buddy allocator; order 0 goes through the per-CPU stash of
`kernel/mm/pcp.c`.  A call is run to its end on its CPU, so the stash is a list, its top first.
`mem` holds the bytes of memory that belong to nobody's bookkeeping but the holders' own; the
order that `kmalloc` writes in front of a large block is one of them.
-/

namespace Makaos

/-- `SLAB_PCPU_PCP_DEPTH`. -/
def pcpDepth : ℕ := 64

/-- `SLAB_PCPU_PCP_REFILL`. -/
def pcpRefill : ℕ := 32

/-- The heap: the slab allocator with the buddy allocator in it, the stash of order-0 frames of
each CPU, and the bytes of memory. -/
structure Kheap where
  slab : Slab
  stash : ℕ → List ℕ
  mem : ℕ → ℕ

/-- The `__atomic_fetch_add` on `g_free_pages` after a block was freed. -/
def Pmm.addFreePages (p : Pmm) (order : ℕ) : Pmm :=
  { p with freePages := p.freePages + BitVec.ofNat 64 (Pmm.orderToPages order) }

namespace Kheap

/-- Replace the buddy allocator. -/
def setPmm (k : Kheap) (p : Pmm) : Kheap := { k with slab := { k.slab with pmm := p } }

/-- Replace the stash of a CPU. -/
def setStash (k : Kheap) (c : ℕ) (l : List ℕ) : Kheap :=
  { k with stash := Function.update k.stash c l }

/-! ### Order 0 -/

/-- The batch loop of `pcp_refill_one`. -/
def takeBatch : ℕ → Pmm → Except Scribbled (List ℕ × Pmm)
  | 0, p => .ok ([], p)
  | n + 1, p =>
    match p.buddyAllocLocked 0 with
    | .error e => .error e
    | .ok (none, p) => .ok ([], p)
    | .ok (some a, p) =>
      match takeBatch n p with
      | .error e => .error e
      | .ok (batch, p) => .ok (a :: batch, p)

/-- `pcp_alloc`: the top of the stash; if the stash is empty, the last frame of a batch, whose
other frames become the stash. -/
def pcpAlloc (k : Kheap) (c : ℕ) : Except Scribbled (Option ℕ × Kheap) :=
  match k.stash c with
  | p :: rest => .ok (some p, k.setStash c rest)
  | [] =>
    match takeBatch pcpRefill k.slab.pmm with
    | .error e => .error e
    | .ok (batch, p) =>
      let k := k.setPmm p
      match batch.getLast? with
      | none => .ok (none, k)
      | some result => .ok (some result, k.setStash c batch.dropLast)

/-- `pmm_ref_zero`. -/
def refZero (p : Pmm) (addr : ℕ) : Pmm :=
  let fi := addr >>> pageShift
  { p with frameRefcount := fun f =>
      if f = fi ∧ fi < p.totalFrames then 0 else p.frameRefcount f }

/-- `pmm_buddy_free_locked_for_pcp`. -/
def freeForPcp (p : Pmm) (addr : ℕ) : Except Scribbled Pmm :=
  match p.buddyFreeLocked addr 0 with
  | .error e => .error e
  | .ok p => .ok (p.addFreePages 0)

/-- `pcp_drain_one`. -/
def pcpDrainOne (k : Kheap) (c howMany : ℕ) : Except Scribbled Kheap :=
  match ((k.stash c).take howMany).foldlM freeForPcp k.slab.pmm with
  | .error e => .error e
  | .ok p => .ok ((k.setPmm p).setStash c ((k.stash c).drop howMany))

/-- `pcp_free`: a full stash is drained by half first. -/
def pcpFree (k : Kheap) (c phys : ℕ) : Except Scribbled Kheap :=
  let k := k.setPmm (refZero k.slab.pmm phys)
  if (k.stash c).length ≥ pcpDepth then
    match k.pcpDrainOne c pcpRefill with
    | .error e => .error e
    | .ok k => .ok (k.setStash c (phys :: k.stash c))
  else .ok (k.setStash c (phys :: k.stash c))

/-! ### The public page allocator -/

/-- `pmm_slab_destroy_locked` for a page on the empty list of a `kmalloc` cache, whose flags are
zero. -/
def destroyLocked (cls : ℕ) (s : Slab) (h : ℕ) : Except Scribbled Slab :=
  let s := s.setHeader h (s.headers h).drainRemote
  let cache := s.caches cls
  let s := s.setCache cls { cache with empty := cache.empty.erase h }
  let s := s.setHeader h { s.headers h with onList := .unlisted }
  let s := s.track (h >>> pageShift) (1 <<< cache.geom.slabOrder) none 0
  match s.pmm.buddyFreeLocked h cache.geom.slabOrder with
  | .error e => .error e
  | .ok p => .ok { s with pmm := p.addFreePages cache.geom.slabOrder }

/-- `pmm_slab_shrink_all_locked` over the `kmalloc` caches. -/
def shrinkAllLocked (s : Slab) : Except Scribbled Slab :=
  (List.range kmallocCacheCount).foldlM
    (fun s cls => (s.caches cls).empty.foldlM (destroyLocked cls) s) s

/-- The part of `pmm_buddy_alloc` under the lock: one retry after the slabs were shrunk. -/
def allocLocked (k : Kheap) (order : ℕ) : Except Scribbled (Option ℕ × Kheap) :=
  match k.slab.pmm.buddyAllocLocked order with
  | .error e => .error e
  | .ok (some r, p) => .ok (some r, k.setPmm (p.markAllocated r order))
  | .ok (none, p) =>
    match shrinkAllLocked { k.slab with pmm := p } with
    | .error e => .error e
    | .ok s =>
      match s.pmm.buddyAllocLocked order with
      | .error e => .error e
      | .ok (none, p) => .ok (none, { k with slab := { s with pmm := p } })
      | .ok (some r, p) =>
        .ok (some r, { k with slab := { s with pmm := p.markAllocated r order } })

/-- `pmm_buddy_alloc`. -/
def pmmBuddyAlloc (k : Kheap) (c order : ℕ) : Except Scribbled (Option ℕ × Kheap) :=
  if order = 0 then
    match k.pcpAlloc c with
    | .error e => .error e
    | .ok (some r, k) => .ok (some r, k.setPmm (k.slab.pmm.markAllocated r 0))
    | .ok (none, k) => k.allocLocked order
  else k.allocLocked order

/-- `pmm_buddy_free`. -/
def pmmBuddyFree (k : Kheap) (c addr order : ℕ) : Except Scribbled Kheap :=
  if order = 0 then k.pcpFree c addr
  else
    match k.slab.pmm.buddyFreeLocked addr order with
    | .error e => .error e
    | .ok p => .ok (k.setPmm (p.addFreePages order))

/-! ### `kmalloc` and `kfree` -/

/-- `pick_cache_idx`, `none` for `UINT64_MAX`. -/
def pickCacheIdx (size : ℕ) : Option ℕ := kmallocSizes.findIdx? fun slotSize => size ≤ slotSize

/-- `size_to_order`; `64 - __builtin_clzll(size - 1)` is the length of `size - 1` in binary. -/
def sizeToOrder (size : ℕ) : ℕ :=
  if size ≤ pageSize then 0 else (size - 1).log2 + 1 - pageShift

/-- `kmalloc`, `none` for the null pointer. -/
def kmalloc (k : Kheap) (c size : ℕ) : Except Scribbled (Option ℕ × Kheap) :=
  match pickCacheIdx size with
  | some idx =>
    match k.slab.pcpuAlloc c idx with
    | .error e => .error e
    | .ok (r, s) => .ok (r, { k with slab := s })
  | none =>
    let order := sizeToOrder (wrap (size + 8))
    match k.pmmBuddyAlloc c order with
    | .error e => .error e
    | .ok (none, k) => .ok (none, k)
    | .ok (some raw, k) =>
      .ok (some (raw + 16), { k with mem := Function.update k.mem raw (order % 2 ^ 8) })

/-- `kfree` of a pointer that is not null. -/
def kfree (k : Kheap) (c addr : ℕ) : Except Scribbled Kheap :=
  if k.slab.isSlabPtr addr then .ok { k with slab := k.slab.pcpuFree c addr }
  else
    let raw := addr - 16
    k.pmmBuddyFree c raw (k.mem raw)

/-- The heap as `kheap_init` leaves it. -/
def init (pmm : Pmm) (mem : ℕ → ℕ) : Kheap := ⟨Slab.init pmm, fun _ => [], mem⟩

end Kheap

end Makaos
