import Makaos.Common
import Makaos.Lib.IntrusiveList
import Makaos.Lib.WordBitmap

/-!
The buddy allocator of `kernel/mm/pmm.c`, translated: the free lists that are threaded through
the first words of the free frames, the coalesce bitmaps, and the two entry points
`pmm_buddy_alloc_locked` and `pmm_buddy_free_locked`.

A pointer into the direct map is kept as the physical address it names, `none` for the null
pointer.  Block indices stay below `MAX_FRAMES`, so none of the shifts wraps.
-/

namespace Makaos

open Function
open IntrusiveList (Links)

/-- `MAX_ORDER`. -/
def maxOrder : ℕ := 32

/-- `MAX_FRAMES`: the frames of `MAX_RAM_BYTES`, which is 64 GiB. -/
def maxFrames : ℕ := 64 * 1024 * 1024 * 1024 / pageSize

/-- The list operation that found a clobbered overlay, the `who` of `free_frame_scribbled`. -/
inductive ListOp where
  | remove
  | pop
  deriving DecidableEq, Repr

/-- The panic of `free_frame_scribbled`: "write-after-free into a free frame (overlay
clobbered)", with the frame it dumps. -/
structure Scribbled where
  frame : ℕ
  who : ListOp
  deriving DecidableEq, Repr

/-- The globals of the physical memory manager that the buddy allocator reads and writes. -/
structure Pmm where
  /-- `g_phys_ceiling` -/
  physCeiling : ℕ
  /-- `g_total_frames` -/
  totalFrames : ℕ
  /-- `g_free_pages` -/
  freePages : BitVec 64
  /-- the `free_block_t` in the first bytes of the frame at an address -/
  overlay : ℕ → Links ℕ
  /-- `g_free_lists` -/
  freeLists : ℕ → Option ℕ
  /-- `g_buddy_coalesce`, by order and word -/
  coalesce : ℕ → ℕ → BitVec 64
  /-- `g_buddy_blocks` -/
  buddyBlocks : ℕ → ℕ
  /-- `g_frame_refcount` -/
  frameRefcount : ℕ → ℕ

namespace Pmm

/-- `order_to_pages`. -/
def orderToPages (order : ℕ) : ℕ := 1 <<< order

/-- `bit_toggle` on the coalesce bitmap of an order. -/
def bitToggle (s : Pmm) (order pair : ℕ) : Pmm :=
  { s with coalesce := update s.coalesce order (WordBitmap.toggle (s.coalesce order) pair) }

/-- `bit_test` on the coalesce bitmap of an order. -/
def bitTest (s : Pmm) (order pair : ℕ) : Bool := WordBitmap.test (s.coalesce order) pair

/-- `overlay_ptr_ok`: a link is null or points into the direct map of physical memory. -/
def overlayPtrOk (s : Pmm) : Option ℕ → Bool
  | none => true
  | some p => p < s.physCeiling

/-- `free_list_push`. -/
def freeListPush (s : Pmm) (order phys : ℕ) : Pmm :=
  let (mem, head) := IntrusiveList.push s.overlay (s.freeLists order) phys
  { s with overlay := mem, freeLists := update s.freeLists order head }

/-- `free_list_remove`. -/
def freeListRemove (s : Pmm) (order phys : ℕ) : Except Scribbled Pmm :=
  if !s.overlayPtrOk (s.overlay phys).next || !s.overlayPtrOk (s.overlay phys).prev then
    .error ⟨phys, .remove⟩
  else
    let (mem, head) := IntrusiveList.remove s.overlay (s.freeLists order) phys
    .ok { s with overlay := mem, freeLists := update s.freeLists order head }

/-- `free_list_pop`, `none` for `PMM_INVALID_ADDR`. -/
def freeListPop (s : Pmm) (order : ℕ) : Except Scribbled (Option ℕ × Pmm) :=
  match s.freeLists order with
  | none => .ok (none, s)
  | some node =>
    if !s.overlayPtrOk (s.overlay node).next || !s.overlayPtrOk (s.overlay node).prev then
      .error ⟨node, .pop⟩
    else
      let (mem, head) := IntrusiveList.pop s.overlay node
      .ok (some node, { s with overlay := mem, freeLists := update s.freeLists order head })

/-! ### Allocation -/

/-- The search for the smallest order from `current` on whose list is not empty;
`maxOrder + 1` if there is none. -/
def findOrder (s : Pmm) : ℕ → ℕ → ℕ
  | 0, current => current
  | fuel + 1, current =>
    if current ≤ maxOrder then
      if (s.freeLists current).isSome then current else findOrder s fuel (current + 1)
    else current

/-- The split loop: from the held block of order `current` down to `order`, the right half goes
onto its free list and the left half is kept. -/
def splitDown (order : ℕ) : ℕ → Pmm → ℕ → Pmm
  | 0, s, _ => s
  | current + 1, s, blockIndex =>
    if order < current + 1 then
      let buddyBlockIndex := (blockIndex <<< 1) + 1
      let buddyPhys := (buddyBlockIndex <<< current) <<< pageShift
      let s := s.freeListPush current buddyPhys
      let s := s.bitToggle current (buddyBlockIndex >>> 1)
      splitDown order current s (blockIndex <<< 1)
    else s

/-- `pmm_buddy_alloc_locked`, `none` for `PMM_INVALID_ADDR`. -/
def buddyAllocLocked (s : Pmm) (order : ℕ) : Except Scribbled (Option ℕ × Pmm) :=
  if order > maxOrder then .ok (none, s)
  else
    let current := s.findOrder (maxOrder + 1) order
    if current > maxOrder then .ok (none, s)
    else
      match s.freeListPop current with
      | .error e => .error e
      | .ok (none, s) => .ok (none, s)
      | .ok (some phys, s) =>
        let blockIndex := (phys >>> pageShift) >>> current
        let s := s.bitToggle current (blockIndex >>> 1)
        let s := splitDown order current s blockIndex
        .ok (some phys, { s with freePages := s.freePages - BitVec.ofNat 64 (orderToPages order) })

/-! ### Release -/

/-- The loop that clears the reference counts of a freed block. -/
def clearRefcounts (s : Pmm) (frameIndex n : ℕ) : Pmm :=
  { s with frameRefcount := fun f =>
      if frameIndex ≤ f ∧ f < frameIndex + n ∧ f < s.totalFrames then 0 else s.frameRefcount f }

/-- `addr & ~(1ULL << bit)`. -/
def clearBit (addr bit : ℕ) : ℕ := addr - (addr >>> bit) % 2 * 2 ^ bit

/-- The merge loop: as long as the toggled bit says that the buddy is free too, take the buddy
off its list and go on with the parent; then push what is held. -/
def mergeUp : ℕ → Pmm → ℕ → ℕ → ℕ → Except Scribbled Pmm
  | 0, s, order, _, addr => .ok (s.freeListPush order addr)
  | fuel + 1, s, order, blockIndex, addr =>
    if order < maxOrder then
      let pairIndex := blockIndex >>> 1
      if pairIndex ≥ (s.buddyBlocks order + 1) >>> 1 then .ok (s.freeListPush order addr)
      else
        let s := s.bitToggle order pairIndex
        -- the pair differs now, so the buddy is in use
        if s.bitTest order pairIndex then .ok (s.freeListPush order addr)
        else
          let buddyPhys := ((blockIndex ^^^ 1) <<< order) <<< pageShift
          match s.freeListRemove order buddyPhys with
          | .error e => .error e
          | .ok s =>
            mergeUp fuel s (order + 1) (blockIndex >>> 1) (clearBit addr (pageShift + order))
    else .ok (s.freeListPush order addr)

/-- `pmm_buddy_free_locked`. -/
def buddyFreeLocked (s : Pmm) (addr order : ℕ) : Except Scribbled Pmm :=
  if order > maxOrder then .ok s
  else
    let frameIndex := addr >>> pageShift
    if frameIndex ≥ s.totalFrames then .ok s
    else
      let s := s.clearRefcounts frameIndex (orderToPages order)
      let blockIndex := frameIndex >>> order
      if blockIndex ≥ s.buddyBlocks order then .ok s
      else mergeUp (maxOrder - order) s order blockIndex addr

end Pmm

end Makaos
