import Makaos.Mm.AddressSpace
import Mathlib.Data.List.AList

/-!
User memory of the whole machine: the address spaces, the page cache (`kernel/mm/pcache.c`) and the
shared objects (`kernel/mm/shmem.c`) over the frames of physical memory.

* `PteMap`: the present entries of an address space by page number, as `pteAt` gives them; the
  frames of the tables are not modelled again here.
* `World`: the state.
* `pcacheGet`, `pcacheInsert`, `pcacheEvictInode`, `pcacheEvictOne`: the page cache.
* `shmemGetPage`, `shmemResize`, `shmemFree`: the shared objects.
-/

namespace Makaos

open Function Nat
variable {i : ℕ}
/-! ### The state -/

/-- The present entries of an address space, by page number. -/
abbrev PteMap := AList fun _ : ℕ => Pte

/-- An address space: the `mm_t` and the entries of its page tables. -/
structure AddrSpace where
  mm : Mm
  pt : PteMap

/-- `pcache_entry_t`. -/
structure CacheEntry where
  ino : ℕ
  pgIdx : ℕ
  frame : ℕ
  accessed : Bool
  deriving DecidableEq, Repr

/-- `shmem_t`: the pages that have been touched are there. -/
structure Shmem where
  pages : List (Option ℕ)
  maxPages : ℕ
  deriving DecidableEq, Repr

/-- An open file as the page-fault handler reads it. -/
structure File where
  /-- 0 for a file that is not on ext2 -/
  ino : ℕ
  size : ℕ
  data : ℕ → UInt8

/-- The state of user memory, with the outcomes of the coming calls that can fail. -/
structure World where
  mem : PhysMem
  /-- the CLOCK ring from the hand on; the hash chains hold the same entries -/
  cache : List CacheEntry
  /-- the shared objects; an object that has been freed is `none` -/
  shmems : List (Option Shmem)
  files : ℕ → File
  spaces : List AddrSpace
  kmalloc : Outcomes
  /-- whether the page tables for an entry are there or can be made -/
  tables : Outcomes
  /-- the outcomes of disk reads -/
  reads : Outcomes

namespace PhysMem

/-- `memcpy` of a frame. -/
def copyFrame (m : PhysMem) (dst src : ℕ) : PhysMem :=
  { m with bytes := update m.bytes dst (m.bytes src) }

/-- The first `n` bytes of a frame are read from a file. -/
def readInto (m : PhysMem) (f n : ℕ) (data : ℕ → UInt8) : PhysMem :=
  { m with bytes := update m.bytes f fun j => if j < n then data j else m.bytes f j }

lemma zeroFrame_self (m : PhysMem) (f : ℕ) : (m.zeroFrame f).bytes f = fun _ => 0 :=
  update_self ..

lemma copyFrame_self (m : PhysMem) (dst src : ℕ) : (m.copyFrame dst src).bytes dst = m.bytes src :=
  update_self ..

lemma readInto_self (m : PhysMem) (f n : ℕ) (data : ℕ → UInt8) :
    (m.readInto f n data).bytes f = fun j => if j < n then data j else m.bytes f j :=
  update_self ..

lemma refInc_spec (m : PhysMem) (f : ℕ) : (m.refInc f).bytes = m.bytes ∧
    (m.refInc f).free = m.free ∧ (m.refInc f).picks = m.picks := by
  rw [refInc]
  split <;> exact ⟨rfl, rfl, rfl⟩

lemma refDec_mono (m : PhysMem) (f : ℕ) :
    (m.refDec f).picks = m.picks ∧ m.free ⊆ (m.refDec f).free := by
  rw [refDec]
  split
  next => exact ⟨rfl, fun _ => id⟩
  next hlt =>
    split
    · exact ⟨rfl, fun _ => id⟩
    · dsimp only
      split
      case isFalse => exact ⟨rfl, fun _ => id⟩
      case isTrue =>
        split
        · exact ⟨rfl, fun _ => id⟩
        · rw [buddyFree, if_neg hlt]
          exact ⟨rfl, Finset.subset_insert _ _⟩

variable {m : PhysMem}

lemma refInc_refs {f : ℕ} (hlt : f < m.totalFrames) :
    m.refInc f = { m with refs := update m.refs f (m.refs f + 1) } :=
  if_neg (not_le.mpr hlt)

/-- A reference is dropped; with the last one the frame becomes free, unless it is pinned. -/
lemma refDec_refs {f : ℕ} (hlt : f < m.totalFrames) (hpos : 0 < m.refs f) : m.refDec f = { m with
      refs := update m.refs f (m.refs f - 1)
      free := if m.refs f = 1 ∧ m.pins f = 0 then insert f m.free else m.free } := by
  rw [refDec, if_neg (not_le.mpr hlt), if_neg (pos_iff_ne_zero.mp hpos)]
  dsimp only
  split
  case isFalse hmore =>
    rw [update_self] at hmore
    rw [if_neg (by omega)]
  case isTrue hlast =>
    rw [update_self] at hlast
    have hone : m.refs f = 1 := by omega
    split
    next hpin => rw [if_neg (by omega)]
    next hpin =>
      rw [if_pos ⟨hone, by omega⟩, buddyFree, if_neg (not_le.mpr hlt), hlast]
      simp only [update_idem]

end PhysMem

namespace World

/-- An operation on physical memory. -/
def onMem (w : World) (g : PhysMem → PhysMem) : World := { w with mem := g w.mem }

/-- `pmm_buddy_alloc(0)`. -/
def alloc (w : World) : Option ℕ × World := (w.mem.alloc.1, { w with mem := w.mem.alloc.2 })

/-- The state after an allocation. -/
def taking (w : World) (f : ℕ) : World :=
  { w with mem := { w.mem with
    free := w.mem.free.erase f
    picks := w.mem.picks.tail
    refs := update w.mem.refs f 1 } }

lemma alloc_cases (w : World) :
    w.alloc = (none, { w with mem := { w.mem with picks := w.mem.picks.tail } }) ∨
      ∃ f ∈ w.mem.free, w.alloc = (some f, w.taking f) := by
  rcases w.mem.alloc_cases with hal | ⟨f, hf, hal⟩
  · left
    rw [alloc, hal]
  · right
    exact ⟨f, hf, by rw [alloc, hal]; rfl⟩

/-- `pmm_ref_inc`. -/
def refInc (w : World) (f : ℕ) : World := w.onMem (·.refInc f)

/-- `pmm_ref_dec`. -/
def refDec (w : World) (f : ℕ) : World := w.onMem (·.refDec f)

/-- Replace an address space. -/
def setSpace (w : World) (i : ℕ) (sp : AddrSpace) : World := { w with spaces := w.spaces.set i sp }

/-- The entry of a page. -/
def entry (w : World) (i n : ℕ) : Option Pte := (w.spaces[i]?).bind fun sp => sp.pt.lookup n

variable {w : World} {sp : AddrSpace}

lemma entry_setSpace {i n : ℕ} (hs : w.spaces[i]? = some sp)
    (sp' : AddrSpace) : (w.setSpace i sp').entry i n = sp'.pt.lookup n := by
  obtain ⟨hlt, -⟩ := List.getElem?_eq_some_iff.mp hs
  rw [entry, setSpace, List.getElem?_set_self hlt]
  rfl

lemma entry_setSpace_ne {j : ℕ} (hne : j ≠ i) (n : ℕ) (sp : AddrSpace) :
    (w.setSpace i sp).entry j n = w.entry j n := by
  rw [entry, setSpace, List.getElem?_set_ne hne.symm]
  rfl

lemma entry_of_space (hs : w.spaces[i]? = some sp) (n : ℕ) :
    w.entry i n = sp.pt.lookup n := by rw [entry, hs]; rfl

/-! ### The page cache -/

/-- The entry of a page of a file. -/
def cacheFind (w : World) (ino idx : ℕ) : Option CacheEntry :=
  w.cache.find? fun e => e.ino = ino ∧ e.pgIdx = idx

/-- Mark an entry as recently used. -/
def touch (w : World) (ino idx : ℕ) : World :=
  { w with cache := w.cache.map fun e =>
      if e.ino = ino ∧ e.pgIdx = idx then { e with accessed := true } else e }

/-- `pcache_get`: the frame, with a reference for the caller. -/
def pcacheGet (w : World) (ino idx : ℕ) : Option ℕ × World :=
  if ino = 0 then (none, w)
  else
    match w.cacheFind ino idx with
    | none => (none, w)
    | some e => (some e.frame, (w.touch ino idx).refInc e.frame)

/-- `pcache_insert`: the frame the caller has a reference to afterwards. -/
def pcacheInsert (w : World) (ino idx frame : ℕ) : Option ℕ × World :=
  if ino = 0 then (none, w)
  else
    match w.kmalloc.next with
    | (false, ks) => (none, { w with kmalloc := ks })
    | (true, ks) =>
      let w := { w with kmalloc := ks }
      match w.cacheFind ino idx with
      | some e => (some e.frame, (w.refInc e.frame).refDec frame)
      | none =>
        let w := w.refInc frame
        (some frame, { w with cache := w.cache ++ [⟨ino, idx, frame, true⟩] })

/-- `pcache_evict_inode`. -/
def pcacheEvictInode (w : World) (ino : ℕ) : World :=
  if ino = 0 then w
  else
    let gone := (w.cache.filter fun e => e.ino = ino).map CacheEntry.frame
    let w := { w with cache := w.cache.filter fun e => e.ino ≠ ino }
    gone.foldl World.refDec w

/-- The loop of `pcache_evict_one`: the ring afterwards and the frame of the victim. -/
def evictLoop (m : PhysMem) : ℕ → List CacheEntry → List CacheEntry × Option ℕ
  | 0, ring => (ring, none)
  | _ + 1, [] => ([], none)
  | n + 1, cand :: ring =>
    if cand.accessed then evictLoop m n (ring ++ [{ cand with accessed := false }])
    else if m.refs cand.frame > 1 then evictLoop m n (ring ++ [{ cand with accessed := true }])
    else (ring, some cand.frame)

/-- `pcache_evict_one`. -/
def pcacheEvictOne (w : World) : Bool × World :=
  let limit := max (w.cache.length * 2) 2
  match evictLoop w.mem limit w.cache with
  | (ring, none) => (false, { w with cache := ring })
  | (ring, some frame) => (true, { w with cache := ring }.refDec frame)

/-! ### Shared objects -/

/-- The object, if it is alive (`shmem_tryget`). -/
def shmem (w : World) (o : ℕ) : Option Shmem := (w.shmems[o]?).join

/-- Replace an object. -/
def setShmem (w : World) (o : ℕ) (s : Option Shmem) : World := { w with shmems := w.shmems.set o s }

/-- `shmem_get_page`: the frame, with a reference for the caller's entry. -/
def shmemGetPage (w : World) (o idx : ℕ) : Option ℕ × World :=
  match w.shmem o with
  | none => (none, w)
  | some s =>
    match s.pages[idx]? with
    | none => (none, w)
    | some (some f) => (some f, w.refInc f)
    | some none =>
      match w.alloc with
      | (none, w) => (none, w)
      | (some f, w) =>
        let w := w.onMem (·.zeroFrame f)
        (some f, (w.setShmem o (some { s with pages := s.pages.set idx (some f) })).refInc f)

/-- `SHMEM_MAX_PAGES`. -/
def shmemMaxPages : ℕ := 1024 * 1024 * 1024 / pageSize

/-- The loop that doubles the capacity. -/
def growCap (need : ℕ) : ℕ → ℕ → ℕ
  | 0, cap => cap
  | fuel + 1, cap => if cap < need then growCap need fuel (if cap = 0 then 1 else cap * 2) else cap

/-- `shmem_resize`. -/
def shmemResize (w : World) (o n : ℕ) : Except Errno Unit × World :=
  match w.shmem o with
  | none => (.error .EINVAL, w)
  | some s =>
    if n > shmemMaxPages then (.error .EINVAL, w)
    else if n = s.pages.length then (.ok (), w)
    else if n < s.pages.length then
      let w := w.setShmem o (some { s with pages := s.pages.take n })
      (.ok (), (s.pages.drop n).reduceOption.foldl World.refDec w)
    else
      let grown := s.pages ++ List.replicate (n - s.pages.length) none
      if n > s.maxPages then
        let cap := min (growCap n n s.maxPages) shmemMaxPages
        if cap < n then (.error .EINVAL, w)
        else
          match w.kmalloc.next with
          | (false, ks) => (.error .ENOMEM, { w with kmalloc := ks })
          | (true, ks) =>
            (.ok (), { w with kmalloc := ks }.setShmem o (some ⟨grown, cap⟩))
      else (.ok (), w.setShmem o (some { s with pages := grown }))

/-- `shmem_free_rcu`: the last reference to the object is gone. -/
def shmemFree (w : World) (o : ℕ) : World :=
  match w.shmem o with
  | none => w
  | some s => s.pages.reduceOption.foldl World.refDec (w.setShmem o none)

end World

end Makaos
