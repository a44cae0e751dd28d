import Makaos.Lib.Holders
import Makaos.Lib.Transition

/-!
The inode cache of `ext2.c`: `irtree_lookup`, `irtree_alloc_with_ref`, `inode_lock`, `inode_unlock`,
`inode_writeback`, `irtree_get` and `irtree_shrink`, one locked section, one reference-count update
and one disk transfer at a time.

A leaf is named by a number of its own, never used again. A thread is one `inode_lock`/`inode_unlock`
bracket: a processor inside two of them counts as two. The tables of the second level are only
arrays of slots and are left out; the inode table of the disk is a function of inode numbers.

* `slotOf`: where a leaf is kept, by 16 bits of the inode number.
* `irtreeStep`: the steps of the threads and of the RCU callbacks.
* `CacheGood`: **what `inode_lock` returns, and which leaves there are.**
* `Undisturbed`: no two inodes meet in a slot, and no leaf goes between lookup and reference.
-/

namespace Makaos.Irtree

open Function
open Holders (holders)

/-- `irtree_leaf_t`. `writer` is the holder of the write side of its seqlock; `freed` tells whether
`irtree_leaf_free_cb` has run. -/
structure Leaf (ι α : Type*) where
  ino : ℕ
  inode : α
  valid : Bool
  refcount : ℕ
  writer : Option ι
  freed : Bool

/-- Where a thread is. -/
inductive Pc (α : Type*) where
  | idle
  /-- `inode_lock`, still a reader: found the leaf, takes the reference. -/
  | found (ino l : ℕ)
  /-- `irtree_alloc_with_ref`. -/
  | allocate (ino : ℕ)
  /-- Looks at `valid`. -/
  | check (ino l : ℕ)
  | load (ino l : ℕ)
  | publish (ino l : ℕ) (tmp : α)
  /-- `seq_write_begin`. -/
  | lockWait (ino l : ℕ)
  /-- `inode_lock` has returned the leaf. -/
  | holding (ino l : ℕ)
  /-- The caller has changed the inode and calls `inode_writeback`. -/
  | dirty (ino l : ℕ)
  /-- Gives the reference back. -/
  | release (ino l : ℕ)
  /-- `irtree_get`, still a reader. -/
  | getting (ino l : ℕ)
  /-- `irtree_get` has returned. -/
  | got (ino : ℕ) (out : Option α)
  /-- `irtree_shrink` at slot number `i`, with `left` evictions to go. -/
  | scan (i left : ℕ)
  /-- Found an old leaf without references, takes the tree lock. -/
  | evict (i l left : ℕ)
  /-- Calls `call_rcu_head`. -/
  | handoff (i l left : ℕ)
  deriving DecidableEq

/-- The leaf a thread has counted itself in at, with the inode number it asked for. -/
def Pc.ref {α : Type*} : Pc α → Option (ℕ × ℕ)
  | check ino l | load ino l | publish ino l _ | lockWait ino l | holding ino l | dirty ino l
  | release ino l => some (ino, l)
  | _ => none

/-- The leaf a thread has counted itself in at. -/
def Pc.held {α : Type*} (pc : Pc α) : Option ℕ := pc.ref.map Prod.snd

/-- The leaf a reader has a pointer to. -/
def Pc.reads {α : Type*} : Pc α → Option ℕ
  | found _ l | getting _ l => some l
  | _ => none

/-- What a thread does next. -/
inductive Act (α : Type*) where
  | lock (ino : ℕ)
  | get (ino : ℕ)
  | shrink (max : ℕ)
  /-- Sets the inode of the leaf and calls `inode_writeback`. -/
  | writeback (v : α)
  | unlock
  /-- The grace period of a leaf is over. -/
  | free (l : ℕ)
  /-- The next step of the call; `ok` tells whether an allocation or a transfer succeeds, and whether
  a leaf is older than the cutoff. -/
  | run (ok : Bool)
  deriving DecidableEq

/-- The tree, the inode table of the disk and the threads. -/
structure Sys (ι α : Type*) where
  slot : ℕ × ℕ → Option ℕ
  leaf : ℕ → Leaf ι α
  /-- The number of the next leaf. -/
  next : ℕ
  rcuQueue : List ℕ
  disk : ℕ → α
  pc : ι → Pc α

/-- `IRTREE_SIZE`. -/
def irtreeSize : ℕ := 256

/-- The slot of an inode: `(ino >> IRTREE_BITS) & IRTREE_MASK` and `ino & IRTREE_MASK`. -/
def slotOf (ino : ℕ) : ℕ × ℕ := (ino / irtreeSize % irtreeSize, ino % irtreeSize)

variable {ι α : Type*} [DecidableEq ι]

namespace Sys

/-- A thread moves on. -/
def goto (s : Sys ι α) (t : ι) (pc : Pc α) : Sys ι α := { s with pc := update s.pc t pc }

/-- A leaf changes. -/
def setLeaf (s : Sys ι α) (l : ℕ) (x : Leaf ι α) : Sys ι α :=
  { s with leaf := update s.leaf l x }

/-- `irtree_lookup`. -/
def lookup (s : Sys ι α) (ino : ℕ) : Option ℕ :=
  match s.slot (slotOf ino) with
  | none => none
  | some l => if (s.leaf l).ino ≠ ino then none else some l

/-- One reference more. -/
def addRef (s : Sys ι α) (l : ℕ) : Sys ι α :=
  s.setLeaf l { s.leaf l with refcount := (s.leaf l).refcount + 1 }

/-- One reference less. -/
def subRef (s : Sys ι α) (l : ℕ) : Sys ι α :=
  s.setLeaf l { s.leaf l with refcount := (s.leaf l).refcount - 1 }

/-- A leaf fresh from the slab; its inode is not read before it is valid. -/
def newLeaf [Inhabited α] (s : Sys ι α) (ino : ℕ) : Sys ι α :=
  { s with
    leaf := update s.leaf s.next ⟨ino, default, false, 1, none, false⟩
    slot := update s.slot (slotOf ino) (some s.next)
    next := s.next + 1 }

/-- `irtree_alloc_with_ref`, under the tree lock. -/
def allocWithRef [Inhabited α] (s : Sys ι α) (t : ι) (ino : ℕ) (ok : Bool) : Sys ι α :=
  match s.slot (slotOf ino) with
  | some l => (s.addRef l).goto t (.check ino l)
  | none => if ok then (s.newLeaf ino).goto t (.check ino s.next) else s.goto t .idle

/-- The section of `inode_lock` that publishes what it has loaded. -/
def publish (s : Sys ι α) (ino l : ℕ) (tmp : α) : Sys ι α :=
  if (s.leaf l).valid then s
  else s.setLeaf l { s.leaf l with inode := tmp, ino := ino, valid := true }

/-- The number of the slot in the scan of `irtree_shrink`. -/
def scanSlot (i : ℕ) : ℕ × ℕ := (i / irtreeSize, i % irtreeSize)

/-- The next step of the call a thread is in. -/
def runStep [Inhabited α] (s : Sys ι α) (t : ι) (ok : Bool) : Option (Sys ι α) :=
  match s.pc t with
  | .idle | .holding _ _ => none
  | .found ino l => some ((s.addRef l).goto t (.check ino l))
  | .allocate ino => some (s.allocWithRef t ino ok)
  | .check ino l => some (s.goto t (if (s.leaf l).valid then .lockWait ino l else .load ino l))
  | .load ino l => some (s.goto t (if ok then .publish ino l (s.disk ino) else .release ino l))
  | .publish ino l tmp =>
    if (s.leaf l).writer = none then some ((s.publish ino l tmp).goto t (.lockWait ino l))
    else none
  | .lockWait ino l =>
    if (s.leaf l).writer = none then
      some ((s.setLeaf l { s.leaf l with writer := some t }).goto t (.holding ino l))
    else none
  | .dirty ino l =>
    -- `inode_writeback` goes by the number in the leaf
    if ok ∧ (s.leaf l).valid then
      some ({ s with disk := update s.disk (s.leaf l).ino (s.leaf l).inode }.goto t
        (.holding ino l))
    else some (s.goto t (.holding ino l))
  | .release _ l => some ((s.subRef l).goto t .idle)
  | .getting ino l =>
    -- the loop of the seqlock reader ends with a look at the leaf that no writer was in
    if (s.leaf l).writer = none then
      some (s.goto t (.got ino
        (if (s.leaf l).valid ∧ (s.leaf l).ino = ino then some (s.leaf l).inode else none)))
    else none
  | .got _ _ => some (s.goto t .idle)
  | .scan i left =>
    if irtreeSize * irtreeSize ≤ i ∨ left = 0 then some (s.goto t .idle)
    else
      match s.slot (scanSlot i) with
      | none => some (s.goto t (.scan (i + 1) left))
      | some l =>
        if (s.leaf l).refcount ≠ 0 ∨ ok = false then some (s.goto t (.scan (i + 1) left))
        else some (s.goto t (.evict i l left))
  | .evict i l left =>
    if s.slot (scanSlot i) ≠ some l ∨ (s.leaf l).refcount ≠ 0 then
      some (s.goto t (.scan (i + 1) left))
    else
      some ({ s with slot := update s.slot (scanSlot i) none }.goto t (.handoff i l left))
  | .handoff i l left =>
    some ({ s with rcuQueue := s.rcuQueue ++ [l] }.goto t (.scan (i + 1) (left - 1)))

end Sys

/-- **The steps.** The memory of a leaf is given back only when no reader that has a pointer to it is
left, as a grace period implies. -/
def irtreeStep [Fintype ι] [Inhabited α] (s : Sys ι α) : ι × Act α → Option (Sys ι α)
  | (t, .run ok) => s.runStep t ok
  | (t, .writeback v) =>
    match s.pc t with
    | .holding ino l => some ((s.setLeaf l { s.leaf l with inode := v }).goto t (.dirty ino l))
    | _ => none
  | (t, .unlock) =>
    match s.pc t with
    | .holding ino l =>
      some ((s.setLeaf l { s.leaf l with writer := none }).goto t (.release ino l))
    | _ => none
  | (_, .free l) =>
    if l ∈ s.rcuQueue ∧ ∀ u, (s.pc u).reads ≠ some l then
      some ({ s with rcuQueue := s.rcuQueue.erase l }.setLeaf l { s.leaf l with freed := true })
    else none
  | (t, .lock ino) =>
    match s.pc t with
    | .idle =>
      match s.lookup ino with
      | some l => some (s.goto t (.found ino l))
      | none => some (s.goto t (.allocate ino))
    | _ => none
  | (t, .get ino) =>
    match s.pc t with
    | .idle =>
      match s.lookup ino with
      | some l => some (s.goto t (.getting ino l))
      | none => some (s.goto t (.got ino none))
    | _ => none
  | (t, .shrink max) =>
    match s.pc t with
    | .idle => some (s.goto t (.scan 0 max))
    | _ => none

/-- An empty cache over the inode table `disk`. -/
def boot [Inhabited α] (disk : ℕ → α) : Sys ι α where
  slot _ := none
  leaf _ := ⟨0, default, false, 0, none, false⟩
  next := 0
  rcuQueue := []
  disk := disk
  pc _ := .idle

/-! ### What is asked -/

/-- The leaf is in the tree or in use. -/
def Sys.Live (s : Sys ι α) (l : ℕ) : Prop := (∃ i, s.slot i = some l) ∨ 0 < (s.leaf l).refcount

/-- **What the cache is for.** -/
structure CacheGood (s : Sys ι α) : Prop where
  /-- `inode_lock` returns a leaf of the inode it was asked for, as it was written back last. -/
  right : ∀ t ino l, s.pc t = .holding ino l → (s.leaf l).ino = ino ∧ (s.leaf l).inode = s.disk ino
  /-- There is one live leaf for an inode at most. -/
  one : ∀ l l', s.Live l → s.Live l' → (s.leaf l).ino = (s.leaf l').ino → l = l'
  /-- A leaf in use is neither taken out of the tree nor freed. -/
  kept : ∀ l, 0 < (s.leaf l).refcount →
    s.slot (slotOf (s.leaf l).ino) = some l ∧ (s.leaf l).freed = false

/-- What a thread relies on: the leaf it has found is still in the tree, the slot of its inode is
empty or the inode's own, and its writeback reaches the disk. -/
def Sys.Undisturbed (s : Sys ι α) (ok : Bool) : Pc α → Prop
  | .found ino l => s.slot (slotOf ino) = some l
  | .allocate ino => ∀ l ∈ s.slot (slotOf ino), (s.leaf l).ino = ino
  | .dirty _ _ => ok = true
  | _ => True

instance (s : Sys ι α) (ok : Bool) : (pc : Pc α) → Decidable (s.Undisturbed ok pc)
  | .found ino l => inferInstanceAs (Decidable (s.slot (slotOf ino) = some l))
  | .allocate ino => inferInstanceAs (Decidable (∀ l ∈ s.slot (slotOf ino), (s.leaf l).ino = ino))
  | .dirty _ _ => inferInstanceAs (Decidable (ok = true))
  | .idle | .check _ _ | .load _ _ | .publish _ _ _ | .lockWait _ _ | .holding _ _ | .release _ _
  | .getting _ _ | .got _ _ | .scan _ _ | .evict _ _ _ | .handoff _ _ _ =>
    inferInstanceAs (Decidable True)

/-- **No two inodes meet in a slot, no leaf goes between lookup and reference, and no writeback
fails.** -/
def Undisturbed (s : Sys ι α) : ι × Act α → Prop
  | (t, .run ok) => s.Undisturbed ok (s.pc t)
  | _ => True

instance (s : Sys ι α) : (a : ι × Act α) → Decidable (Undisturbed s a)
  | (t, .run ok) => inferInstanceAs (Decidable (s.Undisturbed ok (s.pc t)))
  | (_, .lock _) | (_, .get _) | (_, .shrink _) | (_, .writeback _) | (_, .unlock) | (_, .free _) =>
    inferInstanceAs (Decidable True)

end Makaos.Irtree
