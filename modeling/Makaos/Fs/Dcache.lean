import Makaos.Lib.HashChains
import Makaos.Lib.Transition

/-!
The directory-entry cache of `dcache.c`, one locked section and one reference-count update at a time.

A dentry is named by a number of its own, never used again, so that a late use of freed memory is
seen as such. The chains and the LRU list are lists of these numbers. The walk of `dcache_lookup` is
one step and its reference-count update another; what `g_dcache_wlock` protects is one step.
`last_used_ns` and the statistics are left out: nothing reads them.

* `dentryUnlinkAndFreeLocked`, `dcacheInvalidate`, `dcacheInvalidateSubtree`, `dcacheShrink`,
  `putLocked`, `installLocked`: the locked sections.
* `dcacheStep`: the steps of the threads and of the RCU callbacks.
* `Lifetime`: **what the life of a dentry looks like.**
* `LinkedUse`: no dentry is taken out of the cache under a caller.
-/

namespace Makaos.Dcache

open Function
open HashChains

/-! ### Dentries and names -/

/-- What a dentry is found by. -/
structure Name where
  parentIno : UInt32
  nameHash : UInt32
  name : List UInt8
  deriving DecidableEq

/-- The fields of `dentry_t` that are set once, in `dentry_alloc`. -/
structure Dentry extends Name where
  childIno : UInt32
  parent : Option ℕ
  deriving DecidableEq

/-- `dcache_name_hash`: FNV-1a. -/
def dcacheNameHash (name : List UInt8) : UInt32 :=
  name.foldl (fun h c => (h ^^^ c.toUInt32) * 16777619) 2166136261

/-- `dcache_bucket`: `mixed & (cap - 1)`, the capacity a power of two. -/
def dcacheBucket (n : Name) (cap : ℕ) : ℕ :=
  ((n.parentIno * 2654435761) ^^^ n.nameHash).toNat % cap

/-- A `uint32_t` counts up. -/
def inc (n : ℕ) : ℕ := (n + 1) % 2 ^ 32

/-- A `uint32_t` counts down. -/
def dec (n : ℕ) : ℕ := if n = 0 then 2 ^ 32 - 1 else n - 1

/-! ### The cache -/

/-- `DCACHE_HASH_INIT_CAP`. -/
def hashInitCap : ℕ := 256

/-- `DCACHE_MAX_ENTRIES`. -/
def maxEntries : ℕ := 8192

/-- The cache, with the queue of `call_rcu_head`. `published` and `handed` are for the specification
only: whether a dentry was ever linked, and how often it was handed to `call_rcu_head`. -/
structure Cache where
  table : Table ℕ
  lru : List ℕ
  liveCount : ℕ
  dentry : ℕ → Dentry
  refcount : ℕ → ℕ
  /-- The number of the next dentry. -/
  next : ℕ
  rcuQueue : List ℕ
  freed : ℕ → Bool
  published : ℕ → Bool
  handed : ℕ → ℕ

namespace Cache

/-- The chain of a dentry. -/
def place (c : Cache) (d cap : ℕ) : ℕ := dcacheBucket (c.dentry d).toName cap

/-- The dentry is in the hash table. -/
def Linked (c : Cache) (d : ℕ) : Prop := c.table.Linked c.place d

instance (c : Cache) (d : ℕ) : Decidable (c.Linked d) :=
  inferInstanceAs (Decidable (c.table.Linked c.place d))

/-- `bucket_find_locked`, and the walk of `dcache_lookup`. -/
def bucketFind (c : Cache) (n : Name) : Option ℕ :=
  (c.table.buckets (dcacheBucket n c.table.cap)).find? fun d => (c.dentry d).toName = n

/-- `dentry_unlink_and_free_locked`. -/
def dentryUnlinkAndFreeLocked (c : Cache) (d : ℕ) : Cache :=
  { c with
    table := c.table.unlink c.place d
    lru := c.lru.erase d
    rcuQueue := c.rcuQueue ++ [d]
    handed := update c.handed d (c.handed d + 1) }

/-- `dcache_invalidate`. -/
def dcacheInvalidate (c : Cache) (parentIno : UInt32) (name : List UInt8) : Cache :=
  match c.bucketFind ⟨parentIno, dcacheNameHash name, name⟩ with
  | none => c
  | some d => c.dentryUnlinkAndFreeLocked d

/-- The walk of one chain in `dcache_invalidate_subtree`; the successor is read before a dentry is
taken out, so the chain walked is the one at the start. -/
def invalidateChain (c : Cache) (dirIno : UInt32) (chain : List ℕ) : Cache :=
  chain.foldl (fun c d =>
    if (c.dentry d).parentIno = dirIno then c.dentryUnlinkAndFreeLocked d else c) c

/-- `dcache_invalidate_subtree`. -/
def dcacheInvalidateSubtree (c : Cache) (dirIno : UInt32) : Cache :=
  (List.range c.table.cap).foldl (fun c i => c.invalidateChain dirIno (c.table.buckets i)) c

/-- The loop of `dcache_shrink`, with at most `max` victims to go; `l` is the LRU list. -/
def shrinkLoop (c : Cache) : (l : List ℕ) → (max : ℕ) → Cache
  | [], _ => c
  | _ :: _, 0 => c
  | d :: l, max + 1 =>
    if c.refcount d ≠ 0 then
      -- referenced again since it was put here: only off the list
      shrinkLoop { c with lru := c.lru.erase d } l (max + 1)
    else shrinkLoop (c.dentryUnlinkAndFreeLocked d) l max

/-- `dcache_shrink`. -/
def dcacheShrink (c : Cache) (max : ℕ) : Cache := c.shrinkLoop c.lru max

/-- To the cold end of the LRU list. -/
def lruAppend (c : Cache) (d : ℕ) : Cache :=
  if d ∈ c.lru then c else { c with lru := c.lru ++ [d] }

/-- The locked section of `dcache_put`. -/
def putLocked (c : Cache) (d : ℕ) : Cache := if c.refcount d = 0 then c.lruAppend d else c

/-- `dcache_grow_locked`; `ok` tells whether the new table could be allocated. -/
def dcacheGrowLocked (c : Cache) (ok : Bool) : Cache :=
  if ok then { c with table := c.table.rehash c.place (c.table.cap * 2) } else c

/-- The locked section of `dcache_install` when the name is not there yet. -/
def installLocked (c : Cache) (d : ℕ) (ok : Bool) : Cache :=
  let c := if (c.liveCount + 1) * 4 ≥ c.table.cap * 3 then c.dcacheGrowLocked ok else c
  { c with
    table := c.table.push c.place d
    liveCount := inc c.liveCount
    published := update c.published d true }

/-- One reference more. -/
def addRef (c : Cache) (d : ℕ) : Cache :=
  { c with refcount := update c.refcount d (inc (c.refcount d)) }

/-- One reference less. -/
def subRef (c : Cache) (d : ℕ) : Cache :=
  { c with refcount := update c.refcount d (dec (c.refcount d)) }

/-- `dentry_alloc` up to the reference on the parent: the caller gets the first reference. -/
def dentryAlloc (c : Cache) (x : Dentry) : Cache :=
  { c with
    dentry := update c.dentry c.next x
    refcount := update c.refcount c.next 1
    next := c.next + 1 }

/-- `pmm_slab_free`. -/
def slabFree (c : Cache) (d : ℕ) : Cache := { c with freed := update c.freed d true }

/-- `dcache_init`. -/
def init : Cache where
  table := Table.empty hashInitCap
  lru := []
  liveCount := 0
  dentry _ := ⟨⟨0, 0, []⟩, 0, none⟩
  refcount _ := 0
  next := 0
  rcuQueue := []
  freed _ := false
  published _ := false
  handed _ := 0

end Cache

/-! ### The threads -/

/-- Where a thread is. -/
inductive Pc where
  | idle
  /-- `dcache_lookup`, still a reader: found the dentry, takes the reference. -/
  | found (d : ℕ)
  /-- `dcache_put` after it dropped the last reference. -/
  | dropped (d : ℕ)
  /-- `dcache_install` over the soft cap. -/
  | trim (x : Dentry)
  | alloc (x : Dentry)
  /-- `dcache_install` with its own dentry, before the lock. -/
  | candidate (d : ℕ)
  /-- After the lock: `e` is in the cache already. -/
  | existing (d e : ℕ)
  | bump (d e : ℕ)
  /-- `dentry_free_cb`. -/
  | freeing (d : ℕ)
  /-- The child was the parent's last reference. -/
  | freeParent (d p : ℕ)
  | freeSlab (d : ℕ)
  deriving DecidableEq

namespace Pc

/-- The dentry whose callback is running. -/
def frees : Pc → Option ℕ
  | freeing d | freeParent d _ | freeSlab d => some d
  | _ => none

/-- The dentry that is not in the cache yet. -/
def own : Pc → Option ℕ
  | candidate d | existing d _ | bump d _ => some d
  | _ => none

/-- The dentry, outside the cache, that still holds its reference on its parent. -/
def keepsParent : Pc → Option ℕ
  | candidate d | existing d _ | freeing d => some d
  | _ => none

end Pc

/-- Who holds a reference: a caller of `dcache_lookup` or `dcache_install`, or a child. -/
inductive Holder (ι : Type*) where
  | caller (t : ι)
  | child (d : ℕ)
  deriving DecidableEq

/-- The cache and the threads. `refs` is for the specification only: the references handed out and
not given back. -/
structure Sys (ι : Type*) where
  cache : Cache
  pc : ι → Pc
  refs : List (Holder ι × ℕ)

/-- What a thread does next. -/
inductive Act where
  | lookup (n : Name)
  | put (d : ℕ)
  | install (x : Dentry)
  | invalidate (parentIno : UInt32) (name : List UInt8)
  | invalidateSubtree (dirIno : UInt32)
  | shrink (max : ℕ)
  /-- The grace period of a dentry is over and its callback starts. -/
  | callback (d : ℕ)
  /-- The next step of the call; `ok` tells whether an allocation succeeds. -/
  | run (ok : Bool)
  deriving DecidableEq

variable {ι : Type*} [DecidableEq ι]

namespace Sys

/-- A thread moves on. -/
def goto (s : Sys ι) (t : ι) (pc : Pc) : Sys ι := { s with pc := update s.pc t pc }

/-- The cache changes. -/
def withCache (s : Sys ι) (c : Cache) : Sys ι := { s with cache := c }

/-- `h` takes a reference. -/
def take (s : Sys ι) (h : Holder ι) (d : ℕ) : Sys ι :=
  { s with cache := s.cache.addRef d, refs := (h, d) :: s.refs }

/-- `h` gives a reference back. -/
def drop (s : Sys ι) (h : Holder ι) (d : ℕ) : Sys ι :=
  { s with cache := s.cache.subRef d, refs := s.refs.erase (h, d) }

/-- The reference on the parent, if there is one. -/
def takeParent (s : Sys ι) (d : ℕ) : Option ℕ → Sys ι
  | none => s
  | some p => s.take (.child d) p

/-- The same reference given back. -/
def dropParent (s : Sys ι) (d : ℕ) : Option ℕ → Sys ι
  | none => s
  | some p => s.drop (.child d) p

/-- `dentry_alloc`. -/
def alloc (s : Sys ι) (x : Dentry) : Sys ι :=
  (s.withCache (s.cache.dentryAlloc x)).takeParent s.cache.next x.parent

/-- The locked section of `dcache_install`. -/
def publish (s : Sys ι) (t : ι) (d : ℕ) (ok : Bool) : Sys ι :=
  { s with cache := s.cache.installLocked d ok, refs := (.caller t, d) :: s.refs }

/-- A callback leaves the queue. -/
def startFree (s : Sys ι) (d : ℕ) : Sys ι :=
  s.withCache { s.cache with rcuQueue := s.cache.rcuQueue.erase d }

/-- The next step of the call a thread is in. -/
def runStep (s : Sys ι) (t : ι) (ok : Bool) : Option (Sys ι) :=
  match s.pc t with
  | .idle => none
  | .found d => some ((s.take (.caller t) d).goto t .idle)
  | .dropped d => some ((s.withCache (s.cache.putLocked d)).goto t .idle)
  | .trim x => some ((s.withCache (s.cache.dcacheShrink (maxEntries / 8))).goto t (.alloc x))
  | .alloc x =>
    if ok then some ((s.alloc x).goto t (.candidate s.cache.next)) else some (s.goto t .idle)
  | .candidate d =>
    match s.cache.bucketFind (s.cache.dentry d).toName with
    | some e => some (s.goto t (.existing d e))
    | none => some ((s.publish t d ok).goto t .idle)
  | .existing d e => some ((s.dropParent d (s.cache.dentry d).parent).goto t (.bump d e))
  | .bump d e =>
    some (((s.withCache (s.cache.slabFree d)).take (.caller t) e).goto t .idle)
  | .freeing d =>
    match (s.cache.dentry d).parent with
    | none => some (s.goto t (.freeSlab d))
    | some p =>
      let s' := s.drop (.child d) p
      if s'.cache.refcount p = 0 then some (s'.goto t (.freeParent d p))
      else some (s'.goto t (.freeSlab d))
  | .freeParent d p => some ((s.withCache (s.cache.lruAppend p)).goto t (.freeSlab d))
  | .freeSlab d =>
    let c := s.cache.slabFree d
    some ((s.withCache { c with liveCount := dec c.liveCount }).goto t .idle)

end Sys

/-- **The steps.** A caller gives back only a reference it holds. A callback starts only when no
reader that has found the dentry is left, as a grace period implies. -/
def dcacheStep [Fintype ι] (s : Sys ι) : ι × Act → Option (Sys ι)
  | (t, .run ok) => s.runStep t ok
  | (t, a) =>
    if s.pc t ≠ .idle then none
    else
      match a with
      | .lookup n =>
        match s.cache.bucketFind n with
        | none => some s
        | some d => some (s.goto t (.found d))
      | .put d =>
        if (.caller t, d) ∈ s.refs then
          let s' := s.drop (.caller t) d
          if s'.cache.refcount d = 0 then some (s'.goto t (.dropped d)) else some s'
        else none
      | .install x =>
        if x.name.length = 0 ∨ 255 < x.name.length then some s
        else if maxEntries ≤ s.cache.liveCount then some (s.goto t (.trim x))
        else some (s.goto t (.alloc x))
      | .invalidate parentIno name => some (s.withCache (s.cache.dcacheInvalidate parentIno name))
      | .invalidateSubtree dirIno => some (s.withCache (s.cache.dcacheInvalidateSubtree dirIno))
      | .shrink max => some (s.withCache (s.cache.dcacheShrink max))
      | .callback d =>
        if d ∈ s.cache.rcuQueue ∧ ∀ u, s.pc u ≠ .found d then
          some ((s.startFree d).goto t (.freeing d))
        else none
      | .run _ => none

/-- After `dcache_init`. -/
def boot : Sys ι := ⟨Cache.init, fun _ => .idle, []⟩

/-! ### What is asked -/

/-- In one hash chain, and there once. -/
def Cache.InOneChain (c : Cache) (d : ℕ) : Prop :=
  ∃ b, (c.table.buckets b).count d = 1 ∧ ∀ b', b' ≠ b → d ∉ c.table.buckets b'

/-- In no hash chain. -/
def Cache.InNoChain (c : Cache) (d : ℕ) : Prop := ∀ b, d ∉ c.table.buckets b

/-- Handed to `call_rcu_head` and not freed yet: queued, or in its callback. -/
def Sys.Waiting (s : Sys ι) (d : ℕ) : Prop :=
  d ∈ s.cache.rcuQueue ∨ ∃ t, (s.pc t).frees = some d

/-- **The life of a dentry**: in the cache, or waiting for its one deferred free, or freed. -/
structure Lifetime (s : Sys ι) : Prop where
  /-- Exactly one of the three. -/
  one_of : ∀ d, s.cache.published d = true →
    (s.cache.InOneChain d ∧ ¬ s.Waiting d ∧ s.cache.freed d = false) ∨
    (s.cache.InNoChain d ∧ s.Waiting d ∧ s.cache.freed d = false) ∨
    (s.cache.InNoChain d ∧ ¬ s.Waiting d ∧ s.cache.freed d = true)
  /-- Handed to the deferred free once when it left the cache, and not before. -/
  handed_linked : ∀ d, s.cache.InOneChain d → s.cache.handed d = 0
  handed_gone : ∀ d, s.cache.published d = true → s.cache.InNoChain d → s.cache.handed d = 1
  /-- One free to come: one place in the queue or one running callback. -/
  single : s.cache.rcuQueue.Nodup ∧ ∀ d t, (s.pc t).frees = some d →
    d ∉ s.cache.rcuQueue ∧ ∀ u, (s.pc u).frees = some d → u = t
  /-- On the LRU list once, and only while linked. -/
  lru : s.cache.lru.Nodup ∧ ∀ d ∈ s.cache.lru, s.cache.InOneChain d
  /-- Nobody holds a reference on a dentry that was handed to the deferred free. -/
  unreferenced : ∀ d, 0 < s.cache.handed d → ∀ h, (h, d) ∉ s.refs

/-- A reference can be taken: the dentry is in the cache, and the counter does not wrap. -/
def Cache.CanTake (c : Cache) (d : ℕ) : Prop := c.Linked d ∧ c.refcount d + 1 < 2 ^ 32

instance (c : Cache) (d : ℕ) : Decidable (c.CanTake d) :=
  inferInstanceAs (Decidable (_ ∧ _))

/-- What a thread relies on when it goes on: the dentry it has in hand is still in the cache. -/
def Cache.InHand (c : Cache) : Pc → Prop
  | .found d => c.CanTake d
  | .bump _ e => c.CanTake e
  | .alloc x => ∀ p ∈ x.parent, c.CanTake p
  | .dropped d => c.Linked d
  | .freeParent _ p => c.Linked p
  | _ => True

instance (c : Cache) : (pc : Pc) → Decidable (c.InHand pc)
  | .found d => inferInstanceAs (Decidable (c.CanTake d))
  | .bump _ e => inferInstanceAs (Decidable (c.CanTake e))
  | .alloc x => inferInstanceAs (Decidable (∀ p ∈ x.parent, c.CanTake p))
  | .dropped d => inferInstanceAs (Decidable (c.Linked d))
  | .freeParent _ p => inferInstanceAs (Decidable (c.Linked p))
  | .idle | .trim _ | .candidate _ | .existing _ _ | .freeing _ | .freeSlab _ =>
    inferInstanceAs (Decidable True)

/-- **No dentry is taken out of the cache under a caller**: an invalidation meets unreferenced
dentries only, and a thread that has a dentry in hand goes on while it is still linked. -/
def LinkedUse (s : Sys ι) : ι × Act → Prop
  | (_, .invalidate parentIno name) =>
    ∀ d ∈ s.cache.bucketFind ⟨parentIno, dcacheNameHash name, name⟩, s.cache.refcount d = 0
  | (_, .invalidateSubtree dirIno) =>
    ∀ d ∈ s.cache.table.elems, (s.cache.dentry d).parentIno = dirIno → s.cache.refcount d = 0
  | (t, .run _) => s.cache.InHand (s.pc t)
  | _ => True

instance (s : Sys ι) : (a : ι × Act) → Decidable (LinkedUse s a)
  | (_, .invalidate parentIno name) => inferInstanceAs (Decidable
      (∀ d ∈ s.cache.bucketFind ⟨parentIno, dcacheNameHash name, name⟩, s.cache.refcount d = 0))
  | (_, .invalidateSubtree dirIno) => inferInstanceAs (Decidable
      (∀ d ∈ s.cache.table.elems, (s.cache.dentry d).parentIno = dirIno → s.cache.refcount d = 0))
  | (t, .run _) => inferInstanceAs (Decidable (s.cache.InHand (s.pc t)))
  | (_, .lookup _) | (_, .put _) | (_, .install _) | (_, .shrink _) | (_, .callback _) =>
    inferInstanceAs (Decidable True)

end Makaos.Dcache
