import Makaos.Lib.Transition
import Makaos.Mm.Slab
import Makaos.Lib.LinkChain

/-!
The per-CPU slab layer of `kernel/mm/slab_pcpu.c` as its atomic steps.

The free slots hang off heads by link words in memory: off the slot word of a CPU, off the
`freelist` and `remote_free` fields of a page.  A task runs `slab_pcpu_alloc`, `slab_pcpu_free` and
`slab_refill` one access at a time: a load, a store or a `cmpxchg` on shared memory is one step, a
section under `g_pmm_lock` is one step, and between two steps any other task may run and the task
may be moved to another CPU, unless it has interrupts disabled there.
-/

namespace Makaos

open Function
/-! ### State -/

/-- `slab_header_t`, without the links of the page lists. -/
structure PageHeader where
  cache : ℕ
  slabPhys : ℕ
  freelist : Option ℕ
  inuse : ℕ
  onList : SlabList
  remoteFree : Option ℕ
  deriving DecidableEq, Repr

/-- `cpu_slot[cls]`, `cpu_slab[cls]` and the list at `partial_head[cls]` of one CPU.  The slot word
is `{head, tid}`; `ver` counts its updates, and `tid` is what 64 bits hold of that count. -/
structure Lane where
  head : Option ℕ
  ver : ℕ
  active : Option ℕ
  partialPages : List ℕ
  deriving DecidableEq, Repr

namespace Lane

/-- The `tid` half of the slot word. -/
def tid (w : Lane) : ℕ := w.ver % 2 ^ 64

/-- `this_cpu_cmpxchg16b_at` with the new word `{new, tid + 1}`, `none` if the comparison fails. -/
def cmpxchg16b (w : Lane) (head : Option ℕ) (tid : ℕ) (new : Option ℕ) : Option Lane :=
  if w.head = head ∧ w.tid = tid then some { w with head := new, ver := w.ver + 1 } else none

end Lane

/-- Where a slot word was loaded: the CPU and the count of updates.  The code keeps the `tid` of it
only. -/
structure Snap where
  cpu : ℕ
  ver : ℕ
  deriving DecidableEq, Repr

/-- The `tid` half of the word that was loaded. -/
def Snap.tid (snap : Snap) : ℕ := snap.ver % 2 ^ 64

/-- Where a task is in the code, with its local variables. -/
inductive Pc where
  /-- in none of the functions -/
  | idle
  /-- `slab_pcpu_alloc`: about to load the slot word, -/
  | allocLoad (cls : ℕ)
  /-- to read the link of the head, -/
  | allocNext (cls slot : ℕ) (snap : Snap)
  /-- to pop it -/
  | allocCas (cls slot : ℕ) (snap : Snap) (next : Option ℕ)
  /-- `slab_refill`: about to disable interrupts, -/
  | refill (cls : ℕ)
  /-- to demote or keep the active page, -/
  | demote (cls page : ℕ)
  /-- to look for a page on the per-CPU partial list, -/
  | acquire (cls : ℕ)
  /-- on the cache's partial list, -/
  | acquireBatch (cls : ℕ)
  /-- on its empty list, -/
  | acquireEmpty (cls : ℕ)
  /-- in the buddy allocator, -/
  | acquireGrow (cls : ℕ)
  /-- to promote the page -/
  | promote (cls page : ℕ)
  /-- `publish_freelist`: about to load the slot word, -/
  | publish (cls : ℕ) (fl : Option ℕ) (found : Bool)
  /-- to replace it -/
  | publishCas (cls : ℕ) (fl : Option ℕ) (found : Bool) (head : Option ℕ) (tid : ℕ)
  /-- `slab_pcpu_free`: about to read the active page, -/
  | freeActive (ptr page cls : ℕ)
  /-- to load the slot word, -/
  | freeLoad (ptr page cls : ℕ)
  /-- to link the slot to its head, -/
  | freeLink (ptr page cls : ℕ) (head : Option ℕ) (tid : ℕ)
  /-- to push it -/
  | freeCas (ptr page cls : ℕ) (head : Option ℕ) (tid : ℕ)
  /-- the push onto `remote_free`: about to load the head, -/
  | remoteLoad (ptr page : ℕ)
  /-- to link the slot to it, -/
  | remoteLink (ptr page : ℕ) (old : Option ℕ)
  /-- to replace it -/
  | remoteCas (ptr page : ℕ) (old : Option ℕ)
  deriving DecidableEq, Repr

/-- The allocator and the tasks that run it. -/
structure SlabPcpu where
  pmm : Pmm
  /-- `g_slab_trackers`, by frame -/
  trackers : ℕ → Option ℕ
  /-- `g_slab_heads`, by frame -/
  heads : ℕ → ℕ
  /-- the header at the base address of a slab -/
  headers : ℕ → PageHeader
  /-- the `kmalloc` caches, by class -/
  caches : ℕ → SlabCache
  /-- the first word of a slot -/
  link : ℕ → Option ℕ
  /-- the per-CPU state, by CPU and class -/
  lanes : ℕ → ℕ → Lane
  /-- the task that has disabled interrupts on a CPU -/
  irqOff : ℕ → Option ℕ
  /-- the CPU of a task -/
  cpu : ℕ → ℕ
  pc : ℕ → Pc
  /-- the slots handed out to callers -/
  out : Finset ℕ

namespace SlabPcpu

/-- Replace the header at a base address. -/
def setHeader (s : SlabPcpu) (base : ℕ) (h : PageHeader) : SlabPcpu :=
  { s with headers := update s.headers base h }

/-- Replace a cache. -/
def setCache (s : SlabPcpu) (cls : ℕ) (cache : SlabCache) : SlabPcpu :=
  { s with caches := update s.caches cls cache }

/-- Replace the state of a CPU for a class. -/
def setLane (s : SlabPcpu) (c cls : ℕ) (w : Lane) : SlabPcpu :=
  { s with lanes := update s.lanes c (update (s.lanes c) cls w) }

/-- Store to the first word of a slot. -/
def setLink (s : SlabPcpu) (slot : ℕ) (v : Option ℕ) : SlabPcpu :=
  { s with link := update s.link slot v }

/-- The task goes on at another place. -/
def goto (s : SlabPcpu) (t : ℕ) (pc : Pc) : SlabPcpu :=
  { s with pc := update s.pc t pc }

/-- The loop that writes the trackers and heads of the frames of a slab. -/
def track (s : SlabPcpu) (head n : ℕ) (owner : Option ℕ) (headValue : ℕ) : SlabPcpu :=
  { s with
    trackers := fun f =>
      if head ≤ f ∧ f < head + n ∧ f < s.pmm.totalFrames then owner else s.trackers f
    heads := fun f =>
      if head ≤ f ∧ f < head + n ∧ f < s.pmm.totalFrames then headValue else s.heads f }

/-! ### Sections under the lock -/

/-- The rounds given to a walk along a chain.  A chain of distinct addresses in physical memory is
not longer. -/
def walkBound (s : SlabPcpu) : ℕ := s.pmm.totalFrames * pageSize

/-- `drain_remote_into_freelist_locked`; `none` if the walk to the tail does not end. -/
def drainRemote (s : SlabPcpu) (h : ℕ) : Option SlabPcpu :=
  match (s.headers h).remoteFree with
  | none => some s
  | some chain =>
    match LinkChain.tailOf s.link s.walkBound chain 1 with
    | none => none
    | some (tail, n) =>
      let header := s.headers h
      some ((s.setLink tail header.freelist).setHeader h
        { header with
          remoteFree := none
          freelist := some chain
          inuse := if header.inuse ≥ n then header.inuse - n else 0 })

/-- `pmm_slab_demote_or_keep`: the rescued chain if the page is kept, the null pointer if it is
parked on the full list. -/
def demoteOrKeep (s : SlabPcpu) (cls h : ℕ) : Option (Option ℕ × SlabPcpu) :=
  match s.drainRemote h with
  | none => none
  | some s =>
    match (s.headers h).freelist with
    | some fl => some (some fl, s.setHeader h { s.headers h with freelist := none })
    | none =>
      let cache := s.caches cls
      some (none, (s.setHeader h { s.headers h with onList := .full }).setCache cls
        { cache with full := h :: cache.full })

/-- `pmm_slab_grab_partial_batch`: the pages it removes, in order. -/
def grabPartialBatch (cls : ℕ) : ℕ → SlabPcpu → Option (List ℕ × SlabPcpu)
  | 0, s => some ([], s)
  | want + 1, s =>
    let cache := s.caches cls
    match cache.cachePartial with
    | [] => some ([], s)
    | h :: rest =>
      let s := s.setCache cls { cache with cachePartial := rest }
      match (s.setHeader h { s.headers h with onList := .unlisted }).drainRemote h with
      | none => none
      | some s =>
        match grabPartialBatch cls want s with
        | none => none
        | some (out, s) => some (h :: out, s)

/-- `pmm_slab_grab_empty`. -/
def grabEmpty (s : SlabPcpu) (cls : ℕ) : Option (Option ℕ × SlabPcpu) :=
  let cache := s.caches cls
  match cache.empty with
  | [] => some (none, s)
  | h :: rest =>
    let s := s.setCache cls { cache with empty := rest }
    match (s.setHeader h { s.headers h with onList := .unlisted }).drainRemote h with
    | none => none
    | some s => some (some h, s)

/-- The loop of `pmm_slab_grow_locked` that links the slots, from the last one to the first: the
words it leaves and the head. -/
def linkSlots (link : ℕ → Option ℕ) (slots : List ℕ) : (ℕ → Option ℕ) × Option ℕ :=
  slots.foldr (fun slot acc => (update acc.1 slot acc.2, some slot)) (link, none)

/-- `pmm_slab_grow_locked`: a fresh slab, put onto the partial list of the cache; `none` at the top
if the buddy allocator panics. -/
def growLocked (s : SlabPcpu) (cls : ℕ) : Option (Option ℕ × SlabPcpu) :=
  let g := (s.caches cls).geom
  match s.pmm.buddyAllocLocked g.slabOrder with
  | .error _ => none
  | .ok (none, p) => some (none, { s with pmm := p })
  | .ok (some slabPhys, p) =>
    let head := slabPhys >>> pageShift
    let s := { s with pmm := p.markAllocated slabPhys g.slabOrder }
    let s := s.track head (1 <<< g.slabOrder) (some cls) head
    if g.firstSlotOff ≥ g.slabBytes then
      let s := s.track head (1 <<< g.slabOrder) none 0
      match s.pmm.buddyFreeLocked slabPhys g.slabOrder with
      | .error _ => none
      | .ok p => some (none, { s with pmm := p })
    else
      let (link, freelist) := linkSlots s.link (g.slots slabPhys)
      let s := { s with link := link }
      let s := s.setHeader slabPhys ⟨cls, slabPhys, freelist, 0, .cachePartial, none⟩
      let cache := s.caches cls
      some (some slabPhys,
        s.setCache cls { cache with cachePartial := slabPhys :: cache.cachePartial })

/-- `pmm_slab_grow`: the fresh slab is taken off the partial list again. -/
def grow (s : SlabPcpu) (cls : ℕ) : Option (Option ℕ × SlabPcpu) :=
  match s.growLocked cls with
  | none => none
  | some (none, s) => some (none, s)
  | some (some h, s) =>
    let cache := s.caches cls
    let s := s.setCache cls { cache with cachePartial := cache.cachePartial.erase h }
    match (s.setHeader h { s.headers h with onList := .unlisted }).drainRemote h with
    | none => none
    | some s => some (some h, s)

/-! ### Steps -/

/-- The loop of step 3b of `slab_refill` that stashes a page on the per-CPU partial list. -/
def stashCpuPartial (s : SlabPcpu) (c cls page : ℕ) : SlabPcpu :=
  let w := s.lanes c cls
  let s := s.setLane c cls { w with partialPages := page :: w.partialPages }
  s.setHeader page { s.headers page with onList := .cpuPart }

/-- Step 3b of `slab_refill`: a batch of the cache's partial list. -/
def refillBatch (s : SlabPcpu) (c cls : ℕ) : Option (Option ℕ × SlabPcpu) :=
  let cap := (s.caches cls).geom.cpuPartialCap
  let cap := if cap = 0 then 1 else cap
  let room := slabPcpuPartialDepth - (s.lanes c cls).partialPages.length
  let want := if cap > room + 1 then room + 1 else cap
  match grabPartialBatch cls want s with
  | none => none
  | some ([], s) => some (none, s)
  | some (page :: rest, s) => some (some page, rest.foldl (fun s h => s.stashCpuPartial c cls h) s)

/-- Step 5 of `slab_refill`, up to the publication of the chain. -/
def promote (s : SlabPcpu) (c cls page : ℕ) : Option ℕ × SlabPcpu :=
  let h := s.headers page
  let s := s.setHeader page
    { h with onList := .cpuActive, inuse := (s.caches cls).geom.objPerSlab, freelist := none }
  (h.freelist, s.setLane c cls { s.lanes c cls with active := some page })

/-- `pmm_slab_header_of`: the base address of the slab a pointer lies in. -/
def headerOf (s : SlabPcpu) (ptr : ℕ) : Option ℕ :=
  let fi := ptr >>> pageShift
  if fi ≥ s.pmm.totalFrames then none
  else if s.trackers fi = none then none
  else some (s.heads fi <<< pageShift)

/-- A step of `slab_pcpu_alloc`. -/
def runAlloc (s : SlabPcpu) (t : ℕ) : Pc → Option SlabPcpu
  | .allocLoad cls =>
    let w := s.lanes (s.cpu t) cls
    match w.head with
    | none => some (s.goto t (.refill cls))
    | some slot => some (s.goto t (.allocNext cls slot ⟨s.cpu t, w.ver⟩))
  | .allocNext cls slot snap => some (s.goto t (.allocCas cls slot snap (s.link slot)))
  | .allocCas cls slot snap next =>
    match (s.lanes (s.cpu t) cls).cmpxchg16b (some slot) snap.tid next with
    | none => some (s.goto t (.allocLoad cls))
    | some w =>
      some ({ s.setLane (s.cpu t) cls w with out := insert slot s.out }.goto t .idle)
  | _ => none

/-- A step of `slab_refill` and `publish_freelist`. -/
def runRefill (s : SlabPcpu) (t : ℕ) : Pc → Option SlabPcpu
  | .refill cls =>
    let s' := { s with irqOff := update s.irqOff (s.cpu t) (some t) }
    match (s.lanes (s.cpu t) cls).active with
    | some page => some (s'.goto t (.demote cls page))
    | none => some (s'.goto t (.acquire cls))
  | .demote cls page =>
    match s.demoteOrKeep cls page with
    | none => none
    | some (some fl, s) => some (s.goto t (.publish cls (some fl) true))
    | some (none, s) =>
      some ((s.setLane (s.cpu t) cls { s.lanes (s.cpu t) cls with active := none }).goto t
        (.acquire cls))
  | .acquire cls =>
    let w := s.lanes (s.cpu t) cls
    match w.partialPages with
    | [] => some (s.goto t (.acquireBatch cls))
    | page :: rest =>
      let s := s.setLane (s.cpu t) cls { w with partialPages := rest }
      some ((s.setHeader page { s.headers page with onList := .unlisted }).goto t
        (.promote cls page))
  | .acquireBatch cls =>
    match s.refillBatch (s.cpu t) cls with
    | none => none
    | some (none, s) => some (s.goto t (.acquireEmpty cls))
    | some (some page, s) => some (s.goto t (.promote cls page))
  | .acquireEmpty cls =>
    match s.grabEmpty cls with
    | none => none
    | some (none, s) => some (s.goto t (.acquireGrow cls))
    | some (some page, s) => some (s.goto t (.promote cls page))
  | .acquireGrow cls =>
    match s.grow cls with
    | none => none
    | some (none, s) => some (s.goto t (.publish cls none false))
    | some (some page, s) => some (s.goto t (.promote cls page))
  | .promote cls page =>
    let (fl, s) := s.promote (s.cpu t) cls page
    some (s.goto t (.publish cls fl true))
  | .publish cls fl found =>
    let w := s.lanes (s.cpu t) cls
    some (s.goto t (.publishCas cls fl found w.head w.tid))
  | .publishCas cls fl found head tid =>
    let w := s.lanes (s.cpu t) cls
    match w.cmpxchg16b head tid fl with
    | none => some (s.goto t (.publishCas cls fl found w.head w.tid))
    | some w =>
      let s := s.setLane (s.cpu t) cls w
      let s := { s with irqOff := update s.irqOff (s.cpu t) none }
      some (s.goto t (if found then .allocLoad cls else .idle))
  | _ => none

/-- A step of `slab_pcpu_free`. -/
def runFree (s : SlabPcpu) (t : ℕ) : Pc → Option SlabPcpu
  | .freeActive ptr page cls =>
    if (s.lanes (s.cpu t) cls).active = some page then some (s.goto t (.freeLoad ptr page cls))
    else some (s.goto t (.remoteLoad ptr page))
  | .freeLoad ptr page cls =>
    let w := s.lanes (s.cpu t) cls
    some (s.goto t (.freeLink ptr page cls w.head w.tid))
  | .freeLink ptr page cls head tid =>
    some ((s.setLink ptr head).goto t (.freeCas ptr page cls head tid))
  | .freeCas ptr page cls head tid =>
    match (s.lanes (s.cpu t) cls).cmpxchg16b head tid (some ptr) with
    | none => some (s.goto t (.freeActive ptr page cls))
    | some w => some ((s.setLane (s.cpu t) cls w).goto t .idle)
  | .remoteLoad ptr page => some (s.goto t (.remoteLink ptr page (s.headers page).remoteFree))
  | .remoteLink ptr page old => some ((s.setLink ptr old).goto t (.remoteCas ptr page old))
  | .remoteCas ptr page old =>
    let header := s.headers page
    if header.remoteFree = old then
      some ((s.setHeader page { header with remoteFree := some ptr }).goto t .idle)
    else some (s.goto t (.remoteLink ptr page header.remoteFree))
  | _ => none

/-- What can happen next. -/
inductive Action where
  /-- a task calls `slab_pcpu_alloc` -/
  | alloc (t cls : ℕ)
  /-- a task calls `slab_pcpu_free` for a slot that is handed out -/
  | free (t ptr : ℕ)
  /-- a task makes its next step -/
  | run (t : ℕ)
  /-- a task is moved to another CPU -/
  | migrate (t c : ℕ)
  /-- the holder of a slot stores to its first word -/
  | write (ptr : ℕ) (v : Option ℕ)
  deriving DecidableEq, Repr

/-- No other task has disabled interrupts on the CPU of the task. -/
def enabled (s : SlabPcpu) (t : ℕ) : Bool := (s.irqOff (s.cpu t)).all (· = t)

/-- One step of the system. -/
def step (s : SlabPcpu) : Action → Option SlabPcpu
  | .alloc t cls =>
    if s.pc t = .idle ∧ s.enabled t then
      if cls ≥ kmallocCacheCount then some s else some (s.goto t (.allocLoad cls))
    else none
  | .free t ptr =>
    if s.pc t = .idle ∧ s.enabled t ∧ ptr ∈ s.out then
      let s := { s with out := s.out.erase ptr }
      match s.headerOf ptr with
      | none => some s
      | some page => some (s.goto t (.freeActive ptr page (s.headers page).cache))
    else none
  | .run t =>
    if s.enabled t then
      (s.runAlloc t (s.pc t)).or ((s.runRefill t (s.pc t)).or (s.runFree t (s.pc t)))
    else none
  | .migrate t c =>
    if s.irqOff (s.cpu t) = some t then none
    else some { s with cpu := update s.cpu t c }
  | .write ptr v => if ptr ∈ s.out then some (s.setLink ptr v) else none

/-- The zeroed per-CPU state and the caches of `kheap_init`, over a buddy allocator, with the tasks
on any CPUs and any words in memory. -/
def init (pmm : Pmm) (cpu : ℕ → ℕ) (link : ℕ → Option ℕ) : SlabPcpu where
  pmm := pmm
  trackers := fun _ => none
  heads := fun _ => 0
  headers := fun _ => ⟨0, 0, none, 0, .unlisted, none⟩
  caches := fun cls => ⟨slabCacheInit (kmallocSizes.getD cls 0), [], [], []⟩
  link := link
  lanes := fun _ _ => ⟨none, 0, none, []⟩
  irqOff := fun _ => none
  cpu := cpu
  pc := fun _ => .idle
  out := ∅

end SlabPcpu

end Makaos
