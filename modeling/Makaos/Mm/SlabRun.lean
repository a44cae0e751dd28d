import Makaos.Lib.Transition
import Makaos.Mm.SlabInv
import Makaos.Mm.PmmInit

/-!
The calls of the slab allocator and their runs.

* `pcpuAlloc_spec`, `pcpuFree_spec`: the specifications of the two entry points, assembled from
  the six moves of the invariant.
* `SlabSys`: the allocator together with the slots its callers hold.
* `slab_run_reachable`: over every run, where the free slots of a page are, and when a fresh page
  is taken.
-/

namespace Makaos

open Function Slab Option List
open Transition (exec)
variable {b : DyadicBlock} {x : ℕ} {L : ℕ → List ℕ}
namespace SlabInv

variable {s : Slab} {L : ℕ → List ℕ} {loc : ℕ → SlotLoc} {c cls : ℕ} {rest : List ℕ}

/-! ### Where a page comes from -/

lemma grabPartialBatch_nil (hnil : (s.caches cls).cachePartial = []) (want : ℕ) :
    grabPartialBatch cls want s = ([], s) := by
  cases want with
  | zero => rfl
  | succ want =>
    rw [grabPartialBatch]
    dsimp only
    rw [hnil]

/-- With nothing on the partial lists and the empty list, a page comes from the buddy
allocator. -/
lemma acquirePage_eq_grow (h : SlabInv s L loc) (c cls : ℕ) : s.acquirePage c cls = s.grow cls := by
  have hpop : s.popCpuPartial c cls = (none, s) := by
    rw [popCpuPartial]
    dsimp only
    rw [h.noCpuPartial c cls]
  have hbatch : s.refillBatch c cls = (none, s) := by
    rw [refillBatch, grabPartialBatch_nil (h.noPartial cls)]
  have hempty : s.grabEmpty cls = (none, s) := by
    rw [grabEmpty]
    dsimp only
    rw [h.noEmpty cls]
  rw [acquirePage, hpop]
  dsimp only
  rw [hbatch]
  dsimp only
  rw [hempty]

/-- The state after `pmm_slab_grow` took the block `b` and left the buddy allocator as `p`. -/
def grown (s : Slab) (cls : ℕ) (b : DyadicBlock) (p : Pmm) : Slab where
  pmm := p.markAllocated (blockAddr b) b.order
  headers := update s.headers (blockAddr b) ⟨cls, blockAddr b, pageSlots cls b, 0, .unlisted, []⟩
  trackers := fun f =>
    if b.first ≤ f ∧ f < b.first + 2 ^ b.order ∧ f < p.totalFrames then some cls else s.trackers f
  heads := fun f =>
    if b.first ≤ f ∧ f < b.first + 2 ^ b.order ∧ f < p.totalFrames then b.first else s.heads f
  caches := s.caches
  cpus := s.cpus

lemma grow_spec (h : SlabInv s L loc) (hcls : cls < kmallocCacheCount) :
    (s.grow cls = .ok (none, s) ∧ ∀ b, IsFree L b → b.order < (geomOf cls).slabOrder) ∨
    ∃ (b : DyadicBlock) (p : Pmm) (L' : ℕ → List ℕ),
      s.grow cls = .ok (some (blockAddr b), grown s cls b p) ∧
      b.order = (geomOf cls).slabOrder ∧ b.frames ⊆ freeFrames L ∧ BuddyInv p L' ∧
      freeFrames L' = freeFrames L \ b.frames ∧ Keeps s.pmm p (freeFrames L) := by
  have hok := geomOk_of_lt cls hcls
  rcases buddyAllocLocked_spec h.buddy (geomOf cls).slabOrder with ⟨hnone, hno⟩ |
    ⟨b, p, L', hsome, ho, hsub, hinv, hfree, hkeep⟩
  · refine .inl ⟨?_, hno⟩
    rw [grow, growLocked]
    dsimp only
    rw [h.geom, hnone]
  · refine .inr ⟨b, p, L', ?_, ho, hsub, hinv, hfree, hkeep⟩
    have hcache : ({ s.caches cls with cachePartial := [] } : SlabCache) = s.caches cls := by
      rw [← h.noPartial cls]
    rw [grow, growLocked]
    dsimp only
    rw [h.geom, hsome]
    dsimp only
    rw [if_neg (not_le.mpr hok.first_lt), blockAddr_shiftRight, ← ho, ← pageSlots]
    simp only [setCache, setHeader, track, SlabHeader.drainRemote, h.noPartial,
      update_self, erase_cons_head, hcache, update_idem, update_eq_self, Nat.one_shiftLeft]
    rfl

lemma installed_promote (h : SlabInv s L loc) {p : Pmm} (hsub : b.frames ⊆ freeFrames L)
    (htotal : p.totalFrames = s.pmm.totalFrames) :
    Installed s ((grown s cls b p).promote c cls (blockAddr b)) c cls b := by
  set s' := (grown s cls b p).promote c cls (blockAddr b) with hs'
  have hhead : ∀ a, s'.headers a = if a = blockAddr b then
      ⟨cls, blockAddr b, [], (s.caches cls).geom.objPerSlab, .cpuActive, []⟩ else s.headers a := by
    intro a
    by_cases ha : a = blockAddr b
    · subst ha
      simp [hs', promote, publishFreelist, setCpu, setHeader, grown]
    · simp [hs', promote, publishFreelist, setCpu, setHeader, grown, ha]
  refine ⟨?_, rfl, fun a ha => by rw [hhead, if_neg ha], by rw [hhead, if_pos rfl],
    by rw [hhead, if_pos rfl], fun c' cls' => ?_⟩
  · have hlast := h.buddy.last_le_of_subset hsub
    have hin : ∀ f, (b.first ≤ f ∧ f < b.first + 2 ^ b.order ∧ f < p.totalFrames) ↔
        (b.first ≤ f ∧ f < b.last) := by
      intro f
      rw [htotal, ← DyadicBlock.last_eq]
      omega
    have howner : (fun a => (s'.headers a).cache) =
        update (fun a => (s.headers a).cache) (blockAddr b) cls := by
      funext a
      rw [hhead]
      by_cases ha : a = blockAddr b
      · subst ha
        simp
      · simp [ha]
    have htr : s'.trackers = fun f =>
        if b.first ≤ f ∧ f < b.last then some cls else s.trackers f := by
      funext f
      show (if _ then _ else _) = _
      simp only [hin]
    have hhd : s'.heads = fun f =>
        if b.first ≤ f ∧ f < b.last then b.first else s.heads f := by
      funext f
      show (if _ then _ else _) = _
      simp only [hin]
    have htot : s'.pmm.totalFrames = s.pmm.totalFrames := htotal
    rw [pageMap, htot, htr, hhd, howner]
    rfl
  · have hself : (grown s cls b p).headers (blockAddr b) =
        ⟨cls, blockAddr b, pageSlots cls b, 0, .unlisted, []⟩ := by simp [grown]
    have hcpus : s'.cpus = ((grown s cls b p).setCpu c cls
        ⟨pageSlots cls b, some (blockAddr b), (s.cpus c cls).partialPages⟩).cpus := by
      simp only [hs', promote, publishFreelist, hself, setCpu_setCpu, setCpu_self]
      rfl
    rw [hcpus, setCpu_apply, h.noCpuPartial]
    rfl

/-- What `slab_refill` does to a CPU whose chain is empty: it publishes a chain that is not empty,
or it finds no memory. -/
structure Refilled (s s' : Slab) (L L' : ℕ → List ℕ) (loc loc' : ℕ → SlotLoc) (c cls : ℕ) :
    Prop where
  inv : SlabInv s' L' loc'
  live : ∀ y, loc' y = .live ↔ loc y = .live
  keeps : Keeps s.pmm s'.pmm (freeFrames L)
  free_sub : freeFrames L' ⊆ freeFrames L
  frames : s'.frames = s.frames ∪ (freeFrames L \ freeFrames L')
  pages : ∀ cls' b, s.pageMap.IsPage cls' b → s'.pageMap.IsPage cls' b
  kept : ∀ b, s.pageMap.IsPage cls b → (s.cpus c cls).active = some (blockAddr b) →
    (s.headers (blockAddr b)).remoteFree ≠ [] →
      freeFrames L' = freeFrames L ∧ (s'.cpus c cls).active = some (blockAddr b)

lemma drainRemote_fields {hd : SlabHeader} (hfl : hd.freelist = []) :
    hd.drainRemote.cache = hd.cache ∧ hd.drainRemote.remoteFree = [] ∧
      hd.drainRemote.freelist = hd.remoteFree := by
  rw [SlabHeader.drainRemote]
  split
  next hr => exact ⟨rfl, hr, by rw [hfl, hr]⟩
  · exact ⟨rfl, rfl, by rw [hfl, append_nil]⟩

/-- A fresh page for a CPU that has none. -/
lemma refill_grow (h : SlabInv s L loc) (hcls : cls < kmallocCacheCount)
    (hempty : (s.cpus c cls).freelist = []) (hnone : (s.cpus c cls).active = none) :
    (s.grow cls = .ok (none, s) ∧ ∀ b, IsFree L b → b.order < (geomOf cls).slabOrder) ∨
    ∃ (page : ℕ) (s1 : Slab) (L' : ℕ → List ℕ) (loc' : ℕ → SlotLoc),
      s.grow cls = .ok (some page, s1) ∧
      Refilled s (s1.promote c cls page) L L' loc loc' c cls ∧
      ((s1.promote c cls page).cpus c cls).freelist ≠ [] := by
  have hok := geomOk_of_lt cls hcls
  rcases h.grow_spec hcls with hfail | ⟨b, p, L', hgrow, ho, hsub, hinv, hfree, hkeep⟩
  · exact .inl hfail
  · have hins : Installed s ((grown s cls b p).promote c cls (blockAddr b)) c cls b :=
      h.installed_promote hsub hkeep.total
    have hinv' : BuddyInv ((grown s cls b p).promote c cls (blockAddr b)).pmm L' :=
      hinv.of_counters _ _
    have hslab := h.fresh hcls ho hsub hins hempty hnone hinv' hfree
    have hnew := (h.isPage_installed hcls ho hsub hins).mpr (.inr ⟨rfl, rfl⟩)
    refine .inr ⟨blockAddr b, _, L', _, hgrow, ⟨hslab, fun y => ?_, ?_, ?_, ?_, ?_, ?_⟩, ?_⟩
    · by_cases hy : y ∈ pageSlots cls b
      · -- the slots of the fresh page were no slots before
        have hnot : loc y = .nowhere := by
          by_contra hne
          obtain ⟨cls1, b1, hp1, hy1⟩ := (h.slots.slot y).mp hne
          have hf := hp1.slot_frame hy1
          have hf' := hnew.slot_frame hy
          have := (hp1.tracked _ hf).1
          exact h.pages.apart _ (by rw [this]; simp) (hsub hf')
        simp [hy, hnot]
      · simp [hy]
    · exact ⟨hkeep.ceiling, hkeep.total, hkeep.overlay⟩
    · rw [hfree]
      exact Set.sdiff_subset
    · have htr := congrArg PageMap.trackers hins.map
      rw [hfree, Set.sdiff_sdiff_cancel_left hsub]
      ext f
      have hf := congrFun htr f
      simp only [frames, Set.mem_ofPred_eq, Set.mem_union]
      rw [show ((grown s cls b p).promote c cls (blockAddr b)).trackers f =
        (s.pageMap.extend cls b).trackers f from hf]
      by_cases hin : b.first ≤ f ∧ f < b.last
      · simp only [PageMap.extend, if_pos hin, ne_eq, reduceCtorEq, not_false_eq_true, true_iff]
        exact .inr hin
      · simp only [PageMap.extend, if_neg hin]
        exact ⟨.inl, fun h => h.resolve_right hin⟩
    · exact fun cls' b' hp' => (h.isPage_installed hcls ho hsub hins).mpr (.inl hp')
    · intro b' _ ha' _
      rw [hnone] at ha'
      cases ha'
    · rw [hins.cpus, if_pos ⟨rfl, rfl⟩]
      exact hok.slots_ne_nil _

lemma publishFreelist_nil (hempty : (s.cpus c cls).freelist = []) :
    s.publishFreelist c cls [] = s := by
  have hsame : ({ s.cpus c cls with freelist := [] } : CpuSlab) = s.cpus c cls := by rw [← hempty]
  simp only [publishFreelist, hsame, setCpu, update_eq_self]

lemma Refilled.refl (h : SlabInv s L loc) : Refilled s s L L loc loc c cls :=
  ⟨h, fun _ => Iff.rfl, Keeps.refl _ _, subset_rfl, by simp, fun _ _ hp => hp,
    fun _ _ ha _ => ⟨rfl, ha⟩⟩

/-- The outcome of `slab_refill`. -/
def RefillOutcome (s : Slab) (L : ℕ → List ℕ) (loc : ℕ → SlotLoc) (c cls : ℕ)
    (r : Except Scribbled (Bool × Slab)) : Prop :=
  (∃ s', r = .ok (false, s') ∧ Refilled s s' L L loc loc c cls ∧
    (∀ b, s.pageMap.IsPage cls b → (s.cpus c cls).active = some (blockAddr b) →
      (s.headers (blockAddr b)).remoteFree = []) ∧
    ∀ b, IsFree L b → b.order < (geomOf cls).slabOrder) ∨
  ∃ s' L' loc', r = .ok (true, s') ∧ Refilled s s' L L' loc loc' c cls ∧
    (s'.cpus c cls).freelist ≠ []

/-- The second half of `slab_refill`, for a CPU without an active page. -/
lemma acquire_outcome (h : SlabInv s L loc) (hcls : cls < kmallocCacheCount)
    (hempty : (s.cpus c cls).freelist = []) (hnone : (s.cpus c cls).active = none) :
    RefillOutcome s L loc c cls (match s.acquirePage c cls with
      | .error e => .error e
      | .ok (none, s) => .ok (false, s.publishFreelist c cls [])
      | .ok (some page, s) => .ok (true, s.promote c cls page)) := by
  rw [h.acquirePage_eq_grow]
  rcases h.refill_grow hcls hempty hnone with ⟨hfail, hno⟩ | ⟨page, s1, L', loc', hok, href, hne⟩
  · rw [hfail]
    dsimp only
    rw [publishFreelist_nil hempty]
    refine .inl ⟨s, rfl, .refl h, fun b _ ha => ?_, hno⟩
    rw [hnone] at ha
    nomatch ha
  · rw [hok]
    exact .inr ⟨_, L', loc', rfl, href, hne⟩

/-- **`slab_refill`** on a CPU whose chain is empty. -/
lemma refill_spec (h : SlabInv s L loc) (hcls : cls < kmallocCacheCount)
    (hempty : (s.cpus c cls).freelist = []) : RefillOutcome s L loc c cls (s.refill c cls) := by
  rw [refill, rescueOrDemote]
  cases hact : (s.cpus c cls).active with
  | none => exact h.acquire_outcome hcls hempty hact
  | some a =>
    obtain ⟨b, hp, rfl⟩ := h.slots.active c cls a hact
    obtain ⟨hcache, hrem, hfl⟩ := drainRemote_fields (h.slots.freelist cls b hp)
    dsimp only
    rw [demoteOrKeep]
    dsimp only
    by_cases hremote : (s.headers (blockAddr b)).remoteFree = []
    · -- no free slot anywhere: the page is parked and a fresh one is taken
      rw [if_neg (by rw [hfl, hremote]; simp)]
      dsimp only
      have hpark := h.park { (s.headers (blockAddr b)).drainRemote with onList := .full }
        hempty hp hact hcache (by rw [← hremote]; exact hfl) (by rw [hremote]; exact hrem)
      set s1 := ((s.setHeader (blockAddr b)
        { (s.headers (blockAddr b)).drainRemote with onList := .full }).setCache cls
        { s.caches cls with full := blockAddr b :: (s.caches cls).full }).setCpu c cls
        { s.cpus c cls with active := none } with hs1
      have hmap : s1.pageMap = s.pageMap := @Slab.pageMap_setHeader (blockAddr b) s
        { (s.headers (blockAddr b)).drainRemote with onList := .full } hcache
      have hfirst : ∀ b', s.pageMap.IsPage cls b' → (s.cpus c cls).active = some (blockAddr b') →
          (s.headers (blockAddr b')).remoteFree = [] := by
        intro b' _ ha'
        rw [hact] at ha'
        rwa [← some.inj ha']
      have hchain : (s1.cpus c cls).freelist = [] := by
        rwa [hs1, setCpu_self]
      have hinactive : (s1.cpus c cls).active = none := by rw [hs1, setCpu_self]
      rcases hpark.acquire_outcome hcls hchain hinactive with
        ⟨s', hr, href, _, hno⟩ | ⟨s', L', loc', hr, href, hne⟩
      · exact .inl ⟨s', hr, { href with
          pages := fun cls' b' hp' => href.pages cls' b' (hmap ▸ hp')
          kept := fun b' hp' ha' hne => absurd (hfirst b' hp' ha') hne }, hfirst, hno⟩
      · exact .inr ⟨s', L', loc', hr, { href with
          pages := fun cls' b' hp' => href.pages cls' b' (hmap ▸ hp')
          kept := fun b' hp' ha' hne => absurd (hfirst b' hp' ha') hne }, hne⟩
    · -- the rescued chain is published
      rw [if_pos (by rw [hfl]; exact hremote), hfl]
      dsimp only
      have hresc := h.rescue { (s.headers (blockAddr b)).drainRemote with freelist := [] }
        hempty hp hact hcache rfl hrem
      refine .inr ⟨_, L, _, rfl, ⟨hresc, fun y => ?_, Keeps.refl _ _, subset_rfl, ?_, ?_,
        fun b' _ ha' _ => ⟨rfl, ?_⟩⟩, ?_⟩
      · by_cases hy : loc y = .remote (blockAddr b) <;> simp [hy]
      · rw [sdiff_self, Set.bot_eq_empty, Set.union_empty]
        rfl
      · intro cls' b' hp'
        have hmap := @Slab.pageMap_setHeader (blockAddr b) s
          { (s.headers (blockAddr b)).drainRemote with freelist := [] } hcache
        rw [show ((s.setHeader (blockAddr b) _).publishFreelist c cls _).pageMap =
          (s.setHeader (blockAddr b) _).pageMap from rfl, hmap]
        exact hp'
      · rwa [publishFreelist, setCpu_self]
      · rwa [publishFreelist, setCpu_self]

/-! ### The two entry points -/

/-- What a call of `slab_pcpu_alloc` that returns `r` has done. -/
structure AllocEffect (s s' : Slab) (L L' : ℕ → List ℕ) (loc loc' : ℕ → SlotLoc) (c cls : ℕ)
    (r : Option ℕ) : Prop where
  inv : SlabInv s' L' loc'
  live : ∀ y, loc' y = .live ↔ loc y = .live ∨ r = some y
  result : ∀ x, r = some x → loc x ≠ .live ∧ ∃ b, s'.pageMap.IsPage cls b ∧ x ∈ pageSlots cls b
  failed : r = none → ∀ b, IsFree L b → b.order < (geomOf cls).slabOrder
  keeps : Keeps s.pmm s'.pmm (freeFrames L)
  free_sub : freeFrames L' ⊆ freeFrames L
  frames : s'.frames = s.frames ∪ (freeFrames L \ freeFrames L')
  pages : ∀ cls' b, s.pageMap.IsPage cls' b → s'.pageMap.IsPage cls' b
  reuse : ∀ b, s.pageMap.IsPage cls b → (s.cpus c cls).active = some (blockAddr b) →
    ((s.cpus c cls).freelist ≠ [] ∨ (s.headers (blockAddr b)).remoteFree ≠ []) →
      freeFrames L' = freeFrames L ∧ ∃ x ∈ pageSlots cls b, r = some x

lemma allocLoop_pop (hx : (s.cpus c cls).freelist = x :: rest) (n : ℕ) :
    allocLoop (n + 1) s c cls =
      .ok (some x, s.setCpu c cls { s.cpus c cls with freelist := rest }) := by
  rw [allocLoop]
  dsimp only
  rw [hx]

lemma effect_pop {s1 : Slab} {L' : ℕ → List ℕ} {loc1 : ℕ → SlotLoc}
    (href : Refilled s s1 L L' loc loc1 c cls) (hx : (s1.cpus c cls).freelist = x :: rest)
    (hkept : ∀ b, s.pageMap.IsPage cls b → (s.cpus c cls).active = some (blockAddr b) →
      ((s.cpus c cls).freelist ≠ [] ∨ (s.headers (blockAddr b)).remoteFree ≠ []) →
      freeFrames L' = freeFrames L ∧ (s1.cpus c cls).active = some (blockAddr b)) :
    AllocEffect s (s1.setCpu c cls { s1.cpus c cls with freelist := rest }) L L' loc
      (update loc1 x .live) c cls (some x) := by
  have hloc : loc1 x = .cpu c cls :=
    (href.inv.slots.chain c cls x).mp (by rw [hx]; exact mem_cons_self)
  refine ⟨href.inv.pop hx, fun y => ?_, fun y hy => ?_, nofun, href.keeps,
    href.free_sub, href.frames, href.pages, fun b hp ha hfree => ?_⟩
  · by_cases hy : y = x
    · subst hy
      simp
    · rw [update_of_ne hy, href.live]
      simp [Ne.symm hy]
  · cases hy
    refine ⟨fun hlive => ?_, ?_⟩
    · rw [(href.live x).mpr hlive] at hloc
      nomatch hloc
    · obtain ⟨b, hp, hxb, _⟩ := href.inv.slots.chain_active c cls x hloc
      exact ⟨b, hp, hxb⟩
  · obtain ⟨hsame, hact⟩ := hkept b hp ha hfree
    obtain ⟨b', hp', hx', ha'⟩ := href.inv.slots.chain_active c cls x hloc
    rw [hact] at ha'
    obtain ⟨_, rfl⟩ := (href.pages cls b hp).eq_of_addr hp' (some.inj ha')
    exact ⟨hsame, x, hx', rfl⟩

/-- **`slab_pcpu_alloc`**: it does not panic; it hands out a slot that was not handed out, or
fails for want of a free block. -/
lemma pcpuAlloc_spec (h : SlabInv s L loc) (hcls : cls < kmallocCacheCount) (c : ℕ) :
    ∃ r s' L' loc', s.pcpuAlloc c cls = .ok (r, s') ∧ AllocEffect s s' L L' loc loc' c cls r := by
  rw [pcpuAlloc, if_neg (by omega)]
  simp only [h.noCpuPartial, h.noPartial, h.noEmpty, length_nil]
  cases hfl : (s.cpus c cls).freelist with
  | cons x rest =>
    exact ⟨_, _, L, _, allocLoop_pop hfl _, effect_pop (.refl h) hfl fun _ _ ha _ => ⟨rfl, ha⟩⟩
  | nil =>
    rw [allocLoop, hfl]
    rcases h.refill_spec hcls hfl with ⟨s', hr, href, hrem, hno⟩ | ⟨s1, L', loc1, hr, href, hne⟩
    · rw [hr]
      refine ⟨none, s', L, loc, rfl, href.inv, fun y => by simp, fun x hx => by simp at hx,
        fun _ => hno, href.keeps, href.free_sub, href.frames, href.pages, fun b hp ha hfree => ?_⟩
      exact absurd hfree (by rw [hfl, hrem b hp ha]; simp)
    · rw [hr]
      cases hfl1 : (s1.cpus c cls).freelist with
      | nil => exact absurd hfl1 hne
      | cons x rest =>
        exact ⟨_, _, L', _, allocLoop_pop hfl1 _, effect_pop href hfl1 fun b hp ha hfree =>
          href.kept b hp ha (hfree.resolve_left fun hne => hne hfl)⟩

/-- The page of a handed-out slot is found through the trackers. -/
lemma headerOf_slot (hp : s.pageMap.IsPage cls b) (hx : x ∈ pageSlots cls b) :
    s.headerOf x = some (blockAddr b) := by
  have hf := hp.slot_frame hx
  obtain ⟨ht, hh⟩ := hp.tracked _ hf
  have hlt : x / pageSize < s.pmm.totalFrames := hf.2.trans_le hp.inRange
  rw [headerOf, shiftRight_pageShift, if_neg (not_le.mpr hlt), if_neg,
    show s.heads (x / pageSize) = b.first from hh,
    Nat.shiftLeft_eq, two_pow_pageShift]
  · rfl
  · rw [show s.trackers (x / pageSize) = some cls from ht]
    simp

/-- What a call of `slab_pcpu_free` for the slot `x` has done. -/
structure FreeEffect (s s' : Slab) (L : ℕ → List ℕ) (loc loc' : ℕ → SlotLoc) (x : ℕ) : Prop where
  inv : SlabInv s' L loc'
  live : ∀ y, loc' y = .live ↔ loc y = .live ∧ y ≠ x
  place : ∃ cls b, s.pageMap.IsPage cls b ∧ x ∈ pageSlots cls b ∧
    (loc' x = .remote (blockAddr b) ∨ ∃ c, loc' x = .cpu c cls)
  others : ∀ y, y ≠ x → loc' y = loc y
  pmm : s'.pmm = s.pmm
  map : s'.pageMap = s.pageMap

/-- **`slab_pcpu_free`** of a handed-out slot: it goes back to its page. -/
lemma pcpuFree_spec (h : SlabInv s L loc) (hlive : loc x = .live) (c : ℕ) :
    ∃ loc', FreeEffect s (s.pcpuFree c x) L loc loc' x := by
  obtain ⟨cls, b, hp, hx⟩ := (h.slots.slot x).mp (by rw [hlive]; simp)
  have hmoved : ∀ v : SlotLoc, v ≠ .live →
      ∀ y, update loc x v y = .live ↔ loc y = .live ∧ y ≠ x := by
    intro v hv y
    by_cases hy : y = x
    · subst hy
      simp [hv]
    · simp [hy]
  rw [pcpuFree, headerOf_slot hp hx]
  dsimp only
  have hown : (s.headers (blockAddr b)).cache = cls := hp.owner
  subst hown
  split_ifs with hact
  · exact ⟨_, h.pushLocal hlive hp hx hact, hmoved _ (by simp),
      ⟨_, b, hp, hx, .inr ⟨c, update_self _ _ _⟩⟩,
      fun y hy => update_of_ne hy _ _, rfl, rfl⟩
  · exact ⟨_, h.pushRemote hlive hp hx, hmoved _ (by simp),
      ⟨_, b, hp, hx, .inl (update_self _ _ _)⟩,
      fun y hy => update_of_ne hy _ _, rfl, pageMap_setHeader rfl⟩

end SlabInv

/-! ### Runs -/

/-- A call of the per-CPU layer on a CPU. -/
inductive SlabCall where
  | alloc (c cls : ℕ)
  | free (c x : ℕ)
  deriving DecidableEq, Repr

/-- The allocator and the slots that are handed out. -/
structure SlabSys where
  slab : Slab
  out : Finset ℕ

/-- One call; `none` if the allocator panics or if the caller does not hold what it frees. -/
def SlabSys.step (t : SlabSys) : SlabCall → Option SlabSys
  | .alloc c cls =>
    match t.slab.pcpuAlloc c cls with
    | .error _ => none
    | .ok (none, s) => some ⟨s, t.out⟩
    | .ok (some x, s) => some ⟨s, insert x t.out⟩
  | .free c x => if x ∈ t.out then some ⟨t.slab.pcpuFree c x, t.out.erase x⟩ else none

/-- The start: nothing is handed out. -/
def SlabSys.init (pmm : Pmm) : SlabSys := ⟨Slab.init pmm, ∅⟩

/-- The state of the system: the invariant, and the held slots are the handed-out ones. -/
def SlabSys.Inv (t : SlabSys) : Prop :=
  ∃ L loc, SlabInv t.slab L loc ∧ ∀ x, x ∈ t.out ↔ loc x = .live

lemma SlabSys.Inv.step {t t' : SlabSys} (h : t.Inv) {call : SlabCall}
    (hstep : t.step call = some t') : t'.Inv := by
  obtain ⟨L, loc, hinv, hout⟩ := h
  cases call with
  | alloc c cls =>
    by_cases hcls : cls < kmallocCacheCount
    · obtain ⟨r, s', L', loc', hok, heff⟩ := hinv.pcpuAlloc_spec hcls c
      rw [SlabSys.step, hok] at hstep
      refine ⟨L', loc', ?_⟩
      cases r with
      | none =>
        cases hstep
        refine ⟨heff.inv, fun x => ?_⟩
        rw [heff.live, ← hout]
        simp
      | some y =>
        cases hstep
        refine ⟨heff.inv, fun x => ?_⟩
        rw [heff.live, ← hout, Finset.mem_insert, some.injEq, or_comm, eq_comm]
    · rw [SlabSys.step, pcpuAlloc, if_pos (by omega)] at hstep
      cases hstep
      exact ⟨L, loc, hinv, hout⟩
  | free c x =>
    rw [SlabSys.step] at hstep
    obtain ⟨hx, rfl⟩ := ite_some_none_eq_some.mp hstep
    obtain ⟨loc', heff⟩ := hinv.pcpuFree_spec ((hout x).mp hx) c
    refine ⟨L, loc', heff.inv, fun y => ?_⟩
    rw [heff.live, ← hout, Finset.mem_erase, and_comm]

lemma SlabSys.Inv.exec {t t' : SlabSys} (h : t.Inv) {calls : List SlabCall}
    (hrun : Transition.exec SlabSys.step t calls = some t') : t'.Inv :=
  Transition.exec_invariant (fun h _ hstep => SlabSys.Inv.step h hstep) hrun
    (Transition.meets_true t calls) h

lemma SlabSys.init_inv {pmm : Pmm} (h : BuddyInv pmm L) : (SlabSys.init pmm).Inv :=
  ⟨L, _, Slab.init_inv h, fun x => by simp [SlabSys.init]⟩

lemma SlabInv.slot_of_active {s : Slab} {loc : ℕ → SlotLoc} {c cls : ℕ} (h : SlabInv s L loc)
    (hp : s.pageMap.IsPage cls b) (hact : (s.cpus c cls).active = some (blockAddr b))
    (hx : x ∈ pageSlots cls b) :
    loc x = .live ∨ x ∈ (s.cpus c cls).freelist ∨ x ∈ (s.headers (blockAddr b)).remoteFree := by
  rw [h.slots.chain, h.slots.remote cls b hp]
  cases hloc : loc x with
  | nowhere => exact absurd hloc ((h.slots.slot x).mpr ⟨cls, b, hp, hx⟩)
  | live => exact .inl rfl
  | cpu c' cls' =>
    obtain ⟨b', hp', hx', ha'⟩ := h.slots.chain_active c' cls' x hloc
    obtain ⟨rfl, rfl⟩ := hp.slot_unique hp' hx hx'
    obtain ⟨rfl, _⟩ := h.slots.active_inj c c' cls cls _ hact ha'
    exact .inr (.inl rfl)
  | remote a =>
    obtain ⟨cls', b', hp', hx', rfl⟩ := h.slots.remote_page x a hloc
    obtain ⟨rfl, rfl⟩ := hp.slot_unique hp' hx hx'
    exact .inr (.inr rfl)

/-- **The slots of a cache over every run.**  After any sequence of calls on any CPUs, for every
page that is not parked on the full list: it is active on exactly one CPU, every slot of it that
is not handed out is on that CPU's chain or on the page's remote stack, and if there is such a
slot, the next `slab_pcpu_alloc` on that CPU hands out a slot of this page.  And a call that takes
a fresh page finds every slot of the CPU's active page handed out, the CPU's chain and partial
list empty, and the partial and the empty list of the cache empty. -/
theorem slab_run_reachable {pmm : Pmm} {L : ℕ → List ℕ} (hpmm : BuddyInv pmm L)
    {calls : List SlabCall} {t : SlabSys} (hrun : exec SlabSys.step (.init pmm) calls = some t) :
    (∀ cls b, t.slab.pageMap.IsPage cls b → blockAddr b ∉ (t.slab.caches cls).full →
      ∃! c, (t.slab.cpus c cls).active = some (blockAddr b)) ∧
    (∀ cls b c, t.slab.pageMap.IsPage cls b → (t.slab.cpus c cls).active = some (blockAddr b) →
      (∀ x ∈ pageSlots cls b, x ∉ t.out →
        x ∈ (t.slab.cpus c cls).freelist ∨ x ∈ (t.slab.headers (blockAddr b)).remoteFree) ∧
      ((∃ x ∈ pageSlots cls b, x ∉ t.out) →
        ∃ x ∈ pageSlots cls b, ∃ s', t.slab.pcpuAlloc c cls = .ok (some x, s'))) ∧
    (∀ c cls r s', t.slab.pcpuAlloc c cls = .ok (r, s') →
      (∃ b, s'.pageMap.IsPage cls b ∧ ¬ t.slab.pageMap.IsPage cls b) →
      (∀ b, t.slab.pageMap.IsPage cls b → (t.slab.cpus c cls).active = some (blockAddr b) →
        ∀ x ∈ pageSlots cls b, x ∈ t.out) ∧
      (t.slab.cpus c cls).freelist = [] ∧ (t.slab.cpus c cls).partialPages = [] ∧
      (t.slab.caches cls).cachePartial = [] ∧ (t.slab.caches cls).empty = []) := by
  obtain ⟨L', loc, hinv, hout⟩ := (SlabSys.init_inv hpmm).exec hrun
  have hslot : ∀ {cls b c x}, t.slab.pageMap.IsPage cls b →
      (t.slab.cpus c cls).active = some (blockAddr b) → x ∈ pageSlots cls b → x ∉ t.out →
      x ∈ (t.slab.cpus c cls).freelist ∨ x ∈ (t.slab.headers (blockAddr b)).remoteFree :=
    fun hp hact hx hnot => (hinv.slot_of_active hp hact hx).resolve_left (hnot ∘ (hout _).mpr)
  refine ⟨fun cls b hp hnot => ?_, fun cls b c hp hact => ⟨fun x => hslot hp hact, ?_⟩,
    fun c cls r s' hok hnew => ?_⟩
  · obtain ⟨c, hc⟩ := (hinv.slots.parked cls b hp).mpr hnot
    exact ⟨c, hc, fun c' hc' => (hinv.slots.active_inj c' c cls cls _ hc' hc).1⟩
  · rintro ⟨y, hy, hnot⟩
    obtain ⟨r, s', L1, loc1, hok, heff⟩ := hinv.pcpuAlloc_spec hp.cls_lt c
    obtain ⟨_, x, hx, rfl⟩ := heff.reuse b hp hact
      ((hslot hp hact hy hnot).imp ne_nil_of_mem ne_nil_of_mem)
    exact ⟨x, hx, s', hok⟩
  · obtain ⟨b0, hp0, hnot0⟩ := hnew
    obtain ⟨r1, s1, L1, loc1, hok1, heff⟩ := hinv.pcpuAlloc_spec hp0.cls_lt c
    rw [hok] at hok1
    obtain ⟨rfl, rfl⟩ := Prod.mk.inj (Except.ok.inj hok1)
    -- the frames of the fresh page have left the free lists
    have hfresh : freeFrames L1 ≠ freeFrames L' := by
      intro hsame
      have hframes := heff.frames
      rw [hsame, sdiff_self, Set.bot_eq_empty, Set.union_empty] at hframes
      have hmem : b0.first ∈ s'.frames := by
        have := (hp0.tracked _ b0.first_mem_frames).1
        exact fun hnone => by simp [pageMap, hnone] at this
      rw [hframes] at hmem
      obtain ⟨cls', hcls'⟩ := ne_none_iff_exists'.mp hmem
      obtain ⟨b', hp', hf'⟩ := hinv.pages.page _ cls' hcls'
      obtain ⟨rfl, rfl⟩ := (heff.pages cls' b' hp').unique hp0 hf' b0.first_mem_frames
      exact hnot0 hp'
    refine ⟨fun b hp hact x hx => ?_, ?_, hinv.noCpuPartial c cls, hinv.noPartial cls,
      hinv.noEmpty cls⟩
    · by_contra hnot
      exact hfresh (heff.reuse b hp hact
        ((hslot hp hact hx hnot).imp ne_nil_of_mem ne_nil_of_mem)).1
    · by_contra hne
      obtain ⟨x, hx⟩ := exists_mem_of_ne_nil _ hne
      obtain ⟨b, hp, _, hact⟩ := hinv.slots.chain_active c cls x ((hinv.slots.chain c cls x).mp hx)
      exact hfresh (heff.reuse b hp hact (.inl hne)).1

/-! ### A page that is lost -/

/-- The allocator after freeing a block, for building one by hand. -/
def afterFree (s : Pmm) (b : DyadicBlock) : Pmm :=
  match s.buddyFreeLocked (blockAddr b) b.order with
  | .ok s' => s'
  | .error _ => s

lemma afterFree_inv {s : Pmm} (h : BuddyInv s L) (hlast : b.last ≤ s.totalFrames)
    (hdisj : Disjoint b.frames (freeFrames L)) :
    ∃ L', BuddyInv (afterFree s b) L' ∧ freeFrames L' = b.frames ∪ freeFrames L ∧
      (afterFree s b).totalFrames = s.totalFrames := by
  obtain ⟨s', L', hok, hinv, hfree, hkeep⟩ := buddyFreeLocked_spec h hlast hdisj
  rw [afterFree, hok]
  exact ⟨L', hinv, hfree, hkeep.total⟩

/-- 32 frames, of which the last 24 are free. -/
def twentyFour : Pmm :=
  afterFree (afterFree (emptyPmm noLinks (32 * pageSize) (totalFramesOf (32 * pageSize))) ⟨3, 1⟩)
    ⟨4, 1⟩

lemma twentyFour_inv : ∃ L, BuddyInv twentyFour L := by
  obtain ⟨L1, h1, hfree1, htot1⟩ := afterFree_inv (emptyPmm_inv noLinks (32 * pageSize))
    (b := ⟨3, 1⟩) (by decide) (by rw [freeFrames_nil]; exact Set.disjoint_empty _)
  obtain ⟨L2, h2, _⟩ := afterFree_inv h1 (b := ⟨4, 1⟩) (by rw [htot1]; decide) (by
    rw [hfree1, freeFrames_nil, Set.union_empty]
    exact Set.disjoint_left.mpr fun f hf hf' => absurd (lt_of_lt_of_le hf'.2 hf.1) (lt_irrefl f))
  exact ⟨L2, h2⟩

lemma SlabSys.Inv.isPage {cls : ℕ} {t : SlabSys} (h : t.Inv)
    (htr : t.slab.trackers b.first = some cls)
    (ho : b.order = (geomOf cls).slabOrder := by decide +kernel) :
    t.slab.pageMap.IsPage cls b := by
  obtain ⟨L, loc, hinv, _⟩ := h
  obtain ⟨b', hp', hf'⟩ := hinv.pages.page _ cls htr
  by_cases hbb : b = b'
  · exact hbb ▸ hp'
  · have hdisj := DyadicBlock.disjoint_of_order_eq (ho.trans hp'.order.symm) hbb
    exact absurd hf' (Set.disjoint_left.mp hdisj b.first_mem_frames)

/-- Eight objects of the largest class, which fill one page and start a second, and the return of
the seven of the first page. -/
def fillAndFree : List SlabCall :=
  replicate 8 (.alloc 0 9) ++ (range 7).map fun i => .free 0 ((9 + i) * pageSize)

/-- Seven more objects. -/
def sevenMore : List SlabCall := replicate 7 (.alloc 0 9)

lemma not_isPage_of_untracked {cls : ℕ} {s : Slab} (h : s.trackers b.first = none) :
    ¬ s.pageMap.IsPage cls b := by
  intro hp
  have htr : s.trackers b.first = some cls := (hp.tracked _ b.first_mem_frames).1
  rw [h] at htr
  nomatch htr

/-- **Two ways past the free slots of a page.**  All objects of the page at frame 8 have been
freed; it is active on no CPU and on none of the lists that a refill looks at, and the seventh of
the next allocations takes a fresh page, at frame 24.  And a refill takes a fresh page, at frame
16, with six free slots on the active page of another CPU. -/
theorem fresh_page_beside_free_slots :
    (∃ t t', exec SlabSys.step (.init twentyFour) fillAndFree = some t ∧
      t.slab.pageMap.IsPage 9 ⟨3, 1⟩ ∧ (∀ x ∈ pageSlots 9 ⟨3, 1⟩, x ∉ t.out) ∧
      (∀ c, (t.slab.cpus c 9).active ≠ some (blockAddr ⟨3, 1⟩)) ∧
      (t.slab.caches 9).cachePartial = [] ∧ (t.slab.caches 9).empty = [] ∧
      exec SlabSys.step t sevenMore = some t' ∧ (∀ x ∈ pageSlots 9 ⟨3, 1⟩, x ∉ t'.out) ∧
      ¬ t.slab.pageMap.IsPage 9 ⟨3, 3⟩ ∧ t'.slab.pageMap.IsPage 9 ⟨3, 3⟩) ∧
    (∃ t t', exec SlabSys.step (.init twentyFour) [.alloc 0 9] = some t ∧
      t.slab.pageMap.IsPage 9 ⟨3, 1⟩ ∧ 10 * pageSize ∈ pageSlots 9 ⟨3, 1⟩ ∧
      10 * pageSize ∉ t.out ∧ exec SlabSys.step t [.alloc 1 9] = some t' ∧
      ¬ t.slab.pageMap.IsPage 9 ⟨3, 2⟩ ∧ t'.slab.pageMap.IsPage 9 ⟨3, 2⟩) := by
  obtain ⟨L, hpmm⟩ := twentyFour_inv
  constructor
  · have hfacts : ((exec SlabSys.step (.init twentyFour) fillAndFree).bind fun t =>
        (exec SlabSys.step t sevenMore).map fun t' => (t.slab.trackers 8, t.slab.trackers 24,
          t'.slab.trackers 24, (t.slab.caches 9).full,
          decide (∀ x ∈ pageSlots 9 ⟨3, 1⟩, x ∉ t.out ∧ x ∉ t'.out))) =
        some (some 9, none, some 9, [blockAddr ⟨3, 1⟩], true) := by decide +kernel
    simp only [bind_eq_some_iff, map_eq_some_iff, Prod.mk.injEq, decide_eq_true_eq] at hfacts
    obtain ⟨t, ht, t', ht', htr, hno, htr', hfull, hout⟩ := hfacts
    have hinv := (SlabSys.init_inv hpmm).exec ht
    have hpage : t.slab.pageMap.IsPage 9 ⟨3, 1⟩ := hinv.isPage htr
    have hpage' : t'.slab.pageMap.IsPage 9 ⟨3, 3⟩ := (hinv.exec ht').isPage htr'
    obtain ⟨L', loc, hslab, _⟩ := hinv
    refine ⟨t, t', ht, hpage, fun x hx => (hout x hx).1, fun c hact => ?_, hslab.noPartial 9,
      hslab.noEmpty 9, ht', fun x hx => (hout x hx).2, not_isPage_of_untracked hno, hpage'⟩
    exact (hslab.slots.parked 9 _ hpage).mp ⟨c, hact⟩ (by rw [hfull]; exact mem_cons_self)
  · have hfacts : ((exec SlabSys.step (.init twentyFour) [.alloc 0 9]).bind fun t =>
        (exec SlabSys.step t [.alloc 1 9]).map fun t' => (t.slab.trackers 8, t.slab.trackers 16,
          decide (10 * pageSize ∈ t.out), t'.slab.trackers 16)) =
        some (some 9, none, false, some 9) := by decide +kernel
    simp only [bind_eq_some_iff, map_eq_some_iff, Prod.mk.injEq, decide_eq_false_iff_not] at hfacts
    obtain ⟨t, ht, t', ht', htr, hno, hout, htr'⟩ := hfacts
    have hinv := (SlabSys.init_inv hpmm).exec ht
    exact ⟨t, t', ht, hinv.isPage htr, by decide +kernel, hout, ht',
      not_isPage_of_untracked hno, (hinv.exec ht').isPage htr'⟩

/-- One allocation and its return: the page is active on CPU 0 and all its slots are free there. -/
theorem twentyFour_reachable :
    ∃ t, exec SlabSys.step (.init twentyFour) [.alloc 0 9, .free 0 (9 * pageSize)] = some t ∧
      ∃ x ∈ pageSlots 9 ⟨3, 1⟩, ∃ s', t.slab.pcpuAlloc 0 9 = .ok (some x, s') := by
  obtain ⟨L, hpmm⟩ := twentyFour_inv
  have hfacts : (exec SlabSys.step (.init twentyFour) [.alloc 0 9, .free 0 (9 * pageSize)]).map (fun t =>
      (t.slab.trackers 8, (t.slab.cpus 0 9).active, t.out)) =
      some (some 9, some (blockAddr ⟨3, 1⟩), ∅) := by decide +kernel
  simp only [map_eq_some_iff, Prod.mk.injEq] at hfacts
  obtain ⟨t, ht, htr, hact, hout⟩ := hfacts
  have hpage : t.slab.pageMap.IsPage 9 ⟨3, 1⟩ :=
    ((SlabSys.init_inv hpmm).exec ht).isPage htr
  refine ⟨t, ht, ((slab_run_reachable hpmm ht).2.1 9 ⟨3, 1⟩ 0 hpage hact).2 ⟨9 * pageSize, ?_, ?_⟩⟩
  · decide +kernel
  · rw [hout]
    exact Finset.notMem_empty _

end Makaos
