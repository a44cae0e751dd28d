import Makaos.Lib.Transition
import Makaos.Mm.RefCountSpaces
import Makaos.Syscall.MmapRun
import Mathlib.Data.List.ReduceOption

/-!
The reference counts over every run.

* `frame_refs_accounted`: over every run of operations that meet their condition the counts are
  exact.
* `readahead_leaks_reference`: read-ahead over a page that is cached.
-/

namespace Makaos

open World List Nat
variable {i : ℕ}

namespace World

variable {K : Set ℕ} {w : World} {held : List ℕ}

/-! ### The cache -/

lemma evictLoop_count (m : PhysMem) (g n : ℕ) : ∀ ring : List CacheEntry,
    cacheRefs (evictLoop m n ring).1 g + ((evictLoop m n ring).2.toList).count g =
      cacheRefs ring g := by
  induction n with
  | zero => exact fun ring => rfl
  | succ n ih =>
    intro ring
    cases ring with
    | nil => rfl
    | cons cand ring =>
      have hturn : ∀ b, cacheRefs (ring ++ [{ cand with accessed := b }]) g =
          cacheRefs (cand :: ring) g := by
        intro b
        rw [cacheRefs_append, cacheRefs, cacheRefs, map_cons, count_cons_eq]
      rw [evictLoop]
      split
      · rw [ih, hturn]
      · split
        · rw [ih, hturn]
        · show cacheRefs ring g + [cand.frame].count g = _
          rw [cacheRefs, cacheRefs, map_cons, count_cons_eq, count_cons_eq]
          simp

/-- **Eviction** drops the reference of the cache. -/
lemma Owned.evictOne (h : Owned K w held) : Owned K w.pcacheEvictOne.2 held := by
  have hcount := fun g => evictLoop_count w.mem g (max (w.cache.length * 2) 2) w.cache
  rw [pcacheEvictOne]
  generalize evictLoop w.mem (max (w.cache.length * 2) 2) w.cache = r at hcount
  obtain ⟨ring, victim⟩ := r
  dsimp only at hcount
  have h1 : Owned K { w with cache := ring } (victim.toList ++ held) := by
    refine h.shift rfl (fun g => ?_) (fun g => ?_) h.objectOnce
    · have := hcount g
      simp only [owners, count_append]
      omega
    · have := hcount g
      have honce := h.cacheOnce g
      show cacheRefs ring g ≤ 1
      omega
  cases victim with
  | none => exact h1
  | some f => exact h1.refDec

/-- **Eviction of a file** drops the references of the cache. -/
lemma Owned.evictInode (h : Owned K w held) (ino : ℕ) : Owned K (w.pcacheEvictInode ino) held := by
  rw [pcacheEvictInode]
  split
  · exact h
  · have hcount : ∀ g, cacheRefs (w.cache.filter fun e => e.ino ≠ ino) g +
        (((w.cache.filter fun e => e.ino = ino).map CacheEntry.frame)).count g =
        cacheRefs w.cache g := by
      intro g
      have hsplit := countP_eq_countP_filter_add w.cache (fun e => e.frame == g)
        fun e => decide (e.ino = ino)
      simp only [cacheRefs, count_eq_countP, countP_map]
      rw [add_comm]
      simpa [Function.comp_def] using hsplit.symm
    refine Owned.refDecs _ (h.shift rfl (fun g => ?_) (fun g => ?_) h.objectOnce)
    · have := hcount g
      simp only [owners, count_append]
      omega
    · have := hcount g
      have honce := h.cacheOnce g
      show cacheRefs (w.cache.filter _) g ≤ 1
      omega

/-! ### Objects -/

lemma count_reduceOption (l : List (Option ℕ)) (g : ℕ) :
    l.reduceOption.count g = l.count (some g) := by
  rw [reduceOption, count_filterMap]
  rfl

/-- An object gives up pages, whose frames are freed. -/
lemma Owned.dropPages (h : Owned K w held) {o : ℕ} {s : Shmem} (hs : w.shmem o = some s)
    (s' : Option Shmem) (gone : List ℕ)
    (hsum : ∀ g, (s'.elim [] Shmem.pages).count (some g) + gone.count g = s.pages.count (some g)) :
    Owned K (gone.foldl World.refDec (w.setShmem o s')) held := by
  refine Owned.refDecs _ (h.setShmem hs s' (fun g => ?_) fun g => ?_)
  · rw [count_append, ← hsum g]
    omega
  · have hset := objectRefs_set (shmem_eq_some hs) s' g
    have honce := h.objectOnce g
    have := hsum g
    simp only [Option.elim_some] at hset
    omega

/-- **`shmem_resize`** keeps the accounts. -/
lemma Owned.shmemResize (h : Owned K w held) (o n : ℕ) : Owned K (w.shmemResize o n).2 held := by
  rw [World.shmemResize]
  cases hs : w.shmem o with
  | none => exact h
  | some s =>
    -- growing adds pages that are not there yet
    have hgrow : ∀ {w' : World}, Owned K w' held → w'.shmem o = some s → ∀ cap,
        Owned K (w'.setShmem o
          (some ⟨s.pages ++ replicate (n - s.pages.length) none, cap⟩)) held := by
      intro w' h' hs' cap
      refine h'.dropPages hs' _ [] fun g => ?_
      simp [count_append, count_replicate]
    dsimp only
    split
    · exact h
    · split
      · exact h
      · split
        · refine h.dropPages hs _ _ fun g => ?_
          rw [count_reduceOption]
          show (s.pages.take n).count _ + _ = _
          rw [← count_append, take_append_drop]
        · split
          · split
            · exact h
            · cases w.kmalloc.next with
              | mk ok ks =>
                have h' : Owned K { w with kmalloc := ks } held := { h with }
                cases ok with
                | false => exact h'
                | true => exact hgrow h' hs _
          · exact hgrow h hs _

/-- **The end of an object** keeps the accounts. -/
lemma Owned.shmemFree (h : Owned K w held) (o : ℕ) : Owned K (w.shmemFree o) held := by
  rw [World.shmemFree]
  cases hs : w.shmem o with
  | none => exact h
  | some s =>
    refine h.dropPages hs none _ fun g => ?_
    rw [count_reduceOption]
    simp

/-! ### Runs -/

/-- What happens to the frames of user memory. -/
inductive FrameOp where
  /-- a fault on a page that is not present -/
  | fault (i addr : ℕ) (isWrite isIfetch : Bool)
  /-- a write fault on a page that is present -/
  | cow (i addr : ℕ)
  | fork (i : ℕ)
  | munmap (i addr len : ℕ)
  | brkShrink (i newBrk : ℕ)
  | release (i : ℕ)
  | evictOne
  | evictInode (ino : ℕ)
  | shmemResize (o n : ℕ)
  | shmemFree (o : ℕ)
  /-- other VMAs, as after `sys_mmap` or `sys_mprotect` -/
  | remap (i : ℕ) (vmas : List Vma)
  /-- a page of device memory is mapped -/
  | device (i n : ℕ) (e : Pte)

/-- What an operation does. -/
def FrameOp.apply (w : World) : FrameOp → World
  | .fault i addr isWrite isIfetch => (w.faultMissing i addr isWrite isIfetch).2
  | .cow i addr => (w.faultCow i addr).2
  | .fork i => (w.fork i).2
  | .munmap i addr len => w.munmap i addr len
  | .brkShrink i newBrk => w.brkShrink i newBrk
  | .release i => w.releaseMm i
  | .evictOne => w.pcacheEvictOne.2
  | .evictInode ino => w.pcacheEvictInode ino
  | .shmemResize o n => (w.shmemResize o n).2
  | .shmemFree o => w.shmemFree o
  | .remap i vmas =>
    match w.spaces[i]? with
    | none => w
    | some sp => w.setSpace i { sp with mm := { sp.mm with vmas := vmas } }
  | .device i n e =>
    match w.spaces[i]? with
    | none => w
    | some sp => w.setSpace i { sp with pt := sp.pt.insert n e }

/-- **The condition on an operation**: read-ahead meets no cached page, no fault falls into device
memory, and a fork that fails has no device memory among the frames.  The VMAs change only in ways
that leave the kind of the pages that are present. -/
def FrameOp.Ok (w : World) : FrameOp → Prop
  | .fault i addr _ _ => ∀ sp, w.spaces[i]? = some sp → FaultOk w sp addr
  | .fork i => ∀ sp, w.spaces[i]? = some sp → ForkOk w i sp
  | .brkShrink i newBrk => ∀ sp, w.spaces[i]? = some sp → BrkOk sp newBrk
  | .remap i vmas => VmasOk vmas ∧ ∀ sp, w.spaces[i]? = some sp →
      ∀ n e, sp.pt.lookup n = some e → mmioPage vmas n = mmioPage sp.mm.vmas n
  | .device i n _ => ∀ sp, w.spaces[i]? = some sp →
      mmioPage sp.mm.vmas n = true ∧ sp.pt.lookup n = none
  | _ => True

/-- A run. -/
abbrev frameRun : World → List FrameOp → World := Transition.run FrameOp.apply

/-- Every operation of a run meets its condition. -/
abbrev FrameRunOk : World → List FrameOp → Prop := Transition.RunMeets FrameOp.apply FrameOp.Ok

/-- What holds between the operations. -/
structure FrameInv (K : Set ℕ) (w : World) : Prop where
  owned : Owned K w []
  vmas : ∀ sp ∈ w.spaces, VmasOk sp.mm.vmas

/-! ### What an operation does to the VMAs -/

/-- At most the entries of one address space change. -/
def OnlyEntries (i : ℕ) (w w' : World) : Prop :=
  w'.spaces = w.spaces ∨
    ∃ sp pt, w.spaces[i]? = some sp ∧ w'.spaces = w.spaces.set i { sp with pt := pt }

/-- The VMAs of every address space are in order. -/
abbrev VmasKept (w : World) : Prop := ∀ sp ∈ w.spaces, VmasOk sp.mm.vmas

lemma OnlyEntries.vmas {w' : World} (h : OnlyEntries i w w') (hv : w.VmasKept) : w'.VmasKept := by
  unfold VmasKept
  rcases h with h | ⟨sp, pt, hs, h⟩
  · rwa [h]
  · rw [h]
    intro sp' hsp'
    rcases mem_or_eq_of_mem_set hsp' with hmem | rfl
    · exact hv sp' hmem
    · exact hv sp (mem_of_getElem? hs)

lemma faultMissing_onlyEntries (w : World) (i addr : ℕ) (isWrite isIfetch : Bool) :
    OnlyEntries i w (w.faultMissing i addr isWrite isIfetch).2 := by
  have hmiss := w.faultMissing_missed i addr isWrite isIfetch
  generalize (w.faultMissing i addr isWrite isIfetch).2 = w' at hmiss
  cases hmiss with
  | refused => exact .inl rfl
  | noFrame | dropped => exact .inl (w.resolveFrame_spaces _ _)
  | @mapped sp v f ts hs hv ho hnone =>
    refine .inr ⟨sp, sp.pt.insert (addr / pageSize) ⟨f, mmVmaPteFlags v.flags⟩, hs, ?_⟩
    show (w.resolveFrame v (alignDown addr)).2.spaces.set i _ = _
    rw [resolveFrame_spaces]

lemma faultCow_onlyEntries (w : World) (i addr : ℕ) : OnlyEntries i w (w.faultCow i addr).2 := by
  have hcow := w.faultCow_cowed i addr
  generalize (w.faultCow i addr).2 = w' at hcow
  cases hcow with
  | same | noMem => exact .inl rfl
  | copied hs | reused hs => exact .inr ⟨_, _, hs, rfl⟩

lemma foldl_refDec_spaces (fs : List ℕ) : ∀ w : World, (fs.foldl refDec w).spaces = w.spaces := by
  induction fs with
  | nil => exact fun _ => rfl
  | cons f fs ih => exact fun w => ih (w.refDec f)

lemma freeEntries_spaces (mmio : ℕ → Bool) (pt : PteMap) (w : World) :
    (freeEntries mmio pt w).spaces = w.spaces := by
  rw [freeEntries]
  induction pt.entries.filter fun e => !mmio e.1 generalizing w with
  | nil => rfl
  | cons x rest ih => exact ih (w.refDec x.2.frame)

lemma VmasOk.copy {vmas : List Vma} (h : VmasOk vmas) : VmasOk (vmas.map copyVma) := by
  refine ⟨⟨fun u hu => ?_, ?_⟩, fun u hu => ?_, fun u hu hs => ?_⟩
  · obtain ⟨v, hv, rfl⟩ := mem_map.mp hu
    exact h.ordered.nonempty v hv
  · exact pairwise_map.mpr h.ordered.apart
  · obtain ⟨v, hv, rfl⟩ := mem_map.mp hu
    exact h.aligned v hv
  · obtain ⟨v, hv, rfl⟩ := mem_map.mp hu
    rw [copyVma_shmem] at hs
    exact h.kinds v hv hs

lemma forkMm_vmas {sp : AddrSpace} (hs : w.spaces[i]? = some sp)
    (hv : w.VmasKept) (hown : Owned K w held) : (w.forkMm i sp).2.VmasKept := by
  unfold VmasKept
  have hvmas := hv sp (mem_of_getElem? hs)
  obtain ⟨rest, hc⟩ := (CloneInv.init hown sp).cloneLoop hvmas hs
  obtain ⟨ok, c, ks, w₁, hloop, rfl, hres⟩ := w.forkMm_cases i sp hvmas.ordered
  rw [hloop] at hc
  have hset : (c.world.setSpace i { sp with pt := c.src }).VmasKept := by
    refine OnlyEntries.vmas (.inr ⟨sp, c.src, hs, ?_⟩) hv
    show c.world.spaces.set i _ = _
    rw [hc.spaces]
  rcases hres with heq | heq | ⟨-, heq⟩ <;> rw [heq]
  · rwa [freeEntries_spaces]
  · rwa [freeEntries_spaces]
  · intro sp' hsp'
    rcases mem_append.mp hsp' with hmem | hmem
    · exact hset sp' hmem
    · obtain rfl := mem_singleton.mp hmem
      exact hvmas.copy

lemma fork_vmas (hv : w.VmasKept) (hown : Owned K w held) : (w.fork i).2.VmasKept := by
  obtain ⟨ks, ts, heq | ⟨sp, hs, heq⟩⟩ := w.fork_cases i <;> rw [heq]
  · exact hv
  · have hown' : Owned K { w with kmalloc := ks, tables := ts } held := { hown with }
    exact forkMm_vmas hs hv hown'

lemma setSpace_vmas {i : ℕ} {sp' : AddrSpace} (hv : w.VmasKept) (h : VmasOk sp'.mm.vmas) :
    (w.setSpace i sp').VmasKept := by
  intro sp hsp
  rcases mem_or_eq_of_mem_set hsp with hmem | rfl
  · exact hv sp hmem
  · exact h

lemma munmap_vmas (hv : w.VmasKept) (i addr len : ℕ) : (w.munmap i addr len).VmasKept := by
  rw [VmasKept, munmap]
  cases hs : w.spaces[i]? with
  | none => exact hv
  | some sp =>
    dsimp only
    split_ifs with hargs
    · exact hv
    · simp only [PageAligned, not_or, not_not] at hargs
      rw [foldl_refDec_spaces]
      refine @setSpace_vmas { w with kmalloc := _ } i _ hv ?_
      exact (hv sp (mem_of_getElem? hs)).remove _ (alignedStop addr len hargs.2.1)

lemma brkShrink_vmas (hv : w.VmasKept) {newBrk : ℕ}
    (hok : ∀ sp, w.spaces[i]? = some sp → BrkOk sp newBrk) : (w.brkShrink i newBrk).VmasKept := by
  rw [VmasKept, brkShrink]
  cases hs : w.spaces[i]? with
  | none => exact hv
  | some sp =>
    dsimp only
    split
    · exact hv
    · rw [foldl_refDec_spaces]
      exact setSpace_vmas hv ((hv sp (mem_of_getElem? hs)).shrink (hok sp hs).2)

/-! ### The page tables behind the entries -/

/-- An address space as the system calls of one process have it: the same `mm_t`, and the entries are
those that the walk of the page tables finds. -/
structure Shows (sp : AddrSpace) (s : Space) : Prop where
  mm : sp.mm = s.mm
  entries : ∀ n < 2 ^ 35,
    (sp.pt.lookup n).map Pte.frame = (pteAt s.mem s.pml4 (n * pageSize)).child

section

variable {sp : AddrSpace} {s : Space} (h : Shows sp s) (hs : w.spaces[i]? = some sp)
include h

omit hs in
lemma Shows.unmap {k page : ℕ} {m : PhysMem}
    (hchild : ∀ n < 2 ^ 35, (pteAt m s.pml4 (n * pageSize)).child =
      if page ≤ n ∧ n < page + k then none else (pteAt s.mem s.pml4 (n * pageSize)).child)
    (vmas : List Vma) (mm : Mm) :
    Shows ⟨mm, (unmapEntries vmas k page sp.pt).2⟩ ⟨mm, s.pml4, m⟩ where
  mm := rfl
  entries n hn := by
    rw [unmapEntries_lookup, hchild n hn, ← h.entries n hn]
    split_ifs <;> rfl

include hs

/-- **`munmap` does to the entries what `sysMunmap` does to the page tables.** -/
theorem munmap_shows (ht : UserTables s.mem s.pml4) {addr len : ℕ}
    (hend : wrap (addr + alignUp len) ≤ 2 ^ 47) :
    ∃ sp', (w.munmap i addr len).spaces[i]? = some sp' ∧
      Shows sp' (s.sysMunmap w.kmalloc addr len).2 := by
  rw [munmap, hs, Space.sysMunmap]
  dsimp only
  by_cases hargs : addr = 0 ∨ ¬ PageAligned addr
  · rw [if_pos (by tauto), if_pos hargs]
    exact ⟨sp, hs, h⟩
  by_cases hlen : len = 0
  · rw [if_pos (by tauto), if_neg hargs, if_pos hlen]
    exact ⟨sp, hs, h⟩
  have hlt : ∀ j < (wrap (addr + alignUp len) - addr) / pageSize,
      addr + j * pageSize < 2 ^ 47 := by
    intro j hj
    simp only [pageSize] at hj ⊢
    omega
  rw [if_neg (by tauto), if_neg hargs, if_neg hlen, foldl_refDec_spaces, h.mm]
  refine ⟨_, getElem?_set_self (List.getElem?_eq_some_iff.mp hs).1, ?_⟩
  rw [Space.unmap]
  generalize mmVmaRemove w.kmalloc s.mm.vmas addr (wrap (addr + alignUp len)) = r
  exact h.unmap (fun n hn => (unmapRange_child _ _ ht hlt _ (userAddr_page hn)).trans
    (if_congr (exists_page_iff hlt hn) rfl rfl)) _ _

/-- **`brkShrink` likewise.** -/
theorem brkShrink_shows (ht : UserTables s.mem s.pml4) (hrefs : RefsOk s.mem s.pml4) {newBrk : ℕ}
    (hlo : s.mm.brkStart ≤ newBrk) (hhi : newBrk < s.mm.brk) (hbrk : s.mm.brk + pageSize ≤ 2 ^ 47) :
    ∃ sp', (w.brkShrink i newBrk).spaces[i]? = some sp' ∧ Shows sp' (s.brkShrink newBrk).2 := by
  have hlt : ∀ j < (s.mm.brk - newBrk + (pageSize - 1)) / pageSize,
      newBrk + j * pageSize < 2 ^ 47 := by
    intro j hj
    simp only [pageSize] at hj hbrk ⊢
    omega
  rw [brkShrink, hs]
  dsimp only
  rw [h.mm, if_neg (by omega), foldl_refDec_spaces]
  refine ⟨_, getElem?_set_self (List.getElem?_eq_some_iff.mp hs).1, ?_⟩
  exact h.unmap (fun n hn => ((unmapLoop_spec _ ht hrefs hlt).2.2.2 _ (userAddr_page hn)).trans
    (if_congr (exists_page_iff hlt hn) rfl rfl)) _ _

end

lemma shmemResize_spaces (w : World) (o n : ℕ) : (w.shmemResize o n).2.spaces = w.spaces := by
  rw [shmemResize]
  cases w.shmem o with
  | none => rfl
  | some s =>
    dsimp only
    split
    · rfl
    · split
      · rfl
      · split
        · exact foldl_refDec_spaces _ _
        · split
          · split
            · rfl
            · cases w.kmalloc.next with
              | mk ok ks => cases ok <;> rfl
          · rfl

/-! ### The run -/

/-- **One operation** keeps the invariant. -/
lemma FrameInv.apply (h : FrameInv K w) (op : FrameOp) (hok : FrameOp.Ok w op) :
    FrameInv K (FrameOp.apply w op) := by
  obtain ⟨hown, hv⟩ := h
  have hvi : ∀ {i : ℕ} {sp : AddrSpace}, w.spaces[i]? = some sp → VmasOk sp.mm.vmas :=
    fun hs => hv _ (mem_of_getElem? hs)
  cases op with
  | fault i addr isWrite isIfetch =>
    obtain ⟨leaked, hown', hl⟩ := hown.faultMissing i addr isWrite isIfetch
    obtain rfl := hl hok
    exact ⟨hown', (w.faultMissing_onlyEntries i addr isWrite isIfetch).vmas hv⟩
  | cow i addr =>
    exact ⟨hown.faultCow (fun _ hs => hvi hs) addr, (w.faultCow_onlyEntries i addr).vmas hv⟩
  | fork i => exact ⟨hown.fork fun sp hs => ⟨hvi hs, hok sp hs⟩, fork_vmas hv hown⟩
  | munmap i addr len => exact ⟨hown.munmap (fun _ hs => hvi hs) addr len, munmap_vmas hv i addr len⟩
  | brkShrink i newBrk =>
    exact ⟨hown.brkShrink fun sp hs => ⟨hvi hs, hok sp hs⟩, brkShrink_vmas hv hok⟩
  | release i =>
    refine ⟨hown.releaseMm i, ?_⟩
    rw [FrameOp.apply, releaseMm]
    cases w.spaces[i]? with
    | none => exact hv
    | some sp =>
      dsimp only
      rw [freeEntries_spaces]
      exact fun sp' hsp' => hv sp' (mem_of_mem_eraseIdx hsp')
  | evictOne =>
    refine ⟨hown.evictOne, ?_⟩
    rw [FrameOp.apply, pcacheEvictOne]
    generalize evictLoop w.mem (max (w.cache.length * 2) 2) w.cache = r
    obtain ⟨ring, victim⟩ := r
    cases victim <;> exact hv
  | evictInode ino =>
    refine ⟨hown.evictInode ino, ?_⟩
    rw [FrameOp.apply, pcacheEvictInode]
    split
    · exact hv
    · rwa [foldl_refDec_spaces]
  | shmemResize o n =>
    refine ⟨hown.shmemResize o n, ?_⟩
    rwa [FrameOp.apply, shmemResize_spaces]
  | shmemFree o =>
    refine ⟨hown.shmemFree o, ?_⟩
    rw [FrameOp.apply, shmemFree]
    cases w.shmem o with
    | none => exact hv
    | some s =>
      dsimp only
      rwa [foldl_refDec_spaces]
  | remap i vmas =>
    rw [FrameOp.apply]
    cases hs : w.spaces[i]? with
    | none => exact ⟨hown, hv⟩
    | some sp =>
      refine ⟨hown.setSpace hs _ fun g => ?_, setSpace_vmas hv hok.1⟩
      rw [maps_eq_count, maps_eq_count, heldBy_congr (hok.2 sp hs)]
  | device i n e =>
    rw [FrameOp.apply]
    cases hs : w.spaces[i]? with
    | none => exact ⟨hown, hv⟩
    | some sp =>
      obtain ⟨hm, hnone⟩ := hok sp hs
      have hvmas : VmasOk sp.mm.vmas := hvi hs
      refine ⟨hown.setSpace hs _ fun g => ?_, setSpace_vmas hv hvmas⟩
      rw [maps_eq_count, maps_eq_count, heldBy_insert _ hnone, if_pos hm]

/-- The cache holds the frame. -/
def cacheHolds (w : World) (f : ℕ) : Bool := w.cache.any fun e => e.frame = f

/-- An object that is alive holds the frame. -/
def objectHolds (w : World) (f : ℕ) : Bool :=
  w.shmems.any fun o => (o.elim [] Shmem.pages).any fun p => p = some f

/-- **The counts are exact**: the reference count of a frame of user memory is the number of present
entries that map it, plus one if the cache holds it, plus one if an object holds it, and a frame
without a pin is free exactly if it has none of these. -/
def Accounted (K : Set ℕ) (w : World) : Prop :=
  ∀ f < w.mem.totalFrames, f ∉ K →
    w.mem.refs f = mapRefs w.spaces f + (w.cacheHolds f).toNat + (w.objectHolds f).toNat ∧
    (w.mem.pins f = 0 → (f ∈ w.mem.free ↔
      mapRefs w.spaces f = 0 ∧ w.cacheHolds f = false ∧ w.objectHolds f = false))

lemma cacheRefs_eq_toNat {f : ℕ} (h : cacheRefs w.cache f ≤ 1) :
    cacheRefs w.cache f = (w.cacheHolds f).toNat := by
  cases hc : w.cacheHolds f with
  | true =>
    simp only [cacheHolds, any_eq_true, decide_eq_true_eq] at hc
    obtain ⟨e, he, rfl⟩ := hc
    have := cacheRefs_pos he
    simp only [Bool.toNat_true]
    omega
  | false =>
    simp only [cacheHolds, any_eq_false, decide_eq_true_eq] at hc
    simpa [cacheRefs, count_eq_zero] using hc

lemma objectRefs_eq_toNat {f : ℕ} (h : objectRefs w.shmems f ≤ 1) :
    objectRefs w.shmems f = (w.objectHolds f).toNat := by
  cases hc : w.objectHolds f with
  | true =>
    simp only [objectHolds, any_eq_true, decide_eq_true_eq] at hc
    obtain ⟨o, ho, p, hp, rfl⟩ := hc
    have hpos : 0 < (o.elim [] Shmem.pages).count (some f) := count_pos_iff.mpr hp
    have hle : (o.elim [] Shmem.pages).count (some f) ≤ objectRefs w.shmems f :=
      single_le_sum (fun _ _ => zero_le _) _ (mem_map.mpr ⟨o, ho, rfl⟩)
    simp only [Bool.toNat_true]
    omega
  | false =>
    simp only [objectHolds, any_eq_false, any_eq_true, decide_eq_true_eq] at hc
    simp only [objectRefs, Bool.toNat_false, sum_eq_zero_iff, mem_map]
    rintro _ ⟨o, ho, rfl⟩
    exact count_eq_zero.mpr fun hmem => hc o ho ⟨_, hmem, rfl⟩

lemma Owned.accounted (h : Owned K w []) : Accounted K w := by
  intro f hlt hK
  have hrefs := h.refs f hlt hK
  rw [owners, cacheRefs_eq_toNat (h.cacheOnce f), objectRefs_eq_toNat (h.objectOnce f),
    count_nil, add_zero] at hrefs
  refine ⟨hrefs, fun hpin => ?_⟩
  have hfree : f ∈ w.mem.free ↔ w.mem.refs f = 0 :=
    ⟨fun hf => (h.free f hf).2.2, fun hz => h.back f hlt hK hpin hz⟩
  rw [hfree, hrefs]
  cases w.cacheHolds f <;> cases w.objectHolds f <;> simp

/-- **The frames of user memory are accounted for** in every state that operations which meet their
condition reach. -/
theorem frame_refs_accounted {K : Set ℕ} {w : World} (h : FrameInv K w) (ops : List FrameOp)
    (hok : FrameRunOk w ops) : Accounted K (frameRun w ops) :=
  (Transition.run_invariant (fun _ op h hok => FrameInv.apply h op hok) hok h).owned.accounted

/-- A read-only mapping of two pages of a file whose second page is cached in frame 2; frame 1 is
free. -/
def secondPageCached : World where
  mem := ⟨3, {1}, [1], fun f => if f = 2 then 1 else 0, fun _ => 0, fun _ _ => 0,
    fun _ _ => Pte.empty⟩
  cache := [⟨5, 1, 2, true⟩]
  shmems := []
  files := fun _ => ⟨5, 0x2000, fun _ => 7⟩
  spaces := [⟨⟨[⟨0x400000, 0x402000, vmaFile ||| vmaR, none, 0, some 0, 0, 0x2000⟩], 0, 0, 0⟩, ∅⟩]
  kmalloc := List.replicate 7 true
  tables := List.replicate 3 true
  reads := [true]

lemma secondPageCached_frameInv : FrameInv {0} secondPageCached := by
  refine ⟨⟨?_, ?_, ?_, ?_, ?_, ?_⟩, ?_⟩
  · intro f hf hK
    simp only [secondPageCached] at hf
    interval_cases f
    · exact absurd rfl hK
    · rfl
    · rfl
  · intro f hf
    have h2 : f = 2 := by
      by_contra hne
      simp [owners, secondPageCached, mapRefs, AddrSpace.maps, cacheRefs, objectRefs,
        Ne.symm hne] at hf
    subst h2
    exact ⟨by decide, by simp⟩
  · intro f hf
    obtain rfl : f = 1 := by simpa [secondPageCached] using hf
    exact ⟨by decide, by simp, rfl⟩
  · intro f hf hK _ hrefs
    simp only [secondPageCached] at hf
    interval_cases f
    · exact absurd rfl hK
    · simp [secondPageCached]
    · exact absurd hrefs (by simp [secondPageCached])
  · intro f
    simp only [secondPageCached, cacheRefs, map_cons, map_nil]
    rw [count_singleton]
    split <;> omega
  · intro f
    exact zero_le _
  · intro sp hsp
    obtain rfl := mem_singleton.mp hsp
    refine ⟨IntervalList.ordered_singleton (by decide), ?_, ?_⟩ <;>
    · intro v hv
      obtain rfl := mem_singleton.mp hv
      decide

/-- **Read-ahead leaks a reference**: the fault on the first page finds the second one cached, and
the reference it gets there is never given back. -/
theorem readahead_leaks_reference : FrameInv {0} secondPageCached ∧
    secondPageCached.mem.refs 2 = 1 ∧ secondPageCached.cacheHolds 2 = true ∧
    (frameRun secondPageCached [.fault 0 0x400000 false false]).mem.refs 2 = 2 ∧
    mapRefs (frameRun secondPageCached [.fault 0 0x400000 false false]).spaces 2 = 0 ∧
    ¬ Accounted {0} (frameRun secondPageCached [.fault 0 0x400000 false false]) ∧
    (frameRun secondPageCached [.fault 0 0x400000 false false, .evictOne, .evictOne]).cacheHolds 2 =
      true := by
  refine ⟨secondPageCached_frameInv, rfl, rfl, by decide +kernel, by decide +kernel, ?_,
    by decide +kernel⟩
  intro hacc
  have := (hacc 2 (by decide +kernel) (by simp)).1
  exact absurd this (by decide +kernel)

/-- The second page is mapped from the cache, the process forks, and both are gone again. -/
theorem cached_page_accounted : Accounted {0} (frameRun secondPageCached
      [.fault 0 0x401000 false false, .fork 0, .munmap 0 0x400000 0x2000, .release 1]) := by
  refine frame_refs_accounted secondPageCached_frameInv _ ⟨?_, ?_, trivial, trivial, trivial⟩
  · rintro sp hsp
    cases hsp
    refine ⟨rfl, fun v file hv hfile h0 hmiss => ?_⟩
    cases hv
    change secondPageCached.cacheFind 5 1 = none at hmiss
    exact absurd hmiss (by decide)
  · exact fun sp _ => .inl (by decide +kernel)

end World

end Makaos
