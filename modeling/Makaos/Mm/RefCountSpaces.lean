import Makaos.Mm.RefCountFault

/-!
The reference counts while address spaces come, go and shrink.

* `VmasOk`: what the operations rely on, and what unmapping and a smaller heap leave of the VMAs.
* `Owned.munmap`, `Owned.brkShrink`, `Owned.faultCow`: pages that go, and pages that are copied.
* `CloneInv`, `Owned.fork`: the loop that copies the entries, and fork.
-/

namespace Makaos

open IntervalList Vma AddrSpace AList World List Option Nat

namespace World

variable {K : Set ℕ} {w w' : World} {held : List ℕ} {f i n : ℕ} {sp : AddrSpace} {e : Pte}
variable {vmas : List Vma} {v : Vma} {start stop newBrk brkStart : ℕ} {pt : PteMap}
  {rest : List (Σ _ : ℕ, Pte)} {vmas' : List Vma}
  {c : Cloning} {addr : ℕ}

/-! ### VMAs -/

/-- What the operations rely on: the VMAs are in order, they start on a page, and none is both a
shared object and device memory. -/
structure VmasOk (vmas : List Vma) : Prop where
  ordered : IntervalList.Ordered Vma.start Vma.stop vmas
  aligned : ∀ v ∈ vmas, PageAligned v.start
  kinds : ∀ v ∈ vmas, v.shmem.isSome → hasFlag v.flags vmaMmio = false

lemma VmasOk.find_page (h : VmasOk vmas) (hv : mmVmaFind vmas addr = some v) :
    mmVmaFind vmas (addr / pageSize * pageSize) = some v := by
  rw [mmVmaFind_eq_lookup, h.ordered.lookup_eq_some_iff] at hv ⊢
  obtain ⟨hmem, hlo, hhi⟩ := hv
  have hal := h.aligned v hmem
  refine ⟨hmem, ?_, ?_⟩
  · simp only [PageAligned, pageSize] at hal ⊢
    omega
  · exact lt_of_le_of_lt (div_mul_le_self _ _) hhi

/-- A part lies inside its VMA and is of its kind. -/
def PartOf (stop : ℕ) (u v : Vma) : Prop :=
  v.start ≤ u.start ∧ u.stop ≤ v.stop ∧ (u.start = v.start ∨ u.start = stop) ∧
    u.flags = v.flags ∧ u.shmem = v.shmem

/-- Outside the range an address is found in a piece of its VMA. -/
lemma find_pieces_flags (ok : Bool) (hcov : v.covers addr = true)
    (hout : ¬ (start ≤ addr ∧ addr < stop)) :
    (mmVmaFind (v.pieces ok start stop) addr).map flags = some v.flags := by
  obtain ⟨hlo, hhi⟩ := covers_iff.mp hcov
  have hcut := cut_pieces ok start stop v
  generalize v.pieces ok start stop = l at hcut
  cases hcut with
  | outside | splitFails =>
    rw [mmVmaFind_cons_of_covers hlo hhi]
    rfl
  | covered h1 h2 => omega
  | split h1 h2 =>
    rcases lt_or_ge addr start with hleft | hright
    · rw [mmVmaFind_cons_of_covers (v := v.trimTail start) hlo hleft]
      rfl
    · rw [mmVmaFind_cons_of_not (v := v.trimTail start) (.inr hright),
        mmVmaFind_cons_of_covers (v := v.rightPart stop) (show stop ≤ addr by omega) hhi]
      rfl
  | tail h1 h2 h3 =>
    rw [mmVmaFind_cons_of_covers (v := v.trimTail start) hlo (show addr < start by omega)]
    rfl
  | head h1 h2 h3 =>
    rw [mmVmaFind_cons_of_covers (v := v.trimHead stop) (show stop ≤ addr by omega) hhi]
    rfl

/-- **Unmapping** leaves VMAs that are in order. -/
lemma VmasOk.remove (h : VmasOk vmas) (ks : Outcomes) (hstop : PageAligned stop) :
    VmasOk (mmVmaRemove ks vmas start stop).2.1 := by
  rcases lt_or_ge start stop with hlt | hge
  · have hin : ∀ u ∈ (mmVmaRemove ks vmas start stop).2.1, ∃ v ∈ vmas, PartOf stop u v := by
      intro u hu
      rw [mmVmaRemove_eq h.ordered hlt] at hu
      obtain ⟨v, hv, hu⟩ := mem_flatMap.mp hu
      obtain ⟨hrange, hstart, -, hkind⟩ :=
        (pieces_spec ks.next.1 hlt (h.ordered.nonempty v hv)).2 u hu
      exact ⟨v, hv, hrange.1, hrange.2, hstart, hkind⟩
    refine ⟨mmVmaRemove_ordered h.ordered hlt, fun u hu => ?_, fun u hu hs => ?_⟩
    · obtain ⟨v, hv, -, -, hstart, -⟩ := hin u hu
      rcases hstart with hstart | hstart
      · rw [hstart]
        exact h.aligned v hv
      · rwa [hstart]
    · obtain ⟨v, hv, -, -, -, hfl, hsh⟩ := hin u hu
      rw [hfl]
      exact h.kinds v hv (hsh ▸ hs)
  · rwa [mmVmaRemove, if_pos hge]

lemma mmioPage_eq (vmas : List Vma) (n : ℕ) : mmioPage vmas n =
    ((mmVmaFind vmas (n * pageSize)).map flags).any (hasFlag · vmaMmio) := by
  rw [mmioPage]
  cases mmVmaFind vmas (n * pageSize) <;> rfl

/-- Unmapping leaves the kind of the pages outside the range. -/
lemma mmioPage_remove (h : IntervalList.Ordered Vma.start Vma.stop vmas) (ks : Outcomes)
    (hout : ¬ (start ≤ n * pageSize ∧ n * pageSize < stop)) :
    mmioPage (mmVmaRemove ks vmas start stop).2.1 n = mmioPage vmas n := by
  rcases lt_or_ge start stop with hlt | hge
  · rw [mmioPage_eq, mmioPage_eq, mmVmaFind_remove h hlt]
    cases hfind : mmVmaFind vmas (n * pageSize) with
    | none => rfl
    | some v =>
      have hcov := List.find?_some hfind
      rw [bind_some, find_pieces_flags _ hcov hout]
      rfl
  · rw [mmVmaRemove, if_pos hge]

/-! ### Entries that are freed -/

/-- The frames that the entries outside device memory refer to. -/
def heldBy (vmas : List Vma) (pt : PteMap) : List ℕ :=
  (pt.entries.filter fun e => !mmioPage vmas e.1).map fun e => e.2.frame

lemma maps_eq_count (sp : AddrSpace) (g : ℕ) :
    AddrSpace.maps sp g = (heldBy sp.mm.vmas sp.pt).count g := by
  rw [AddrSpace.maps, heldBy, count_eq_countP, countP_map, countP_filter]
  refine countP_congr fun e _ => ?_
  simp

lemma heldBy_insert (vmas : List Vma) (h : pt.lookup n = none) (e : Pte) :
    heldBy vmas (pt.insert n e) =
      if mmioPage vmas n then heldBy vmas pt else e.frame :: heldBy vmas pt := by
  have hn : n ∉ pt := lookup_eq_none.mp h
  rw [heldBy, entries_insert_of_notMem hn, filter_cons]
  cases mmioPage vmas n <;> rfl

lemma Owned.freeEntries (h : Owned K w (heldBy vmas pt ++ held)) :
    Owned K (freeEntries (mmioPage vmas) pt w) held := by
  have := h.refDecs
  rwa [heldBy, foldl_map] at this

lemma mapRefs_eraseIdx {spaces : List AddrSpace} (h : spaces[i]? = some sp) (g : ℕ) :
    AddrSpace.maps sp g + mapRefs (spaces.eraseIdx i) g = mapRefs spaces g := by
  obtain ⟨hi, rfl⟩ := List.getElem?_eq_some_iff.mp h
  exact ((getElem_cons_eraseIdx_perm hi).map (AddrSpace.maps · g)).sum_eq

/-- **The end of an address space** drops the references of its entries. -/
lemma Owned.releaseMm (h : Owned K w held) (i : ℕ) : Owned K (w.releaseMm i) held := by
  rw [World.releaseMm]
  cases hs : w.spaces[i]? with
  | none => exact h
  | some sp =>
    refine Owned.freeEntries (h.shift rfl (fun g => ?_) h.cacheOnce h.objectOnce)
    have hsum := mapRefs_eraseIdx hs g
    rw [count_append, ← maps_eq_count]
    simp only [owners]
    omega

/-! ### Unmapping -/

lemma unmapEntries_lookup (vmas : List Vma) (k : ℕ) : ∀ (n : ℕ) (pt : PteMap) (m : ℕ),
    (unmapEntries vmas k n pt).2.lookup m = if n ≤ m ∧ m < n + k then none else pt.lookup m := by
  induction k with
  | zero =>
    intro n pt m
    rw [if_neg (by omega)]
    rfl
  | succ k ih =>
    intro n pt m
    rw [unmapEntries]
    cases hn : pt.lookup n with
    | none =>
      dsimp only
      rw [ih]
      rcases eq_or_ne m n with rfl | hne
      · rw [if_neg (by omega), if_pos (by omega), hn]
      · congr 1
        simp only [eq_iff_iff]
        omega
    | some e =>
      show (unmapEntries vmas k (n + 1) (pt.erase n)).2.lookup m = _
      rw [ih]
      rcases eq_or_ne m n with rfl | hne
      · rw [if_neg (by omega), if_pos (by omega), lookup_erase]
      · rw [lookup_erase_ne hne]
        congr 1
        simp only [eq_iff_iff]
        omega

/-- The frames to free are those the entries give up. -/
lemma unmapEntries_count (vmas : List Vma) (g k : ℕ) : ∀ (n : ℕ) (pt : PteMap),
    (heldBy vmas (unmapEntries vmas k n pt).2).count g + (unmapEntries vmas k n pt).1.count g =
      (heldBy vmas pt).count g := by
  induction k with
  | zero => exact fun n pt => rfl
  | succ k ih =>
    intro n pt
    rw [unmapEntries]
    cases hn : pt.lookup n with
    | none => exact ih (n + 1) pt
    | some e =>
      have hcount : (heldBy vmas pt).count g = (heldBy vmas (pt.erase n)).count g +
          if mmioPage vmas n then 0 else if e.frame = g then 1 else 0 := by
        have hsp := fun pt : PteMap => maps_eq_count ⟨⟨vmas, 0, 0, 0⟩, pt⟩ g
        have herase := countP_erase hn fun x => x.2.frame = g ∧ mmioPage vmas x.1 = false
        simp only [AddrSpace.maps] at hsp
        rw [← hsp, ← hsp, herase]
        cases mmioPage vmas n <;> simp
      have hrest := ih (n + 1) (pt.erase n)
      rw [hcount, ← hrest]
      dsimp only
      cases mmioPage vmas n with
      | true => rfl
      | false =>
        rw [if_neg (by simp), if_neg (by simp), count_cons_eq]
        omega

lemma lookup_of_mem_entries {x : Σ _ : ℕ, Pte} (h : x ∈ pt.entries) :
    pt.lookup x.1 = some x.2 := mem_lookup_iff.mpr h

/-- Only the kind of the pages that are present counts. -/
lemma heldBy_congr (h : ∀ n e, pt.lookup n = some e → mmioPage vmas' n = mmioPage vmas n) :
    heldBy vmas' pt = heldBy vmas pt := by
  rw [heldBy, heldBy]
  congr 1
  refine filter_congr fun x hx => ?_
  rw [h x.1 x.2 (lookup_of_mem_entries hx)]

lemma alignedStop (addr len : ℕ) (h : addr % pageSize = 0) :
    wrap (addr + alignUp len) % pageSize = 0 := by
  simp only [wrap, alignUp, alignDown, pageSize] at *
  omega

lemma Owned.unmap (h : Owned K w held) (hs : w.spaces[i]? = some sp) {k n : ℕ} {mm : Mm}
    (hkinds : ∀ m e, ¬ (n ≤ m ∧ m < n + k) → sp.pt.lookup m = some e →
      mmioPage mm.vmas m = mmioPage sp.mm.vmas m) :
    Owned K ((unmapEntries sp.mm.vmas k n sp.pt).1.foldl World.refDec
      (w.setSpace i ⟨mm, (unmapEntries sp.mm.vmas k n sp.pt).2⟩)) held := by
  refine Owned.refDecs _ (h.setSpace hs _ fun g => ?_)
  have hsame : heldBy mm.vmas (unmapEntries sp.mm.vmas k n sp.pt).2 =
      heldBy sp.mm.vmas (unmapEntries sp.mm.vmas k n sp.pt).2 := by
    refine heldBy_congr fun m e hm => ?_
    rw [unmapEntries_lookup] at hm
    split at hm
    · nomatch hm
    next hout => exact hkinds m e hout hm
  have hcount := unmapEntries_count sp.mm.vmas g k n sp.pt
  rw [maps_eq_count, maps_eq_count, count_append, hsame]
  omega

/-- **`sys_munmap`** keeps the accounts. -/
lemma Owned.munmap (h : Owned K w held) (hok : ∀ sp, w.spaces[i]? = some sp → VmasOk sp.mm.vmas)
    (addr len : ℕ) : Owned K (w.munmap i addr len) held := by
  rw [World.munmap]
  cases hs : w.spaces[i]? with
  | none => exact h
  | some sp =>
    dsimp only
    split_ifs with hargs
    · exact h
    · have hal : addr % pageSize = 0 := by
        simp only [PageAligned, not_or, not_not] at hargs
        exact hargs.2.1
      have h' : Owned K { w with kmalloc := (mmVmaRemove w.kmalloc sp.mm.vmas addr
          (wrap (addr + alignUp len))).2.2 } held := { h with }
      refine h'.unmap hs fun m e hout _ => mmioPage_remove (hok sp hs).ordered _ ?_
      have hstop := alignedStop addr len hal
      generalize wrap (addr + alignUp len) = stop at hout hstop ⊢
      simp only [pageSize] at *
      omega

lemma unmapEntries_congr (k : ℕ) : ∀ (n : ℕ) (pt : PteMap),
    (∀ m e, n ≤ m → m < n + k → pt.lookup m = some e → mmioPage vmas m = mmioPage vmas' m) →
    unmapEntries vmas k n pt = unmapEntries vmas' k n pt := by
  induction k with
  | zero => exact fun n pt _ => rfl
  | succ k ih =>
    intro n pt h
    rw [unmapEntries, unmapEntries]
    cases hn : pt.lookup n with
    | none => exact ih (n + 1) pt fun m e hlo hhi => h m e (by omega) (by omega)
    | some e =>
      have hrest := ih (n + 1) (pt.erase n) fun m e hlo hhi hm =>
        h m e (by omega) (by omega) (by rwa [lookup_erase_ne (by omega)] at hm)
      rw [hrest, h n e le_rfl (by omega) hn]

/-- The condition on a shrinking heap: no page of the range and no VMA at the start of the heap is
device memory, and the heap VMA reaches to the new break. -/
def BrkOk (sp : AddrSpace) (newBrk : ℕ) : Prop :=
  (∀ m e, newBrk / pageSize ≤ m →
    m < newBrk / pageSize + (sp.mm.brk - newBrk + (pageSize - 1)) / pageSize →
    sp.pt.lookup m = some e → mmioPage sp.mm.vmas m = false) ∧
  ∀ v ∈ sp.mm.vmas, v.start = sp.mm.brkStart → hasFlag v.flags vmaMmio = false ∧ newBrk ≤ v.stop

/-- What the shrinking of the heap leaves of a VMA. -/
def heapPart (brkStart newBrk : ℕ) (v : Vma) : List Vma :=
  if v.start = brkStart then if newBrk ≤ brkStart then [] else [v.trimTail newBrk] else [v]

lemma shrinkHeapVma_flatMap (h : IntervalList.Ordered Vma.start Vma.stop vmas) :
    shrinkHeapVma brkStart newBrk vmas = vmas.flatMap (heapPart brkStart newBrk) := by
  induction vmas with
  | nil => rfl
  | cons v rest ih =>
    rw [shrinkHeapVma, flatMap_cons, heapPart]
    split
    next hstart =>
      -- the VMAs above start elsewhere
      have hrest : rest.flatMap (heapPart brkStart newBrk) = rest := by
        refine (flatMap_congr fun u hu => if_neg ?_).trans (flatMap_singleton' rest)
        have hne := h.nonempty v mem_cons_self
        have hle := h.head_le hu
        omega
      rw [hrest]
      split <;> rfl
    · rw [ih h.tail]
      rfl

section

variable (h : IntervalList.Ordered Vma.start Vma.stop vmas)
    (hheap : ∀ v ∈ vmas, v.start = brkStart → hasFlag v.flags vmaMmio = false ∧ newBrk ≤ v.stop)
include h hheap

lemma heapPart_spec (hv : v ∈ vmas) :
    IntervalList.Ordered Vma.start Vma.stop (heapPart brkStart newBrk v) ∧
      ∀ u ∈ heapPart brkStart newBrk v, (v.start ≤ u.start ∧ u.stop ≤ v.stop) ∧
        u.start = v.start ∧ u.flags = v.flags ∧ u.shmem = v.shmem := by
  rw [heapPart]
  split_ifs with hstart hbrk
  · exact ⟨ordered_nil, by simp⟩
  · have hlt : v.start < newBrk := by omega
    refine ⟨ordered_singleton hlt, forall_mem_singleton.mpr ?_⟩
    exact ⟨⟨le_rfl, (hheap v hv hstart).2⟩, rfl, rfl, rfl⟩
  · refine ⟨ordered_singleton (h.nonempty v hv), forall_mem_singleton.mpr ?_⟩
    exact ⟨⟨le_rfl, le_rfl⟩, rfl, rfl, rfl⟩

/-- The shrinking of the heap VMA leaves the kind of every page. -/
lemma mmioPage_shrink : mmioPage (shrinkHeapVma brkStart newBrk vmas) n = mmioPage vmas n := by
  have hspec := fun v hv => heapPart_spec (v := v) h hheap hv
  have hfind : mmVmaFind (vmas.flatMap (heapPart brkStart newBrk)) (n * pageSize) = _ :=
    lookup_flatMap h (fun v hv => (hspec v hv).1) fun v hv u hu => ((hspec v hv).2 u hu).1
  rw [mmioPage_eq, mmioPage_eq, shrinkHeapVma_flatMap h, hfind, mmVmaFind_eq_lookup]
  cases hv : lookup Vma.start Vma.stop (n * pageSize) vmas with
  | none => rfl
  | some v =>
    obtain ⟨hmem, hcov⟩ := of_lookup_eq_some hv
    rw [bind_some, heapPart]
    split_ifs with hstart hbrk
    · exact (hheap v hmem hstart).1.symm
    · refine Eq.trans ?_ (hheap v hmem hstart).1.symm
      cases hu : lookup Vma.start Vma.stop (n * pageSize) [v.trimTail newBrk] with
      | none => rfl
      | some u =>
        obtain rfl := mem_singleton.mp (of_lookup_eq_some hu).1
        exact (hheap v hmem hstart).1
    · rw [(ordered_singleton (h.nonempty v hmem)).lookup_eq_some_iff.mpr ⟨mem_singleton_self v, hcov⟩]

end

lemma VmasOk.shrink (h : VmasOk vmas)
    (hheap : ∀ v ∈ vmas, v.start = brkStart → hasFlag v.flags vmaMmio = false ∧ newBrk ≤ v.stop) :
    VmasOk (shrinkHeapVma brkStart newBrk vmas) := by
  have hspec := fun v hv => heapPart_spec (v := v) h.ordered hheap hv
  rw [shrinkHeapVma_flatMap h.ordered]
  refine ⟨h.ordered.flatMap (fun v hv => (hspec v hv).1) fun v hv u hu => ((hspec v hv).2 u hu).1,
    fun u hu => ?_, fun u hu hs => ?_⟩
  all_goals
    obtain ⟨v, hv, hu⟩ := mem_flatMap.mp hu
    obtain ⟨-, hstart, hfl, hsh⟩ := (hspec v hv).2 u hu
  · rw [hstart]
    exact h.aligned v hv
  · rw [hfl]
    exact h.kinds v hv (hsh ▸ hs)

/-- **A shrinking heap** keeps the accounts. -/
lemma Owned.brkShrink (h : Owned K w held)
    (hok : ∀ sp, w.spaces[i]? = some sp → VmasOk sp.mm.vmas ∧ BrkOk sp newBrk) :
    Owned K (w.brkShrink i newBrk) held := by
  rw [World.brkShrink]
  cases hs : w.spaces[i]? with
  | none => exact h
  | some sp =>
    obtain ⟨hvmas, hrange, hheap⟩ := hok sp hs
    dsimp only
    split
    · exact h
    · have hsame : unmapEntries [] _ (newBrk / pageSize) sp.pt =
          unmapEntries sp.mm.vmas _ (newBrk / pageSize) sp.pt :=
        unmapEntries_congr _ _ _ fun m e hlo hhi hm => (hrange m e hlo hhi hm).symm
      rw [hsame]
      exact h.unmap hs fun m e _ _ => mmioPage_shrink hvmas.ordered hheap

/-! ### Copy-on-write -/

/-- **A write fault on a page that is present** keeps the accounts. -/
lemma Owned.faultCow (h : Owned K w held) (hok : ∀ sp, w.spaces[i]? = some sp → VmasOk sp.mm.vmas)
    (addr : ℕ) : Owned K (w.faultCow i addr).2 held := by
  have hcow := w.faultCow_cowed i addr
  have hpriv : ∀ {sp : AddrSpace} {v : Vma}, w.spaces[i]? = some sp → mmVmaFind sp.mm.vmas addr =
      some v → hasFlag v.flags vmaMmio = false → mmioPage sp.mm.vmas (addr / pageSize) = false := by
    intro sp v hs hv hm
    rwa [mmioPage, (hok sp hs).find_page hv]
  generalize (w.faultCow i addr).2 = w' at hcow
  cases hcow with
  | same => exact h
  | noMem => exact { h with }
  | @copied sp v e f hs hv _ hm hn hf _ =>
    have h1 : Owned K ((w.taking f).onMem (·.copyFrame f e.frame)) (f :: held) :=
      { h.taking hf with }
    exact (h1.replacePage hs hn (hpriv hs hv hm) _).refDec
  | reused hs _ _ _ hn _ => exact h.setSpace hs _ fun g => congrArg (· + _) (maps_reflag _ hn rfl g)

/-! ### Fork -/

lemma alloc_frames (w : World) : w.alloc.2.spaces = w.spaces ∧
    w.alloc.2.mem.totalFrames = w.mem.totalFrames := by
  rcases w.alloc_cases with hal | ⟨f, _, hal⟩ <;> rw [hal] <;> exact ⟨rfl, rfl⟩

/-- The state of a copy: the child's entries hold references, and the parent's entries have new
flags at most. -/
structure CloneInv (K : Set ℕ) (w : World) (sp : AddrSpace) (held : List ℕ) (c : Cloning)
    (rest : List (Σ _ : ℕ, Pte)) : Prop where
  spaces : c.world.spaces = w.spaces
  frames : c.world.mem.totalFrames = w.mem.totalFrames
  owned : Owned K c.world (heldBy sp.mm.vmas c.dst ++ held)
  src : ∀ n, (c.src.lookup n).map Pte.frame = (sp.pt.lookup n).map Pte.frame
  maps : ∀ g, AddrSpace.maps ⟨sp.mm, c.src⟩ g = AddrSpace.maps sp g
  todo : ∀ x ∈ rest, sp.pt.lookup x.1 = some x.2 ∧ c.dst.lookup x.1 = none
  nodup : rest.Pairwise fun x y => x.1 ≠ y.1
  device : ∀ n e, c.dst.lookup n = some e → mmioPage sp.mm.vmas n = true → sp.pt.lookup n = some e

lemma CloneInv.step {e e' : Pte} {w1 : World}
    {src : PteMap} (h : CloneInv K w sp held c (⟨n, e⟩ :: rest))
    (hsp : w1.spaces = c.world.spaces) (hfr : w1.mem.totalFrames = c.world.mem.totalFrames)
    (hown : Owned K w1 ((if mmioPage sp.mm.vmas n then [] else [e'.frame]) ++
      (heldBy sp.mm.vmas c.dst ++ held)))
    (hdev : mmioPage sp.mm.vmas n = true → e' = e := by exact fun _ => rfl)
    (hsrc : ∀ m, (src.lookup m).map Pte.frame = (c.src.lookup m).map Pte.frame := by
      exact fun _ => rfl)
    (hmaps : ∀ g, AddrSpace.maps ⟨sp.mm, src⟩ g = AddrSpace.maps ⟨sp.mm, c.src⟩ g := by
      exact fun _ => rfl) :
    CloneInv K w sp held ⟨w1, src, c.dst.insert n e'⟩ rest := by
  obtain ⟨hn, hnone⟩ := h.todo _ mem_cons_self
  obtain ⟨hfresh, hnd⟩ := pairwise_cons.mp h.nodup
  refine ⟨hsp.trans h.spaces, hfr.trans h.frames, ?_, fun m => (hsrc m).trans (h.src m),
    fun g => (hmaps g).trans (h.maps g), fun x hx => ?_, hnd, fun m e'' hm hmm => ?_⟩
  · rw [heldBy_insert _ hnone]
    cases hmm : mmioPage sp.mm.vmas n with
    | true | false =>
      rwa [hmm] at hown
  · obtain ⟨hx1, hx2⟩ := h.todo x (mem_cons_of_mem _ hx)
    exact ⟨hx1, by rw [lookup_insert_ne (hfresh x hx).symm]; exact hx2⟩
  · rcases eq_or_ne m n with rfl | hne
    · rw [AList.lookup_insert] at hm
      rwa [← some.inj hm, hdev hmm]
    · rw [AList.lookup_insert_ne hne] at hm
      exact h.device m e'' hm hmm

lemma mmioPage_iff : mmioPage vmas n = true ↔
    ((mmVmaFind vmas (n * pageSize)).map fun v => hasFlag v.flags vmaMmio) = some true := by
  rw [mmioPage]
  cases mmVmaFind vmas (n * pageSize) <;> simp

/-- **One entry**: the child takes a reference of its own, except in device memory. -/
lemma CloneInv.cloneEntry (hvmas : VmasOk sp.mm.vmas) (hs : w.spaces[i]? = some sp)
    (h : CloneInv K w sp held c (⟨n, e⟩ :: rest)) : ((cloneEntry sp.mm.vmas c n e).1 = true →
      CloneInv K w sp held (cloneEntry sp.mm.vmas c n e).2 rest) ∧
    ((cloneEntry sp.mm.vmas c n e).1 = false →
      CloneInv K w sp held (cloneEntry sp.mm.vmas c n e).2 (⟨n, e⟩ :: rest)) := by
  obtain ⟨hn, hnone⟩ := h.todo _ mem_cons_self
  rw [World.cloneEntry]
  cases c.world.tables.next with
  | mk ok ts =>
    have hown : Owned K { c.world with tables := ts } (heldBy sp.mm.vmas c.dst ++ held) :=
      { h.owned with }
    have hs' : ({ c.world with tables := ts } : World).spaces[i]? = some sp := by
      show c.world.spaces[i]? = some sp
      rwa [h.spaces]
    cases ok with
    | false =>
      exact ⟨by simp, fun _ => { h with owned := hown }⟩
    | true =>
      have hinc : mmioPage sp.mm.vmas n = false →
          Owned K (({ c.world with tables := ts } : World).refInc e.frame)
            ([e.frame] ++ (heldBy sp.mm.vmas c.dst ++ held)) := fun hm =>
        hown.refInc (Nat.add_pos_left (owners_pos_of_lookup hs' hn hm) _)
      have hfr : ∀ f, ((({ c.world with tables := ts } : World).refInc f).mem.totalFrames) =
          c.world.mem.totalFrames := fun f => by
        show (c.world.mem.refInc f).totalFrames = _
        rw [PhysMem.refInc]
        split <;> rfl
      dsimp only
      split
      next hsh =>
        refine ⟨fun _ => ?_, by simp⟩
        have hm : mmioPage sp.mm.vmas n = false := by
          rw [mmioPage]
          cases hv : mmVmaFind sp.mm.vmas (n * pageSize) with
          | none => rfl
          | some v =>
            rw [hv] at hsh
            exact hvmas.kinds v (mem_of_find?_eq_some hv) hsh
        refine h.step rfl (hfr _) ?_
        rw [hm]
        exact hinc hm
      · split
        next hmm =>
          refine ⟨fun _ => ?_, by simp⟩
          refine h.step rfl rfl ?_
          rwa [mmioPage_iff.mpr hmm]
        next hmm =>
          have hm := Bool.eq_false_of_not_eq_true (mt mmioPage_iff.mp hmm)
          have hdev : ∀ e' : Pte, mmioPage sp.mm.vmas n = true → e' = e := fun _ hc =>
            absurd (hm.symm.trans hc) (by simp)
          split
          · rcases hown.alloc_cases with ⟨w1, hal, h1⟩ | ⟨f, _, hal, h1⟩
            · have hmem := alloc_frames ({ c.world with tables := ts } : World)
              rw [hal] at hmem ⊢
              exact ⟨by simp, fun _ =>
                ⟨hmem.1.trans h.spaces, hmem.2.trans h.frames, h1, h.src, h.maps, h.todo,
                  h.nodup, h.device⟩⟩
            · rw [hal]
              refine ⟨fun _ => ?_, by simp⟩
              refine h.step rfl rfl ?_ (hdev _)
              rw [hm]
              exact { h1 with }
          · refine ⟨fun _ => ?_, by simp⟩
            have hsrc := h.src n
            rw [hn, map_some, map_eq_some_iff] at hsrc
            obtain ⟨e0, he0, hframe⟩ := hsrc
            refine h.step rfl (hfr _) ?_ (hdev _) (fun m => ?_) (maps_reflag sp.mm he0 hframe.symm)
            · rw [hm]
              exact hinc hm
            · rcases eq_or_ne m n with rfl | hne
              · rw [AList.lookup_insert, h.src m, hn]
                rfl
              · rw [AList.lookup_insert_ne hne]

/-- **The loop over the entries**. -/
lemma CloneInv.cloneLoop (hvmas : VmasOk sp.mm.vmas) (hs : w.spaces[i]? = some sp)
    (l : List (Σ _ : ℕ, Pte)) : ∀ {c : Cloning}, CloneInv K w sp held c l →
      ∃ rest, CloneInv K w sp held (cloneLoop sp.mm.vmas l c).2 rest := by
  induction l with
  | nil => exact fun h => ⟨[], h⟩
  | cons x rest ih =>
    intro c h
    obtain ⟨n, e⟩ := x
    obtain ⟨htrue, hfalse⟩ := h.cloneEntry hvmas hs
    rw [World.cloneLoop]
    generalize World.cloneEntry sp.mm.vmas c n e = r at htrue hfalse
    obtain ⟨ok, c1⟩ := r
    cases ok with
    | false => exact ⟨_, hfalse rfl⟩
    | true => exact ih (htrue rfl)

lemma CloneInv.init (h : Owned K w held) (sp : AddrSpace) :
    CloneInv K w sp held ⟨w, sp.pt, ∅⟩ sp.pt.entries :=
  ⟨rfl, rfl, h, fun _ => rfl, fun _ => rfl, fun _ hx => ⟨lookup_of_mem_entries hx, rfl⟩,
    sp.pt.nodupKeys.pairwise_ne, nofun⟩

lemma refDec_totalFrames (m : PhysMem) (f : ℕ) : (m.refDec f).totalFrames = m.totalFrames := by
  rw [PhysMem.refDec]
  split_ifs with hlt
  · rfl
  · rfl
  · dsimp only
    split
    case isFalse => rfl
    case isTrue =>
      split
      · rfl
      · rw [PhysMem.buddyFree, if_neg hlt]

lemma foldl_refDec_filter (p : (Σ _ : ℕ, Pte) → Bool) (l : List (Σ _ : ℕ, Pte)) : ∀ w : World,
    (∀ x ∈ l, p x = false → w.mem.totalFrames ≤ x.2.frame) →
    l.foldl (fun w e => w.refDec e.2.frame) w =
      (l.filter p).foldl (fun w e => w.refDec e.2.frame) w := by
  induction l with
  | nil => exact fun _ _ => rfl
  | cons x rest ih =>
    intro w h
    have hrest := fun y hy => h y (mem_cons_of_mem _ hy)
    rw [foldl_cons]
    cases hx : p x with
    | true =>
      rw [filter_cons_of_pos hx, foldl_cons]
      refine ih _ fun y hy hpy => ?_
      show (w.mem.refDec _).totalFrames ≤ _
      rw [refDec_totalFrames]
      exact hrest y hy hpy
    | false =>
      have hskip : w.refDec x.2.frame = w := by
        rw [refDec, onMem, PhysMem.refDec, if_pos (h x mem_cons_self hx)]
      rw [filter_cons_of_neg (by simp [hx]), hskip]
      exact ih w hrest

/-- `vmm_free_user` frees what `vmm_free_user_ex` does, if device memory lies beyond the frames. -/
lemma freeEntries_all
    (h : ∀ n e, pt.lookup n = some e → mmioPage vmas n = true → w.mem.totalFrames ≤ e.frame) :
    freeEntries (fun _ => false) pt w = freeEntries (mmioPage vmas) pt w := by
  rw [freeEntries, freeEntries]
  simp only [Bool.not_false, filter_true]
  refine foldl_refDec_filter (fun e => !mmioPage vmas e.1) pt.entries w fun x hx hp => ?_
  exact h x.1 x.2 (lookup_of_mem_entries hx) (by simpa using hp)

lemma mmioPage_copy (vmas : List Vma) (n : ℕ) : mmioPage (vmas.map copyVma) n = mmioPage vmas n := by
  have hcov : (fun v : Vma => v.covers (n * pageSize)) ∘ copyVma =
      fun v => v.covers (n * pageSize) := rfl
  rw [mmioPage, mmVmaFind, find?_map, hcov, mmioPage, mmVmaFind]
  cases vmas.find? fun v => v.covers (n * pageSize) <;> rfl

lemma mapRefs_concat (spaces : List AddrSpace) (sp : AddrSpace) (g : ℕ) :
    mapRefs (spaces ++ [sp]) g = mapRefs spaces g + AddrSpace.maps sp g := by
  simp [mapRefs]

/-- The condition on a fork: it succeeds, or the device memory of the parent lies beyond the
frames. -/
def ForkOk (w : World) (i : ℕ) (sp : AddrSpace) : Prop :=
  (w.fork i).1 = true ∨ ∀ n e, sp.pt.lookup n = some e → mmioPage sp.mm.vmas n = true →
    w.mem.totalFrames ≤ e.frame

lemma Owned.forkMm (h : Owned K w held) (hs : w.spaces[i]? = some sp) (hvmas : VmasOk sp.mm.vmas)
    (hok : (w.forkMm i sp).1 = true ∨ ∀ n e, sp.pt.lookup n = some e →
      mmioPage sp.mm.vmas n = true → w.mem.totalFrames ≤ e.frame) :
    Owned K (w.forkMm i sp).2 held := by
  obtain ⟨rest, hc⟩ := (CloneInv.init h sp).cloneLoop hvmas hs
  obtain ⟨ok, c, ks, w₁, hloop, hw₁, hres⟩ := w.forkMm_cases i sp hvmas.ordered
  rw [hloop] at hc
  have hs' : c.world.spaces[i]? = some sp := by
    rwa [hc.spaces]
  have hset : Owned K (c.world.setSpace i { sp with pt := c.src })
      (heldBy sp.mm.vmas c.dst ++ held) :=
    hc.owned.setSpace hs' _ fun g => by rw [hc.maps g]
  have hks : Owned K w₁ (heldBy sp.mm.vmas c.dst ++ held) := by
    subst hw₁
    exact { hset with }
  rcases hres with heq | heq | ⟨-, heq⟩ <;> rw [heq]
  · -- the error paths that know no VMAs
    have hdev := hok.resolve_left (by simp [heq])
    have hbeyond : ∀ n e, c.dst.lookup n = some e → mmioPage sp.mm.vmas n = true →
        w₁.mem.totalFrames ≤ e.frame := by
      intro n e hn hm
      rw [hw₁]
      show c.world.mem.totalFrames ≤ _
      rw [hc.frames]
      exact hdev n e (hc.device n e hn hm) hm
    rw [freeEntries_all hbeyond]
    exact hks.freeEntries
  · rw [funext (mmioPage_copy sp.mm.vmas)]
    exact hks.freeEntries
  · refine hks.shift rfl (fun g => ?_) hks.cacheOnce hks.objectOnce
    have hmaps := maps_eq_count ⟨{ sp.mm with vmas := sp.mm.vmas.map copyVma }, c.dst⟩ g
    have hheld : heldBy (sp.mm.vmas.map copyVma) c.dst = heldBy sp.mm.vmas c.dst :=
      heldBy_congr fun n _ _ => mmioPage_copy sp.mm.vmas n
    rw [hheld] at hmaps
    simp only [owners, mapRefs_concat, count_append, hmaps]
    omega

/-- **Fork** keeps the accounts, if it meets its condition. -/
lemma Owned.fork (h : Owned K w held)
    (hok : ∀ sp, w.spaces[i]? = some sp → VmasOk sp.mm.vmas ∧ ForkOk w i sp) :
    Owned K (w.fork i).2 held := by
  obtain ⟨ks, ts, heq | ⟨sp, hs, heq⟩⟩ := w.fork_cases i
  · rw [heq]
    exact { h with }
  · obtain ⟨hvmas, hok⟩ := hok sp hs
    rw [ForkOk, heq] at hok
    rw [heq]
    have h' : Owned K { w with kmalloc := ks, tables := ts } held := { h with }
    exact h'.forkMm hs hvmas hok

end World

end Makaos
