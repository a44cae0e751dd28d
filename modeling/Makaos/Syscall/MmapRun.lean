import Makaos.Mm.KernelHalf
import Makaos.Syscall.Mmap
import Mathlib.Logic.Relation

/-!
`sys_mmap` and `sys_munmap` and the kernel half of the address space.

* `MunmapOk`, `MmapOk`: the calls whose range does not reach past the user limit.
* `user_half_kept`: over every run of such calls the kernel half and its frames are kept, and the
  VMAs lie below the limit.
* `munmap_frees_kernel_page`: neither call checks its range against the limit.
-/

namespace Makaos

open List Option Space Nat

/-- The end of the user half. -/
def userLimit : ℕ := 2 ^ 47

variable {K : Set ℕ} {pml4 : ℕ} {m m' : PhysMem}
variable {a : MmapArgs} {vaddr len addr fuel : ℕ} {env : MmapEnv} {vma : Vma} {s' : Space}
  {f : Vma → Vma}

/-! ### Unmapping a range -/

lemma freeBatch_stays (fs : List ℕ) : ∀ {m : PhysMem}, Confined K pml4 m →
    (∀ f ∈ fs, UserFrame K pml4 f) → Stays K pml4 m (freeBatch m fs) := by
  induction fs with
  | nil => exact fun h _ => .refl h
  | cons f fs ih =>
    intro m h hfs
    have hst := h.refDec (hfs f mem_cons_self)
    exact hst.trans (ih hst.confined fun g hg => hfs g (mem_cons_of_mem _ hg))

/-- The page is one of the user half, or nothing is mapped there. -/
def Spared (m : PhysMem) (pml4 p : ℕ) : Prop := UserAddr p ∨ (pteAt m pml4 p).child = none

instance (m : PhysMem) (pml4 p : ℕ) : Decidable (Spared m pml4 p) :=
  inferInstanceAs (Decidable (_ ∨ _))

lemma Stays.spared (h : Confined K pml4 m) (hst : Stays K pml4 m m') {p : ℕ}
    (hp : Spared m pml4 p) : Spared m' pml4 p := by
  by_cases hu : UserAddr p
  · exact .inl hu
  · exact .inr (by rw [hst.pteAt_eq h hu]; exact hp.resolve_left hu)

lemma unmapPage_stays (h : Confined K pml4 m) (vmas : List Vma) {p : ℕ} {freeing : List ℕ}
    (hp : Spared m pml4 p) (hfs : ∀ f ∈ freeing, UserFrame K pml4 f) :
    Stays K pml4 m (unmapPage vmas pml4 p freeing m).2 ∧
      ∀ f ∈ (unmapPage vmas pml4 p freeing m).1, UserFrame K pml4 f := by
  rw [unmapPage]
  rcases hp with hu | hnone
  · obtain ⟨hst, hf⟩ := h.vmmPageUnmap_stays hu
    generalize vmmPageUnmap m pml4 p = r at hst hf
    obtain ⟨o, m1⟩ := r
    cases o with
    | none => exact ⟨hst, hfs⟩
    | some f =>
      refine ⟨hst, fun g hg => ?_⟩
      dsimp only at hg
      split at hg
      · exact hfs g hg
      · rcases mem_append.mp hg with hg | hg
        · exact hfs g hg
        · exact mem_singleton.mp hg ▸ hf f rfl
  · rw [vmmPageUnmap_of_none hnone]
    exact ⟨.refl h, hfs⟩

/-- **Unmapping a range** of spared pages leaves the kernel half. -/
lemma unmapRange_stays (vmas : List Vma) (n : ℕ) : ∀ {p : ℕ} {freeing : List ℕ} {m : PhysMem},
    Confined K pml4 m → (∀ i < n, Spared m pml4 (p + i * pageSize)) →
    (∀ f ∈ freeing, UserFrame K pml4 f) → Stays K pml4 m (unmapRange vmas pml4 n p freeing m) := by
  induction n with
  | zero => exact fun h _ hfs => freeBatch_stays _ h hfs
  | succ n ih =>
    intro p freeing m h hsp hfs
    -- one page, with the frames of the batch that is then open
    have hstep : ∀ {fs : List ℕ} {m1 : PhysMem}, Stays K pml4 m m1 →
        (∀ f ∈ fs, UserFrame K pml4 f) →
        Stays K pml4 m (unmapRange vmas pml4 n (p + pageSize)
          (unmapPage vmas pml4 p fs m1).1 (unmapPage vmas pml4 p fs m1).2) := by
      intro fs m1 hst hfs
      have hp : Spared m pml4 p := by simpa using hsp 0 (succ_pos n)
      obtain ⟨hst1, hfs1⟩ := unmapPage_stays hst.confined vmas (hst.spared h hp) hfs
      have hst2 := hst.trans hst1
      refine hst2.trans (ih hst2.confined (fun i hi => hst2.spared h ?_) hfs1)
      have hshift : p + pageSize + i * pageSize = p + (i + 1) * pageSize := by ring
      rw [hshift]
      exact hsp (i + 1) (by omega)
    rw [unmapRange]
    split
    · exact hstep (freeBatch_stays freeing h hfs) (by simp)
    · exact hstep (.refl h) hfs

lemma freeBatch_tables (fs : List ℕ) : ∀ m : PhysMem, (freeBatch m fs).tables = m.tables := by
  induction fs with
  | nil => exact fun _ => rfl
  | cons f fs ih => exact fun m => (ih (m.refDec f)).trans (refDec_spec m f).1

lemma unmapPage_snd (vmas : List Vma) (pml4 p : ℕ) (freeing : List ℕ) (m : PhysMem) :
    (unmapPage vmas pml4 p freeing m).2 = (vmmPageUnmap m pml4 p).2 := by
  rw [unmapPage]
  generalize vmmPageUnmap m pml4 p = r
  obtain ⟨o, m1⟩ := r
  cases o <;> rfl

/-- A page of the loop; the batch before it may have been freed. -/
lemma unmapRange_succ (vmas : List Vma) (pml4 n p : ℕ) (freeing : List ℕ) (m : PhysMem) :
    ∃ fs m1, m1.tables = m.tables ∧ unmapRange vmas pml4 (n + 1) p freeing m =
      unmapRange vmas pml4 n (p + pageSize) fs (vmmPageUnmap m1 pml4 p).2 := by
  rw [unmapRange]
  split
  · exact ⟨_, _, freeBatch_tables freeing m, by rw [← unmapPage_snd vmas pml4 p []]⟩
  · exact ⟨_, _, rfl, by rw [← unmapPage_snd vmas pml4 p freeing]⟩

/-- **Unmapping a range** anywhere: afterwards nothing is mapped there. -/
lemma unmapRange_cleared (vmas : List Vma) (pml4 n : ℕ) : ∀ (p : ℕ) (freeing : List ℕ)
    (m : PhysMem), Cleared m (unmapRange vmas pml4 n p freeing m) ∧ ∀ i < n,
      (pteAt (unmapRange vmas pml4 n p freeing m) pml4 (p + i * pageSize)).child = none := by
  induction n with
  | zero =>
    intro p freeing m
    refine ⟨fun g i => .inl ?_, nofun⟩
    rw [unmapRange, freeBatch_tables]
  | succ n ih =>
    intro p freeing m
    obtain ⟨fs, m1, htables, heq⟩ := unmapRange_succ vmas pml4 n p freeing m
    obtain ⟨hcl, hgone⟩ := vmmPageUnmap_cleared m1 pml4 p
    obtain ⟨hcl', hgone'⟩ := ih (p + pageSize) fs (vmmPageUnmap m1 pml4 p).2
    rw [heq]
    refine ⟨.trans (fun g i => by rw [← htables]; exact hcl g i) hcl', fun i hi => ?_⟩
    cases i with
    | zero =>
      rw [Nat.zero_mul, Nat.add_zero, eq_none_iff_forall_ne_some]
      intro f hf
      rw [hcl'.child_pteAt hf] at hgone
      cases hgone
    | succ i =>
      have hshift : p + (i + 1) * pageSize = p + pageSize + i * pageSize := by ring
      rw [hshift]
      exact hgone' i (by omega)

/-- **Unmapping a range** of the user half: the other pages are as before. -/
lemma unmapRange_child (vmas : List Vma) (n : ℕ) : ∀ {p : ℕ} {freeing : List ℕ} {m : PhysMem},
    UserTables m pml4 → (∀ i < n, p + i * pageSize < 2 ^ 47) → ∀ v, UserAddr v →
      (pteAt (unmapRange vmas pml4 n p freeing m) pml4 v).child =
        if ∃ i < n, pageIndex v = pageIndex (p + i * pageSize) then none
        else (pteAt m pml4 v).child := by
  induction n with
  | zero =>
    intro p freeing m _ _ v _
    rw [if_neg (by simp), unmapRange, pteAt_congr (freeBatch_tables freeing m)]
  | succ n ih =>
    intro p freeing m h hlt v hv
    have hp : UserAddr p := userAddr_of_lt (by simpa using hlt 0 (Nat.succ_pos n))
    obtain ⟨fs, m1, ht, heq⟩ := unmapRange_succ vmas pml4 n p freeing m
    have h1 : UserTables m1 pml4 := ⟨by rw [ht]; exact h.tree, by rw [ht]; exact h.clean⟩
    rw [heq, ih (vmmPageUnmap_spec h1 hp).1 (fun i hi => ?_) v hv, child_unmap h1 hp hv,
      pteAt_congr ht, ite_pages_succ]
    have hshift : p + pageSize + i * pageSize = p + (i + 1) * pageSize := by ring
    rw [hshift]
    exact hlt (i + 1) (by omega)

lemma mapDumb_stays (fl : BitVec 64) (n : ℕ) : ∀ {v frame : ℕ} {m : PhysMem}, Confined K pml4 m →
    (∀ i < n, UserAddr (v + i * pageSize)) → (∀ i < n, UserFrame K pml4 (frame + i)) →
    Stays K pml4 m (mapDumb pml4 fl n v frame m).2 := by
  induction n with
  | zero => exact fun h _ _ => .refl h
  | succ n ih =>
    intro v frame m h hv hf
    have hst := h.vmmPageMap_stays (by simpa using hv 0 (succ_pos n))
      (by simpa using hf 0 (succ_pos n)) fl
    rw [mapDumb]
    generalize vmmPageMap m pml4 v frame fl = r at hst
    obtain ⟨ok, m1⟩ := r
    cases ok with
    | false => exact hst
    | true =>
      refine hst.trans (ih hst.confined (fun i hi => ?_) fun i hi => ?_)
      · have hshift : v + pageSize + i * pageSize = v + (i + 1) * pageSize := by ring
        rw [hshift]
        exact hv (i + 1) (by omega)
      · have hshift : frame + 1 + i = frame + (i + 1) := by ring
        rw [hshift]
        exact hf (i + 1) (by omega)

/-! ### The VMAs -/

/-- The VMAs lie below the user limit. -/
def BelowLimit (vmas : List Vma) : Prop := ∀ v ∈ vmas, v.stop ≤ userLimit

instance : DecidablePred BelowLimit := fun vmas =>
  inferInstanceAs (Decidable (∀ v ∈ vmas, v.stop ≤ userLimit))

section Vmas

variable {vmas : List Vma} {start stop : ℕ}

lemma belowLimit_cons {v : Vma} :
    BelowLimit (v :: vmas) ↔ v.stop ≤ userLimit ∧ BelowLimit vmas := forall_mem_cons

lemma BelowLimit.removeLoop (ks : Outcomes) (h : BelowLimit vmas) :
    BelowLimit (removeLoop start stop ks vmas).2.1 := by
  induction vmas generalizing ks with
  | nil => exact h
  | cons v rest ih =>
    obtain ⟨hv, hrest⟩ := belowLimit_cons.mp h
    have hrest := fun ks => ih ks hrest
    rw [Makaos.removeLoop]
    split
    · exact belowLimit_cons.mpr ⟨hv, hrest ks⟩
    next hmeet =>
      have hstart : start ≤ userLimit := by omega
      split
      · exact hrest ks
      · split
        · cases hk : ks.next with
          | mk ok ks' =>
            cases ok with
            | false => exact belowLimit_cons.mpr ⟨hv, hrest ks'⟩
            | true =>
              exact belowLimit_cons.mpr ⟨hstart, belowLimit_cons.mpr ⟨hv, hrest ks'⟩⟩
        · split
          · exact belowLimit_cons.mpr ⟨hstart, hrest ks⟩
          · exact belowLimit_cons.mpr ⟨hv, hrest ks⟩

lemma BelowLimit.remove (ks : Outcomes) (h : BelowLimit vmas) :
    BelowLimit (mmVmaRemove ks vmas start stop).2.1 := by
  rw [mmVmaRemove]
  split
  · exact h
  · exact h.removeLoop ks

lemma mem_insertBehind {v : Vma} : v ∈ insertBehind vma vmas → v = vma ∨ v ∈ vmas := by
  induction vmas with
  | nil => exact fun hv => .inl (mem_singleton.mp hv)
  | cons w rest ih =>
    intro hv
    rw [insertBehind] at hv
    split at hv
    · rcases mem_cons.mp hv with rfl | hv
      · exact .inr mem_cons_self
      · exact (ih hv).imp_right (mem_cons_of_mem _)
    · exact mem_cons.mp hv

lemma BelowLimit.insert (h : BelowLimit vmas) (hvma : vma.stop ≤ userLimit) :
    BelowLimit (insertVma vma vmas) := by
  cases vmas with
  | nil => exact belowLimit_cons.mpr ⟨hvma, h⟩
  | cons v rest =>
    obtain ⟨hv, hrest⟩ := belowLimit_cons.mp h
    rw [insertVma]
    split
    · exact belowLimit_cons.mpr ⟨hvma, h⟩
    · refine belowLimit_cons.mpr ⟨hv, fun w hw => ?_⟩
      rcases mem_insertBehind hw with rfl | hw
      · exact hvma
      · exact hrest w hw

/-- A change that keeps the end of a VMA. -/
lemma BelowLimit.modify (hf : ∀ v, (f v).stop = v.stop) (i : ℕ)
    (h : BelowLimit vmas) : BelowLimit (vmas.modify i f) := by
  intro v hv
  obtain ⟨j, hj, rfl⟩ := mem_iff_getElem.mp hv
  rw [length_modify] at hj
  rw [getElem_modify]
  split
  · rw [hf]
    exact h _ (getElem_mem hj)
  · exact h _ (getElem_mem hj)

/-- A VMA that ends below the limit, or that `mm_vma_add` does not take since it ends before it
starts. -/
lemma BelowLimit.add {vma : Vma} (h : BelowLimit vmas) (ks : Outcomes)
    (hvma : vma.start < vma.stop → vma.stop ≤ userLimit) : BelowLimit (addVma ks vmas vma).2.1 := by
  obtain ⟨ks', ⟨hc, heq⟩ | ⟨-, heq⟩⟩ := addVma_cases ks vmas vma
  · rw [heq]
    exact h.insert (hvma hc.1)
  · rwa [heq]

end Vmas

/-! ### The calls -/

/-- **The kernel half and its frames are kept, and the VMAs lie below the limit.**  An address
belongs to the kernel half if its walk starts there, as it does at every canonical address from the
limit on. -/
structure Kept (K : Set ℕ) (s s' : Space) : Prop where
  pte : ∀ v, ¬ UserAddr v → pteAt s'.mem s.pml4 v = pteAt s.mem s.pml4 v
  frames : ∀ f ∈ K, f ∉ s'.mem.free
  vmas : BelowLimit s'.mm.vmas

/-- An address space whose kernel half is apart and whose VMAs lie below the limit. -/
structure UserInv (K : Set ℕ) (s : Space) : Prop where
  confined : Confined K s.pml4 s.mem
  vmas : BelowLimit s.mm.vmas
  base : s.mm.mmapBase ≤ userLimit

/-- The range does not reach past the limit, or wraps around. -/
def RangeOk (start len : ℕ) : Prop :=
  wrap (start + len) ≤ start ∨ wrap (start + len) ≤ userLimit

instance (start len : ℕ) : Decidable (RangeOk start len) := inferInstanceAs (Decidable (_ ∨ _))

/-- No page of the kernel half is mapped in the range. -/
def RangeSpared (s : Space) (start stop : ℕ) : Prop :=
  ∀ p, start ≤ p → p < stop → Spared s.mem s.pml4 p

/-- The condition on `sys_munmap`. -/
def MunmapOk (s : Space) (addr len : ℕ) : Prop :=
  addr ≠ 0 → PageAligned addr → len ≠ 0 → RangeSpared s addr (wrap (addr + alignUp len))

/-- The checks on the arguments that come first. -/
def MmapArgs.valid (a : MmapArgs) : Prop :=
  a.len ≠ 0 ∧ (a.isAnon ∨ a.hasFd) ∧ ¬ (a.isAnon ∧ a.hasFd) ∧ PageAligned a.off

/-- The hint is taken as the address. -/
def Space.takesHint (s : Space) (a : MmapArgs) : Prop :=
  a.addr ≠ 0 ∧ s.mm.vmas.any (·.overlaps (alignDown a.addr)
    (wrap (alignDown a.addr + alignUp a.len))) = false

instance (s : Space) (a : MmapArgs) : Decidable (s.takesHint a) :=
  inferInstanceAs (Decidable (_ ∧ _))

/-- The condition on `sys_mmap`: a given address is taken together with a range below the limit,
where it replaces no page of the kernel half; in a search the sum with the lowest address does not
wrap. -/
def MmapOk (s : Space) (a : MmapArgs) : Prop :=
  a.valid →
    if a.isFixed then a.addr ≠ 0 → PageAligned a.addr →
      RangeSpared s a.addr (wrap (a.addr + alignUp a.len)) ∧ RangeOk a.addr (alignUp a.len)
    else if s.takesHint a then RangeOk (alignDown a.addr) (alignUp a.len)
    else wrap (s.mm.brk + 64 * 1024 * 1024) + alignUp a.len < 2 ^ 64

/-- The buffers that can be mapped are none of the kernel's frames. -/
def EnvOk (K : Set ℕ) (pml4 : ℕ) (env : MmapEnv) : Prop :=
  ∀ fd f off frame bytes, env.fds fd = some f → f.dumb off = some (frame, bytes) →
    ∀ i, i * pageSize < bytes → UserFrame K pml4 (frame + i)

/-- The calls that meet their condition. -/
inductive MapStep (K : Set ℕ) (s : Space) : Space → Prop
  | munmap (ks : Outcomes) (addr len : ℕ) : MunmapOk s addr len →
      MapStep K s (s.sysMunmap ks addr len).2
  | mmap (fuel : ℕ) (env : MmapEnv) (a : MmapArgs) (r : Except Errno ℕ) (s' : Space) :
      EnvOk K s.pml4 env → MmapOk s a → s.sysMmap fuel env a = some (r, s') → MapStep K s s'

/-- The invariant is kept, and the kernel half stays. -/
structure SpaceStays (K : Set ℕ) (s s' : Space) : Prop where
  pml4 : s'.pml4 = s.pml4
  mem : Stays K s.pml4 s.mem s'.mem
  vmas : BelowLimit s'.mm.vmas
  base : s'.mm.mmapBase ≤ userLimit

namespace SpaceStays

variable {s s' s₁ s₂ : Space}

lemma refl (h : UserInv K s) : SpaceStays K s s := ⟨rfl, .refl h.confined, h.vmas, h.base⟩

lemma trans (h1 : SpaceStays K s s₁) (h2 : SpaceStays K s₁ s₂) : SpaceStays K s s₂ :=
  ⟨h2.pml4.trans h1.pml4, h1.mem.trans (by have := h2.mem; rwa [h1.pml4] at this), h2.vmas, h2.base⟩

lemma inv (h : SpaceStays K s s') : UserInv K s' :=
  ⟨by rw [h.pml4]; exact h.mem.confined, h.vmas, h.base⟩

lemma kept (h : UserInv K s) (hst : SpaceStays K s s') : Kept K s s' :=
  ⟨fun _ hv => hst.mem.pteAt_eq h.confined hv,
    fun f hf hfree => (hst.mem.confined.free f hfree).1 hf, hst.vmas⟩

lemma setVmas (h : SpaceStays K s s') {vmas : List Vma} (hv : BelowLimit vmas) :
    SpaceStays K s (s'.setVmas vmas) := ⟨h.pml4, h.mem, hv, h.base⟩

end SpaceStays

section Calls

variable {s : Space} {ks : Outcomes} {r : Except Errno ℕ} {s₀ : Space}

lemma unmap_stays {stop : ℕ} (h : UserInv K s) (hsp : RangeSpared s addr stop) :
    SpaceStays K s (s.unmap ks addr stop).2 := by
  refine ⟨rfl, unmapRange_stays _ _ h.confined (fun i hi => hsp _ (by omega) ?_) (by simp),
    h.vmas.remove ks, h.base⟩
  simp only [pageSize] at hi ⊢
  omega

lemma sysMunmap_stays (h : UserInv K s) (hok : MunmapOk s addr len) :
    SpaceStays K s (s.sysMunmap ks addr len).2 := by
  rw [sysMunmap]
  split
  · exact .refl h
  next haddr =>
    push Not at haddr
    split_ifs with hlen
    · exact .refl h
    · exact unmap_stays h (hok haddr.1 haddr.2 hlen)

lemma alignUp_of_aligned {x : ℕ} (hx : PageAligned x) (hlt : x < 2 ^ 64) : alignUp x = x := by
  simp only [PageAligned, pageSize] at hx
  rw [alignUp_eq]
  simp only [pageSize]
  omega

lemma alignUp_lt (x : ℕ) : alignUp x < 2 ^ 64 := (alignDown_le _).trans_lt (wrap_lt _)

lemma findFreeLoop_le {vmas : List Vma} {lower : ℕ} (hsum : lower + len < 2 ^ 64) (fuel : ℕ) :
    ∀ {hint c : ℕ}, hint < 2 ^ 64 → findFreeLoop vmas lower len fuel hint = some (some c) →
      c + len ≤ hint := by
  induction fuel with
  | zero => exact fun _ hc => absurd hc (by simp [findFreeLoop])
  | succ fuel ih =>
    intro hint c hlt hc
    rw [findFreeLoop, wrap_eq_of_lt hsum] at hc
    split at hc
    case isFalse => nomatch hc
    case isTrue hge =>
      have hle : alignDown (wrap (hint + 2 ^ 64 - len)) + len ≤ hint := by
        have hdown := alignDown_le (wrap (hint + 2 ^ 64 - len))
        have hwrap : wrap (hint + 2 ^ 64 - len) = hint - len := by
          rw [wrap]
          omega
        omega
      dsimp only at hc
      split at hc
      case h_2 => exact (some.inj (some.inj hc)) ▸ hle
      case h_1 v hv =>
        -- the VMA in the way starts below the end of the candidate
        have hov := find?_some hv
        simp only [Vma.overlaps, Bool.and_eq_true, decide_eq_true_eq] at hov
        rw [wrap_eq_of_lt (hle.trans_lt hlt)] at hov
        exact (ih (by omega) hc).trans (by omega)

lemma mmVmaFindFree_le {mm mm' : Mm} {c : ℕ} (hlen : PageAligned len) (hlt : len < 2 ^ 64)
    (hsum : wrap (mm.brk + 64 * 1024 * 1024) + len < 2 ^ 64) (hbase : mm.mmapBase ≤ userLimit)
    (hc : mmVmaFindFree fuel mm len = some (c, mm')) :
    mm'.vmas = mm.vmas ∧ mm'.mmapBase ≤ userLimit ∧ (c ≠ 0 → c + len ≤ userLimit) := by
  rw [mmVmaFindFree] at hc
  split at hc
  · cases hc
    exact ⟨rfl, hbase, fun h0 => absurd rfl h0⟩
  · rw [alignUp_of_aligned hlen hlt] at hc
    split at hc
    · nomatch hc
    · cases hc
      exact ⟨rfl, hbase, fun h0 => absurd rfl h0⟩
    next c' hf =>
      cases hc
      have hle := findFreeLoop_le hsum fuel (hbase.trans_lt (by decide)) hf
      exact ⟨rfl, by dsimp only; omega, fun _ => hle.trans hbase⟩

/-- **The address**: the range at it does not reach past the limit. -/
lemma mmapPlace_stays (h : UserInv K s)
    {ks' : Outcomes} {s' : Space} (hv : a.valid) (hok : MmapOk s a)
    (hp : s.mmapPlace fuel a ks = some (r, ks', s')) :
    SpaceStays K s s' ∧ ∀ vaddr, r = .ok vaddr → vaddr ≠ 0 → RangeOk vaddr (alignUp a.len) := by
  have hok := hok hv
  -- a search gives a range below the limit
  have hsearch : wrap (s.mm.brk + 64 * 1024 * 1024) + alignUp a.len < 2 ^ 64 →
      (mmVmaFindFree fuel s.mm (alignUp a.len)).map (fun x =>
        ((.ok x.1 : Except Errno ℕ), ks, { s with mm := x.2 })) = some (r, ks', s') →
      SpaceStays K s s' ∧ ∀ vaddr, r = .ok vaddr → vaddr ≠ 0 → RangeOk vaddr (alignUp a.len) := by
    intro hsum hs
    obtain ⟨⟨c, mm'⟩, hf, heq⟩ := map_eq_some_iff.mp hs
    obtain ⟨hvmas, hbase, hc⟩ :=
      mmVmaFindFree_le (pageAligned_alignUp _) (alignUp_lt _) hsum h.base hf
    cases heq
    refine ⟨⟨rfl, .refl h.confined, by rw [hvmas]; exact h.vmas, hbase⟩, fun vaddr hr h0 => ?_⟩
    cases hr
    exact .inr ((mod_le _ _).trans (hc h0))
  rw [mmapPlace] at hp
  dsimp only at hp
  split at hok
  next hfix =>
    rw [if_pos hfix] at hp
    split_ifs at hp with haddr
    · cases hp
      exact ⟨.refl h, nofun⟩
    · push Not at haddr
      obtain ⟨hsp, hrange⟩ := hok haddr.1 haddr.2
      cases hp
      refine ⟨unmap_stays h hsp, fun vaddr hr _ => ?_⟩
      cases hr
      exact hrange
  next hfix =>
    rw [if_neg hfix] at hp
    split_ifs at hok with hhint
    · rw [if_pos hhint.1, if_neg (by rw [hhint.2]; exact Bool.false_ne_true)] at hp
      cases hp
      refine ⟨.refl h, fun vaddr hr _ => ?_⟩
      cases hr
      exact hok
    · refine hsearch hok ?_
      split at hp
      case isFalse => exact hp
      case isTrue haddr =>
        rw [if_pos] at hp
        · exact hp
        · by_contra hany
          exact hhint ⟨haddr, by simpa using hany⟩

lemma failUnmap_stays {vaddr stop : ℕ} (h : SpaceStays K s₀ s) :
    SpaceStays K s₀ (s.failUnmap ks vaddr stop).2 :=
  h.setVmas (h.vmas.remove ks)

lemma attach_stays (hf : ∀ v, (f v).stop = v.stop)
    (h : SpaceStays K s₀ s) : SpaceStays K s₀ (s.attach vaddr f) :=
  h.setVmas (h.vmas.modify hf _)

section

variable (h : UserInv K s)
include h

lemma mmapDumb_stays {f : Fd}
    (hbuf : ∀ frame bytes, f.dumb a.off = some (frame, bytes) →
      ∀ i, i * pageSize < bytes → UserFrame K s.pml4 (frame + i))
    (hlt : vaddr < wrap (vaddr + alignUp a.len)) (hle : wrap (vaddr + alignUp a.len) ≤ userLimit) :
    SpaceStays K s (s.mmapDumb ks a f vaddr (wrap (vaddr + alignUp a.len))).2 := by
  have hsum : vaddr + alignUp a.len ≤ userLimit := by
    have := alignUp_lt a.len
    simp only [wrap, userLimit] at *
    omega
  have hpages : ∀ i, i < a.npages → i * pageSize < alignUp a.len := by
    intro i hi
    have hi' : i < alignUp a.len / pageSize := hi.trans_le (mod_le _ _)
    have hal := pageAligned_alignUp a.len
    simp only [PageAligned, pageSize] at hal hi' ⊢
    omega
  rw [mmapDumb]
  split
  · exact failUnmap_stays (.refl h)
  next frame bytes hf =>
    split_ifs with hbytes
    · exact failUnmap_stays (.refl h)
    · have hmark : BelowLimit (s.mm.vmas.modify (s.mm.vmas.findIdx (·.covers vaddr)) fun v =>
          { v with flags := v.flags ||| vmaMmio }) := by
        refine BelowLimit.modify (fun v => ?_) _ h.vmas
        rfl
      have hmap := @mapDumb_stays K s.pml4 (mmVmaPteFlags a.vmaFlags) a.npages vaddr frame s.mem
        h.confined (fun i hi => userAddr_of_lt (by
          have := hpages i hi
          simp only [userLimit] at hsum
          omega)) fun i hi => hbuf frame bytes hf i (by have := hpages i hi; omega)
      dsimp only [setVmas]
      generalize mapDumb s.pml4 (mmVmaPteFlags a.vmaFlags) a.npages vaddr frame s.mem = r at hmap
      obtain ⟨ok, m1⟩ := r
      have hst : SpaceStays K s { s with
          mm := { s.mm with vmas := s.mm.vmas.modify (s.mm.vmas.findIdx (·.covers vaddr)) fun v =>
            { v with flags := v.flags ||| vmaMmio } }
          mem := m1 } := ⟨rfl, hmap, hmark, h.base⟩
      cases ok with
      | false => exact failUnmap_stays hst
      | true => exact hst

lemma mmapShared_stays (henv : EnvOk K s.pml4 env)
    (hlt : vaddr < wrap (vaddr + alignUp a.len)) (hle : wrap (vaddr + alignUp a.len) ≤ userLimit) :
    SpaceStays K s (s.mmapShared env ks a vaddr (wrap (vaddr + alignUp a.len))).2 := by
  have hfail := @failUnmap_stays K s ks s vaddr (wrap (vaddr + alignUp a.len)) (.refl h)
  rw [mmapShared]
  split
  · split
    · exact hfail
    next f hf =>
      split
      · exact mmapDumb_stays h (fun frame bytes => henv a.fd f a.off frame bytes hf) hlt hle
      · split
        · exact hfail
        · split
          · exact hfail
          · dsimp only
            split
            · exact hfail
            · exact attach_stays (fun _ => rfl) (.refl h)
  · split
    · exact hfail
    next => exact attach_stays (fun _ => rfl) (.refl h)

lemma mmapMemory_stays (henv : EnvOk K s.pml4 env) (shared : Bool)
    (hr : RangeOk vaddr (alignUp a.len)) :
    SpaceStays K s (s.mmapMemory env ks a shared vaddr (wrap (vaddr + alignUp a.len))).2 := by
  rw [mmapMemory]
  obtain ⟨ks', ⟨hc, heq⟩ | ⟨-, heq⟩⟩ :=
    mmVmaAdd_cases ks s.mm.vmas vaddr (wrap (vaddr + alignUp a.len)) a.vmaFlags
  · have hle := hr.resolve_left (not_le.mpr hc.1)
    have hadd : SpaceStays K s (s.setVmas (insertVma
        (anonVma vaddr (wrap (vaddr + alignUp a.len)) a.vmaFlags) s.mm.vmas)) :=
      (SpaceStays.refl h).setVmas (h.vmas.insert hle)
    rw [heq]
    dsimp only
    split
    · exact hadd.trans (mmapShared_stays hadd.inv henv hc.1 hle)
    · exact hadd
  · rw [heq]
    exact (SpaceStays.refl h).setVmas h.vmas

lemma mmapFile_stays {f : Fd} (hr : RangeOk vaddr (alignUp a.len)) :
    SpaceStays K s (s.mmapFile ks a f vaddr (wrap (vaddr + alignUp a.len))).2 := by
  rw [mmapFile]
  split
  · exact .refl h
  · split
    · exact .refl h
    · have hadd := @BelowLimit.add s.mm.vmas (fileVma vaddr (wrap (vaddr + alignUp a.len))
        (a.vmaFlags &&& ~~~ vmaAnon) f.file a.off (min (f.size - a.off) (alignUp a.len))) h.vmas ks
        fun hlt => hr.resolve_left (not_le.mpr hlt)
      rw [mmVmaAddFile]
      generalize addVma ks s.mm.vmas _ = r at hadd
      obtain ⟨ok, vmas, ks'⟩ := r
      cases ok with
      | false | true => exact (SpaceStays.refl h).setVmas hadd

lemma mmapAt_stays {env : MmapEnv} (henv : EnvOk K s.pml4 env) {a : MmapArgs} {vaddr : ℕ}
    (hr : RangeOk vaddr (alignUp a.len)) : SpaceStays K s (s.mmapAt env ks a vaddr).2 := by
  rw [mmapAt]
  split
  case isFalse => exact mmapMemory_stays h henv a.isShared hr
  case isTrue =>
    split
    · exact .refl h
    next f hf =>
      split
      · split
        · exact .refl h
        · exact mmapFile_stays h hr
      · split
        · exact mmapMemory_stays h henv true hr
        · split
          · exact mmapMemory_stays h henv true hr
          · exact .refl h

/-- **`sys_mmap`** under its condition. -/
lemma sysMmap_stays (henv : EnvOk K s.pml4 env) (hok : MmapOk s a)
    (hs : s.sysMmap fuel env a = some (r, s')) : SpaceStays K s s' := by
  rw [sysMmap] at hs
  split at hs
  · cases hs; exact .refl h
  next hlen =>
    split at hs
    · cases hs; exact .refl h
    next hany =>
      split at hs
      · cases hs; exact .refl h
      next hboth =>
        split at hs
        · cases hs; exact .refl h
        next hoff =>
          have hv : a.valid := ⟨hlen, by tauto, hboth, not_not.mp hoff⟩
          split at hs
          · nomatch hs
          next e ks' s₁ hp =>
            cases hs
            exact (mmapPlace_stays h hv hok hp).1
          next vaddr ks' s₁ hp =>
            obtain ⟨hst, hrange⟩ := mmapPlace_stays h hv hok hp
            split_ifs at hs with h0
            · cases hs; exact hst
            · have hat := @mmapAt_stays K s₁ ks' hst.inv env (by rw [hst.pml4]; exact henv) a vaddr
                (hrange vaddr rfl h0)
              rw [some.inj hs] at hat
              exact hst.trans hat

lemma mapStep_stays (hstep : MapStep K s s') : SpaceStays K s s' := by
  cases hstep with
  | munmap ks addr len hok => exact sysMunmap_stays h hok
  | mmap fuel env a r s' henv hok hs => exact sysMmap_stays h henv hok hs

end

/-- A range with a page of the kernel half in it is unmapped all the same. -/
lemma rangeSpared_of_kept (haddr : addr ≠ 0 ∧ PageAligned addr) (hlen : len ≠ 0)
    (hk : Kept K s (s.sysMunmap ks addr len).2) :
    RangeSpared s addr (wrap (addr + alignUp len)) := by
  intro p hlo hhi
  by_cases hu : UserAddr p
  · exact .inl hu
  right
  have hpte := hk.pte p hu
  rw [sysMunmap, if_neg (by tauto), if_neg hlen] at hpte
  rw [← hpte]
  -- the page of the address is one of the pages that are unmapped
  have hal : PageAligned (wrap (addr + alignUp len)) := by
    have h1 := haddr.2
    have h2 := pageAligned_alignUp len
    simp only [PageAligned, pageSize, wrap] at h1 h2 ⊢
    omega
  obtain ⟨-, hgone⟩ := unmapRange_cleared s.mm.vmas s.pml4
    ((wrap (addr + alignUp len) - addr) / pageSize) addr [] s.mem
  have hpage : pageIndex p = pageIndex (addr + (p - addr) / pageSize * pageSize) := by
    have h1 := haddr.2
    simp only [PageAligned, pageSize, pageIndex] at h1 ⊢
    omega
  rw [pteAt_of_pageIndex hpage]
  refine hgone _ ?_
  have h1 := haddr.2
  simp only [PageAligned, pageSize] at h1 hal ⊢
  omega

/-- **Mapping calls stay in the user half**: over every run of calls that meet their condition the
kernel half and its frames are kept and the VMAs lie below the limit; and `sys_munmap` keeps them
only under its condition. -/
theorem user_half_kept {s' : Space} (h : UserInv K s)
    (hrun : Relation.ReflTransGen (MapStep K) s s') :
    Kept K s s' ∧ ∀ ks addr len, Kept K s' (s'.sysMunmap ks addr len).2 ↔ MunmapOk s' addr len := by
  have hst : SpaceStays K s s' := by
    induction hrun with
    | refl => exact .refl h
    | tail _ hstep ih => exact ih.trans (mapStep_stays ih.inv hstep)
  exact ⟨hst.kept h, fun ks addr len =>
    ⟨fun hk h0 hal hlen => rangeSpared_of_kept ⟨h0, hal⟩ hlen hk,
      fun hok => (sysMunmap_stays hst.inv hok).kept hst.inv⟩⟩

end Calls

/-! ### A kernel page that a process unmaps -/

/-- A process without mappings; the kernel half maps one page, at its lowest address, to frame 4. -/
def onePageKernel : Space where
  mm := ⟨[], 0x400000, 0x400000, 0x7F0000000000⟩
  pml4 := 0
  mem := {
    totalFrames := 8
    free := {5, 6}
    picks := []
    refs := fun f => if f < 5 then 1 else 0
    pins := fun _ => 0
    bytes := fun _ _ => 0
    tables := fun f i => if f = 0 ∧ i = 256 ∨ 0 < f ∧ f < 4 ∧ i = 0 then ⟨f + 1, 3#64⟩ else Pte.empty }

/-- The frames of the kernel half: three tables and the page. -/
def kernelFrames : Set ℕ := Set.Ioo 0 5

lemma onePageKernel_inv : UserInv kernelFrames onePageKernel := by
  have hchild : ∀ g i f, (onePageKernel.mem.tables g i).child = some f → f ∈ kernelFrames := by
    intro g i f hf
    simp only [onePageKernel] at hf
    split_ifs at hf with hc
    · rw [child_of_present (by simp [Pte.present, pagePresent])] at hf
      obtain rfl : g + 1 = f := some.inj hf
      exact ⟨by omega, by omega⟩
    · cases hf
  refine ⟨⟨by simp [kernelFrames, onePageKernel], fun f hf => ?_, fun g i hs hne => ?_,
    fun p f _ hne hw => ?_⟩, fun v hv => absurd hv (by simp [onePageKernel]), by decide⟩
  · have hcases : f = 5 ∨ f = 6 := by simpa [onePageKernel] using hf
    exact ⟨fun hk => by have := hk.2; omega, by simp only [onePageKernel]; omega⟩
  · simp only [onePageKernel, UserSlot, kernelFrames, Set.mem_Ioo] at hs hne
    split at hs <;> split at hne <;> first | omega | exact absurd rfl hne
  · obtain ⟨q, i, rfl⟩ := (eq_nil_or_concat p).resolve_left hne
    rw [concat_eq_append, RadixTree.walk_snoc] at hw
    obtain ⟨g, -, hg⟩ := bind_eq_some_iff.mp hw
    exact hchild g i f hg

/-- Private anonymous memory at an address, `MAP_FIXED` or not. -/
def anonArgs (addr len : ℕ) (fixed : Bool) : MmapArgs :=
  ⟨addr, len, 3#64, if fixed then 0x32#64 else 0x22#64, 2 ^ 64 - 1, 0⟩

/-- No open files. -/
def noFiles : MmapEnv := ⟨fun _ => none, [true], none⟩

/-- **Neither call checks its range**: a process unmaps the lowest page of the kernel half and its
frame is freed; `MAP_FIXED` and a hint give a VMA above the limit. -/
theorem munmap_frees_kernel_page : UserInv kernelFrames onePageKernel ∧
    onePageKernel.frameAt (2 ^ 64 - 2 ^ 47) = some 4 ∧ 4 ∈ kernelFrames ∧
    (onePageKernel.sysMunmap [] (2 ^ 64 - 2 ^ 47) pageSize).2.frameAt (2 ^ 64 - 2 ^ 47) = none ∧
    4 ∈ (onePageKernel.sysMunmap [] (2 ^ 64 - 2 ^ 47) pageSize).2.mem.free ∧
    ¬ Kept kernelFrames onePageKernel (onePageKernel.sysMunmap [] (2 ^ 64 - 2 ^ 47) pageSize).2 ∧
    ∀ fixed, (onePageKernel.sysMmap 1 noFiles (anonArgs userLimit pageSize fixed)).map
      (·.2.mm.vmas.map Vma.stop) = some [userLimit + pageSize] := by
  have hfree : 4 ∈ (onePageKernel.sysMunmap [] (2 ^ 64 - 2 ^ 47) pageSize).2.mem.free := by
    decide +kernel
  have hmem : 4 ∈ kernelFrames := ⟨by decide, by decide⟩
  exact ⟨onePageKernel_inv, by decide +kernel, hmem, by decide +kernel, hfree,
    fun hk => hk.frames 4 hmem hfree, by decide +kernel⟩

/-- A page that is mapped where the search puts it. -/
theorem onePageKernel_maps : ∃ s', onePageKernel.sysMmap 1 noFiles (anonArgs 0 pageSize false) =
    some (.ok 0x7EFFFFFFF000, s') ∧ Kept kernelFrames onePageKernel s' := by
  have hres : (onePageKernel.sysMmap 1 noFiles (anonArgs 0 pageSize false)).map
      (fun r => r.1.toOption) = some (some 0x7EFFFFFFF000) := by decide +kernel
  obtain ⟨⟨r, s'⟩, hs, hr⟩ := map_eq_some_iff.mp hres
  have hok : MmapOk onePageKernel (anonArgs 0 pageSize false) := fun _ => by
    rw [if_neg (by decide), if_neg (by decide)]
    decide
  have henv : EnvOk kernelFrames onePageKernel.pml4 noFiles :=
    fun _ _ _ _ _ hf => absurd hf (by simp [noFiles])
  cases r with
  | error e => exact absurd hr (by simp [Except.toOption])
  | ok vaddr =>
    obtain rfl : vaddr = 0x7EFFFFFFF000 := by simpa [Except.toOption] using hr
    exact ⟨s', hs, (user_half_kept onePageKernel_inv
      (.single (.mmap 1 noFiles _ _ s' henv hok hs))).1⟩

end Makaos
