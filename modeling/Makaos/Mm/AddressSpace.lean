import Makaos.Mm.PageTable
import Makaos.Mm.VmaRemove

/-!
An address space: the VMA list with the page tables and the memory behind it.

* `Space`: the `mm_t` of a process, its PML4 and physical memory.
* `Space.userByte`: what a user read of an address gives.
* `RefsOk`: no frame is mapped more often than it is referenced, and no mapped frame is free.
-/

namespace Makaos

open Function Finset
variable {i : ℕ}
/-- `mm_t`. -/
structure Mm where
  vmas : List Vma
  brkStart : ℕ
  brk : ℕ
  mmapBase : ℕ
  deriving DecidableEq, Repr

/-- The address space of a process, and physical memory. -/
structure Space where
  mm : Mm
  pml4 : ℕ
  mem : PhysMem

/-- The error numbers of the calls. -/
inductive Errno where
  | EBADF
  | ENOMEM
  | EACCES
  | EINVAL
  deriving DecidableEq, Repr

namespace Space

/-- Replace the VMA list. -/
def setVmas (s : Space) (vmas : List Vma) : Space := { s with mm := { s.mm with vmas := vmas } }

/-- The frame mapped at the address. -/
def frameAt (s : Space) (addr : ℕ) : Option ℕ := (pteAt s.mem s.pml4 addr).child

/-- What a user read of the address gives: the byte of the mapped frame, as long as that frame has
not been given back; zero on a page of an anonymous VMA that is not present yet. -/
def userByte (s : Space) (addr : ℕ) : Option UInt8 :=
  match mmVmaFind s.mm.vmas addr with
  | none => none
  | some v =>
    match s.frameAt addr with
    | some f => if f ∈ s.mem.free then none else some (s.mem.bytes f (addr % pageSize))
    | none => if v.file = none ∧ v.shmem = none then some 0 else none

end Space

/-! ### Searching a gap, and the flags of an entry -/

/-- The loop of `mm_vma_find_free`: the gap it finds, if there is one; `none` if the search goes on
after `fuel` rounds. -/
def findFreeLoop (vmas : List Vma) (lower len : ℕ) : ℕ → ℕ → Option (Option ℕ)
  | 0, _ => none
  | fuel + 1, hint =>
    if hint ≥ wrap (lower + len) then
      let candidate := alignDown (wrap (hint + 2 ^ 64 - len))
      match vmas.find? fun v => v.overlaps candidate (wrap (candidate + len)) with
      | some v => findFreeLoop vmas lower len fuel v.start
      | none => some (some candidate)
    else some none

/-- `mm_vma_find_free`: the start of the gap, or 0. -/
def mmVmaFindFree (fuel : ℕ) (mm : Mm) (len : ℕ) : Option (ℕ × Mm) :=
  if len = 0 then some (0, mm)
  else
    match findFreeLoop mm.vmas (wrap (mm.brk + 64 * 1024 * 1024)) (alignUp len) fuel
      mm.mmapBase with
    | none => none
    | some none => some (0, mm)
    | some (some candidate) => some (candidate, { mm with mmapBase := candidate })

/-- `mm_vma_pte_flags`. -/
def mmVmaPteFlags (flags : BitVec 32) : BitVec 64 :=
  pagePresent ||| pageUser ||| (if hasFlag flags vmaW then pageWritable else 0#64) |||
    if hasFlag flags vmaX then 0#64 else pageNx

/-! ### References -/

/-- The pages of the user half that are mapped to a frame. -/
def pagesOf (m : PhysMem) (pml4 f : ℕ) : Finset ℕ :=
  (Finset.range (2 ^ 35)).filter fun i => (pteAt m pml4 (i * pageSize)).child = some f

/-- **References**: a frame has at least as many references as pages of the user half are mapped to
it, and a frame that is mapped there is not free. -/
structure RefsOk (m : PhysMem) (pml4 : ℕ) : Prop where
  card_le : ∀ f, (pagesOf m pml4 f).card ≤ m.refs f
  not_free : ∀ f, (pagesOf m pml4 f).Nonempty → f ∉ m.free

/-- `pmm_ref_dec` on the frame that was mapped at the page. -/
def unmapFree (m : PhysMem) (pml4 page : ℕ) : PhysMem :=
  match vmmPageUnmap m pml4 page with
  | (some f, m) => m.refDec f
  | (none, m) => m

section Unmap

variable {m : PhysMem} {pml4 v w f : ℕ}

/-- Dropping a reference leaves the bytes and the tables; a frame that becomes free had no other
reference. -/
lemma refDec_spec (m : PhysMem) (f : ℕ) :
    (m.refDec f).tables = m.tables ∧ (m.refDec f).bytes = m.bytes ∧
      (m.refDec f).refs = (if f ≥ m.totalFrames then m.refs else update m.refs f (m.refs f - 1)) ∧
      (∀ g, g ∈ (m.refDec f).free → g ∈ m.free ∨ (g = f ∧ m.refs f = 1)) := by
  rw [PhysMem.refDec]
  split
  next => exact ⟨rfl, rfl, rfl, fun g hg => .inl hg⟩
  next hlt =>
    split
    next hzero =>
      refine ⟨rfl, rfl, ?_, fun g hg => .inl hg⟩
      rw [eq_comm, update_eq_self_iff]
      omega
    next hpos =>
      dsimp only
      split
      case isFalse => exact ⟨rfl, rfl, rfl, fun g hg => .inl hg⟩
      case isTrue hlast =>
        rw [update_self] at hlast
        split
        · exact ⟨rfl, rfl, rfl, fun g hg => .inl hg⟩
        · rw [PhysMem.buddyFree, if_neg hlt]
          refine ⟨rfl, rfl, ?_, fun g hg => ?_⟩
          · rw [hlast, update_idem]
          · rcases mem_insert.mp hg with rfl | hg
            · exact .inr ⟨rfl, by omega⟩
            · exact .inl hg

lemma pteAt_congr {m' : PhysMem} (h : m'.tables = m.tables) (v : ℕ) :
    pteAt m' pml4 v = pteAt m pml4 v := by
  rw [pteAt, pteAt, h]

lemma pageIndex_page (hi : i < 2 ^ 35) : pageIndex (i * pageSize) = i := by
  simp only [pageIndex, pageSize]
  omega

lemma pageIndex_of_lt (h : v < 2 ^ 47) : pageIndex v = v / pageSize := by
  simp only [pageIndex, pageSize]
  omega

lemma userAddr_page (hi : i < 2 ^ 35) : UserAddr (i * pageSize) :=
  userAddr_of_lt (by simp only [pageSize]; omega)

lemma mem_pagesOf :
    i ∈ pagesOf m pml4 f ↔ i < 2 ^ 35 ∧ (pteAt m pml4 (i * pageSize)).child = some f := by
  simp [pagesOf]

lemma pteAt_of_pageIndex (h : pageIndex w = pageIndex v) : pteAt m pml4 w = pteAt m pml4 v := by
  obtain ⟨hpath, hidx⟩ := path_eq_iff.mpr h
  rw [pteAt, pteAt, hpath, hidx]

/-- The pages of a loop: the first one, or one of the remaining ones. -/
lemma ite_pages_succ (n page w : ℕ) (x : Option ℕ) :
    (if ∃ j < n, pageIndex w = pageIndex (page + pageSize + j * pageSize) then none
      else if pageIndex w = pageIndex page then none else x) =
    if ∃ j < n + 1, pageIndex w = pageIndex (page + j * pageSize) then none else x := by
  have hshift : ∀ j, page + pageSize + j * pageSize = page + (j + 1) * pageSize := by
    intro j
    ring
  rw [← ite_or]
  refine if_congr ?_ rfl rfl
  rw [Nat.exists_lt_succ_left, Nat.zero_mul, Nat.add_zero, or_comm]
  simp only [hshift]

lemma exists_page_iff {k page n : ℕ} (hlt : ∀ j < k, page + j * pageSize < 2 ^ 47)
    (hn : n < 2 ^ 35) : (∃ j < k, pageIndex (n * pageSize) = pageIndex (page + j * pageSize)) ↔
      page / pageSize ≤ n ∧ n < page / pageSize + k := by
  have hdiv : ∀ j, (page + j * pageSize) / pageSize = page / pageSize + j := fun j =>
    Nat.add_mul_div_right _ _ (by decide)
  constructor
  · rintro ⟨j, hj, he⟩
    rw [pageIndex_page hn, pageIndex_of_lt (hlt j hj), hdiv] at he
    omega
  · rintro ⟨hlo, hhi⟩
    refine ⟨n - page / pageSize, by omega, ?_⟩
    rw [pageIndex_page hn, pageIndex_of_lt (hlt _ (by omega)), hdiv]
    omega

section

variable (h : UserTables m pml4)
include h

lemma child_unmap (hv : UserAddr v) (hw : UserAddr w) :
    (pteAt (vmmPageUnmap m pml4 v).2 pml4 w).child =
      if pageIndex w = pageIndex v then none else (pteAt m pml4 w).child := by
  rw [(vmmPageUnmap_spec h hv).2.1 w hw]
  by_cases hpage : pageIndex w = pageIndex v
  · rw [if_pos hpage, pteAt_of_pageIndex hpage]
    cases hp : (pteAt m pml4 v).present with
    | true => rw [if_pos ⟨hpage, rfl⟩, child_empty]
    | false => rw [if_neg (by simp), child_of_not (by simp [hp])]
  · rw [if_neg hpage, if_neg fun hc => hpage hc.1]

lemma pagesOf_unmap_subset (hv : UserAddr v) :
    pagesOf (vmmPageUnmap m pml4 v).2 pml4 f ⊆ pagesOf m pml4 f := by
  intro i hi
  obtain ⟨hlt, hchild⟩ := mem_pagesOf.mp hi
  rw [child_unmap h hv (userAddr_page hlt)] at hchild
  split at hchild
  · nomatch hchild
  · exact mem_pagesOf.mpr ⟨hlt, hchild⟩

lemma card_pagesOf_unmap (hlt : v < 2 ^ 47) (hf : (pteAt m pml4 v).child = some f) :
    (pagesOf (vmmPageUnmap m pml4 v).2 pml4 f).card < (pagesOf m pml4 f).card := by
  have hv := userAddr_of_lt hlt
  have hi : v / pageSize < 2 ^ 35 := by
    simp only [pageSize]
    omega
  have hpage : pageIndex (v / pageSize * pageSize) = pageIndex v := by
    rw [pageIndex_page hi, pageIndex_of_lt hlt]
  refine card_lt_card ((ssubset_iff_of_subset (pagesOf_unmap_subset h hv)).mpr
    ⟨v / pageSize, mem_pagesOf.mpr ⟨hi, by rw [pteAt_of_pageIndex hpage, hf]⟩, fun hmem => ?_⟩)
  have hchild := (mem_pagesOf.mp hmem).2
  rw [child_unmap h hv (userAddr_page hi), if_pos hpage] at hchild
  cases hchild

/-- **Unmapping a page** of the user half and dropping the reference of its frame. -/
lemma unmapFree_spec (hrefs : RefsOk m pml4) (hlt : v < 2 ^ 47) :
    UserTables (unmapFree m pml4 v) pml4 ∧ RefsOk (unmapFree m pml4 v) pml4 ∧
      (unmapFree m pml4 v).bytes = m.bytes ∧
      ∀ w, UserAddr w → (pteAt (unmapFree m pml4 v) pml4 w).child =
        if pageIndex w = pageIndex v then none else (pteAt m pml4 w).child := by
  have hv := userAddr_of_lt hlt
  obtain ⟨htables, _, hrest⟩ := vmmPageUnmap_spec h hv
  have hfst := vmmPageUnmap_fst m pml4 v
  have hchild : ∀ w, UserAddr w → _ := fun w => child_unmap (w := w) h hv
  have hsub := fun f => pagesOf_unmap_subset (f := f) h hv
  have hcard := fun f => card_pagesOf_unmap (f := f) h hlt
  rw [unmapFree]
  generalize vmmPageUnmap m pml4 v = r at *
  obtain ⟨o, m1⟩ := r
  dsimp only at *
  have hfields : m1.refs = m.refs ∧ m1.free = m.free ∧ m1.bytes = m.bytes ∧
      m1.totalFrames = m.totalFrames := by
    rw [hrest]
    exact ⟨rfl, rfl, rfl, rfl⟩
  obtain ⟨hr, hfree, hbytes, htot⟩ := hfields
  cases o with
  | none =>
    refine ⟨htables, ⟨fun f => ?_, fun f hne => ?_⟩, hbytes, hchild⟩
    · rw [hr]
      exact (card_le_card (hsub f)).trans (hrefs.card_le f)
    · rw [hfree]
      exact hrefs.not_free f (hne.mono (hsub f))
  | some f =>
    obtain ⟨ht', hb', hr', hfree'⟩ := refDec_spec m1 f
    have hpages : ∀ g, pagesOf (m1.refDec f) pml4 g = pagesOf m1 pml4 g := by
      intro g
      simp only [pagesOf, pteAt_congr ht']
    have hlt' := hcard f hfst.symm
    refine ⟨⟨by rw [ht']; exact htables.tree, by rw [ht']; exact htables.clean⟩,
      ⟨fun g => ?_, fun g hne hmem => ?_⟩, hb'.trans hbytes, fun w hw => ?_⟩
    · rw [hpages, hr', hr]
      have hle := (card_le_card (hsub g)).trans (hrefs.card_le g)
      split
      · exact hle
      · by_cases hg : g = f
        · subst hg
          rw [update_self]
          have := hrefs.card_le g
          omega
        · rwa [update_of_ne hg]
    · rw [hpages] at hne
      rcases hfree' g hmem with hg | ⟨rfl, hone⟩
      · rw [hfree] at hg
        exact hrefs.not_free g (hne.mono (hsub g)) hg
      · rw [hr] at hone
        have hle := hrefs.card_le g
        have hpos := card_pos.mpr hne
        omega
    · rw [pteAt_congr ht']
      exact hchild w hw

end

end Unmap

end Makaos
