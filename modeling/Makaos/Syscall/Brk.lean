import Makaos.Mm.AddressSpace
import Mathlib.Logic.Relation

/-!
The heap break (`sys_brk` in `kernel/syscall/syscall.c`).

* `sysBrk`: the call; growing removes the heap VMA and adds a larger one, shrinking unmaps pages
  from the new break on and moves the end of the VMA to it.
* `HeapInv`: the heap VMA ends at the break rounded up.
* `BrkSpec`: what a call should do to the heap; `BrkOk`: the calls that do it.
* `brk_run`: over every run of such calls.
* `unaligned_shrink_loses_bytes`: a shrink to the middle of a page, and a growth that fails.
-/

namespace Makaos

open List

/-! ### The call -/

/-- `VMM_USER_STACK_TOP`. -/
def userStackTop : ℕ := 0x00007FFFFFFFE000

/-- `VMM_USER_STACK_PAGES`. -/
def userStackPages : ℕ := 2048

/-- The lowest address of the stack region. -/
def stackFloor : ℕ := userStackTop - userStackPages * pageSize

/-- `VMA_R | VMA_W | VMA_ANON`. -/
def heapFlags : BitVec 32 := vmaR ||| vmaW ||| vmaAnon

/-- The loop that unmaps `n` pages from a page on and drops the references of their frames. -/
def unmapLoop (pml4 : ℕ) : ℕ → ℕ → PhysMem → PhysMem
  | 0, _, m => m
  | n + 1, page, m => unmapLoop pml4 n (page + pageSize) (unmapFree m pml4 page)

/-- The loop that shrinks or unlinks the heap VMA. -/
def shrinkHeapVma (brkStart newBrk : ℕ) : List Vma → List Vma
  | [] => []
  | v :: rest =>
    if v.start = brkStart then if newBrk ≤ brkStart then rest else v.trimTail newBrk :: rest
    else v :: shrinkHeapVma brkStart newBrk rest

/-- The end of the VMA that starts at `brk_start`; 0 if there is none. -/
def oldEnd (mm : Mm) : ℕ :=
  match mm.vmas.find? fun v => v.start = mm.brkStart with
  | some v => v.stop
  | none => 0

namespace Space

/-- The growth of the heap. -/
def brkGrow (ks : Outcomes) (s : Space) (newBrk : ℕ) : Except Errno ℕ × Space :=
  let (_, vmas, ks) :=
    if oldEnd s.mm ≠ 0 then mmVmaRemove ks s.mm.vmas s.mm.brkStart (oldEnd s.mm)
    else (false, s.mm.vmas, ks)
  match mmVmaAdd ks vmas s.mm.brkStart (alignUp newBrk) heapFlags with
  | (false, vmas, _) => (.error .ENOMEM, s.setVmas vmas)
  | (true, vmas, _) => (.ok newBrk, { s with mm := { s.mm with vmas := vmas, brk := newBrk } })

/-- The shrinking of the heap. -/
def brkShrink (s : Space) (newBrk : ℕ) : Except Errno ℕ × Space :=
  let pages := (s.mm.brk - newBrk + (pageSize - 1)) / pageSize
  (.ok newBrk, { s with
    mm := { s.mm with vmas := shrinkHeapVma s.mm.brkStart newBrk s.mm.vmas, brk := newBrk }
    mem := unmapLoop s.pml4 pages newBrk s.mem })

/-- `sys_brk`. -/
def sysBrk (ks : Outcomes) (s : Space) (newBrk : ℕ) : Except Errno ℕ × Space :=
  if newBrk = 0 then (.ok s.mm.brk, s)
  else if newBrk < s.mm.brkStart then (.error .EINVAL, s)
  else if newBrk ≥ stackFloor then (.error .ENOMEM, s)
  else if newBrk = s.mm.brk then (.ok s.mm.brk, s)
  else if newBrk > s.mm.brk then s.brkGrow ks newBrk
  else s.brkShrink newBrk

end Space

/-! ### What a call should do -/

/-- The heap VMA. -/
def heapVma (start stop : ℕ) : Vma := anonVma start stop heapFlags

@[simp] lemma heapVma_file (start stop : ℕ) : (heapVma start stop).file = none := rfl

@[simp] lemma heapVma_shmem (start stop : ℕ) : (heapVma start stop).shmem = none := rfl

/-- The end of the heap VMA; the start of the heap if there is none. -/
def heapEnd (mm : Mm) : ℕ :=
  match mm.vmas.find? fun v => v.start = mm.brkStart with
  | some v => v.stop
  | none => mm.brkStart

/-- A call that succeeds keeps the bytes below both breaks, leaves the heap VMA page-aligned and
covering the heap, and no page between its end and the old break. -/
structure BrkDone (s s' : Space) : Prop where
  bytes : ∀ a, s.mm.brkStart ≤ a → a < min s.mm.brk s'.mm.brk → s'.userByte a = s.userByte a
  heap : s'.mm.brkStart < s'.mm.brk → ∃ v ∈ s'.mm.vmas,
    v.start = s'.mm.brkStart ∧ PageAligned v.start ∧ PageAligned v.stop ∧ s'.mm.brk ≤ v.stop
  gone : ∀ a, heapEnd s'.mm ≤ a → a < s.mm.brk → s'.frameAt a = none

/-- A call that fails leaves the VMA list, the page tables and the break. -/
structure BrkFailed (s s' : Space) : Prop where
  vmas : s'.mm.vmas = s.mm.vmas
  brk : s'.mm.brk = s.mm.brk
  pte : ∀ a, pteAt s'.mem s'.pml4 a = pteAt s.mem s.pml4 a

/-- What a call should do. -/
def BrkSpec (s : Space) : Except Errno ℕ × Space → Prop
  | (.ok r, s') => r = s'.mm.brk ∧ BrkDone s s'
  | (.error _, s') => BrkFailed s s'

/-- The calls that do it: a shrink to a page boundary, and a growth that succeeds or finds no VMA at
the start of the heap. -/
def BrkOk (ks : Outcomes) (s : Space) (newBrk : ℕ) : Prop :=
  newBrk ≠ 0 → s.mm.brkStart ≤ newBrk → newBrk < stackFloor →
    (newBrk < s.mm.brk → PageAligned newBrk) ∧
    (s.mm.brk < newBrk → (∀ v ∈ s.mm.vmas, v.start ≠ s.mm.brkStart) ∨
      ks.next.1 = true ∧ ∀ v ∈ s.mm.vmas, v.start ≠ s.mm.brkStart →
        v.overlaps s.mm.brkStart (alignUp newBrk) = false)

/-- **The heap**: the heap VMA ends at the break rounded up, and the pages of the user half are in
order. -/
structure HeapInv (s : Space) : Prop where
  list : IsVmaList s.mm.vmas
  aligned : PageAligned s.mm.brkStart
  start_le : s.mm.brkStart ≤ s.mm.brk
  brk_le : s.mm.brk ≤ 2 ^ 47
  heap : s.mm.brkStart < s.mm.brk → heapVma s.mm.brkStart (alignUp s.mm.brk) ∈ s.mm.vmas
  tables : UserTables s.mem s.pml4
  refs : RefsOk s.mem s.pml4

/-! ### The VMA that starts at an address -/

section Start

variable {vmas : List Vma} {u v : Vma} {a b : ℕ}

lemma IsVmaList.eq_of_start (h : IsVmaList vmas) (hu : u ∈ vmas) (hv : v ∈ vmas)
    (heq : u.start = v.start) : u = v :=
  h.ordered.unique hu hv ⟨le_rfl, h.ordered.nonempty u hu⟩ ⟨heq.ge, heq ▸ h.ordered.nonempty v hv⟩

lemma find_start (h : IsVmaList vmas) (hu : u ∈ vmas) :
    vmas.find? (fun v => v.start = u.start) = some u := by
  cases hf : vmas.find? fun v => v.start = u.start with
  | none => exact absurd (find?_eq_none.mp hf u hu) (by simp)
  | some v =>
    have hv : v.start = u.start := by simpa using find?_some hf
    rw [h.eq_of_start (mem_of_find?_eq_some hf) hu hv]

lemma heapEnd_of_mem {mm : Mm} (h : IsVmaList mm.vmas) (hu : u ∈ mm.vmas)
    (hstart : u.start = mm.brkStart) : heapEnd mm = u.stop := by
  rw [heapEnd, ← hstart, find_start h hu]

lemma start_le_heapEnd {mm : Mm} (h : IsVmaList mm.vmas) : mm.brkStart ≤ heapEnd mm := by
  rw [heapEnd]
  split
  next v hv =>
    have hstart : v.start = mm.brkStart := by simpa using find?_some hv
    calc mm.brkStart = v.start := hstart.symm
      _ ≤ v.stop := (h.ordered.nonempty v (mem_of_find?_eq_some hv)).le
  · exact le_rfl

lemma pieces_of_ne (ok : Bool) (h : IsVmaList vmas) (hu : u ∈ vmas) (hv : v ∈ vmas) (hne : v ≠ u)
    (ha : u.start ≤ a) : v.pieces ok a u.stop = [v] := by
  rw [Vma.pieces, if_pos]
  rcases h.ordered.apart_of_ne hv hu hne with hle | hle
  · exact .inr (hle.trans ha)
  · exact .inl hle

lemma pieces_self (ok : Bool) (ha : u.start ≤ a) (hlt : a < u.stop) :
    u.pieces ok a u.stop = if a ≤ u.start then [] else [u.trimTail a] := by
  rw [Vma.pieces, if_neg (by omega)]
  rcases ha.eq_or_lt with heq | hgt
  · rw [if_pos ⟨heq.ge, le_rfl⟩, if_pos heq.ge]
  · rw [if_neg (by omega), if_neg (by omega), if_pos hgt, if_neg (by omega)]

/-- Shrinking the heap VMA is removing the end of its range. -/
lemma shrinkHeapVma_eq (h : IsVmaList vmas) (hu : u ∈ vmas) (ha : u.start ≤ a) (hlt : a < u.stop)
    (ok : Bool) : shrinkHeapVma u.start a vmas = vmas.flatMap (Vma.pieces ok a u.stop) := by
  induction vmas with
  | nil => rfl
  | cons v rest ih =>
    rw [shrinkHeapVma, flatMap_cons]
    split
    next heq =>
      obtain rfl := h.eq_of_start mem_cons_self hu heq
      rw [flatMap_pieces_of_above fun w hw => h.ordered.head_le hw, pieces_self ok ha hlt]
      split <;> rfl
    next hne =>
      have huv : v ≠ u := fun heq => hne (by rw [heq])
      have hu' : u ∈ rest := (mem_cons.mp hu).resolve_left (Ne.symm huv)
      rw [ih h.tail hu', pieces_of_ne _ h hu mem_cons_self huv ha]
      rfl

/-- What is left without the end of the range of a VMA. -/
lemma mem_pieces (ok : Bool) (h : IsVmaList vmas) (hu : u ∈ vmas) (ha : u.start ≤ a)
    (hlt : a < u.stop) : v ∈ vmas.flatMap (Vma.pieces ok a u.stop) ↔
      u.start < a ∧ v = u.trimTail a ∨ v ∈ vmas ∧ v.start ≠ u.start := by
  rw [mem_flatMap]
  constructor
  · rintro ⟨w, hw, hv⟩
    by_cases hne : w = u
    · subst hne
      rw [pieces_self _ ha hlt] at hv
      split_ifs at hv with hle
      · nomatch hv
      · exact .inl ⟨not_le.mp hle, mem_singleton.mp hv⟩
    · rw [pieces_of_ne _ h hu hw hne ha] at hv
      obtain rfl := mem_singleton.mp hv
      exact .inr ⟨hw, fun heq => hne (h.eq_of_start hw hu heq)⟩
  · rintro (⟨hgt, rfl⟩ | ⟨hv, hstart⟩)
    · refine ⟨u, hu, ?_⟩
      rw [pieces_self _ ha hlt, if_neg (not_le.mpr hgt)]
      exact mem_singleton_self _
    · have hne : v ≠ u := fun heq => hstart (by rw [heq])
      exact ⟨v, hv, by rw [pieces_of_ne _ h hu hv hne ha]; exact mem_singleton_self v⟩

/-- After the shrink the heap VMA is the only one that has changed. -/
lemma mem_shrinkHeapVma (h : IsVmaList vmas) (hu : u ∈ vmas) (ha : u.start < a) (hlt : a < u.stop) :
    v ∈ shrinkHeapVma u.start a vmas ↔ v = u.trimTail a ∨ v ∈ vmas ∧ v.start ≠ u.start := by
  rw [shrinkHeapVma_eq h hu ha.le hlt true, mem_pieces true h hu ha.le hlt, and_iff_right ha]

/-- Removing the range of a VMA removes that VMA and allocates nothing. -/
lemma remove_self (ks : Outcomes) (h : IsVmaList vmas) (hu : u ∈ vmas) :
    IsVmaList (mmVmaRemove ks vmas u.start u.stop).2.1 ∧ (mmVmaRemove ks vmas u.start u.stop).2.2 =
      ks ∧ ∀ v, v ∈ (mmVmaRemove ks vmas u.start u.stop).2.1 ↔ v ∈ vmas ∧ v.start ≠ u.start := by
  have hlt := h.ordered.nonempty u hu
  obtain ⟨hs, he⟩ := h.aligned u hu
  refine ⟨mmVmaRemove_isVmaList h hlt hs he, ?_, fun v => ?_⟩
  · rw [mmVmaRemove, if_neg (not_le.mpr hlt)]
    refine removeLoop_outcomes fun v hv hc => ?_
    have hne : v ≠ u := fun heq => absurd hc.1 (by rw [heq]; exact lt_irrefl _)
    rcases h.ordered.apart_of_ne hv hu hne with hle | hle <;> omega
  · rw [mmVmaRemove_eq h.ordered hlt, mem_pieces _ h hu le_rfl hlt]
    exact or_iff_right fun hself => lt_irrefl _ hself.1

end Start

/-! ### The pages -/

/-- **The loop**: the pages of the range are unmapped, the others are as before. -/
lemma unmapLoop_spec (n : ℕ) : ∀ {m : PhysMem} {pml4 page : ℕ}, UserTables m pml4 →
    RefsOk m pml4 → (∀ i < n, page + i * pageSize < 2 ^ 47) →
    UserTables (unmapLoop pml4 n page m) pml4 ∧ RefsOk (unmapLoop pml4 n page m) pml4 ∧
      (unmapLoop pml4 n page m).bytes = m.bytes ∧
      ∀ w, UserAddr w → (pteAt (unmapLoop pml4 n page m) pml4 w).child =
        if ∃ i < n, pageIndex w = pageIndex (page + i * pageSize) then none
        else (pteAt m pml4 w).child := by
  induction n with
  | zero =>
    intro m pml4 page h hrefs _
    exact ⟨h, hrefs, rfl, fun w _ => by rw [if_neg (by simp)]; rfl⟩
  | succ n ih =>
    intro m pml4 page h hrefs hlt
    have hpage : page < 2 ^ 47 := by simpa using hlt 0 (Nat.succ_pos n)
    obtain ⟨h1, hrefs1, hbytes1, hchild1⟩ := unmapFree_spec h hrefs hpage
    have hshift : ∀ i, page + pageSize + i * pageSize = page + (i + 1) * pageSize := by
      intro i
      ring
    obtain ⟨h2, hrefs2, hbytes2, hchild2⟩ := ih h1 hrefs1 fun i hi => by
      rw [hshift]
      exact hlt (i + 1) (by omega)
    refine ⟨h2, hrefs2, hbytes2.trans hbytes1, fun w hw => ?_⟩
    rw [unmapLoop, hchild2 w hw, hchild1 w hw, ite_pages_succ]

lemma userByte_congr {s s' : Space} {a : ℕ} {v v' : Vma} (hrefs : RefsOk s.mem s.pml4)
    (hrefs' : RefsOk s'.mem s'.pml4) (hlt : a < 2 ^ 47) (hv : mmVmaFind s.mm.vmas a = some v)
    (hv' : mmVmaFind s'.mm.vmas a = some v') (hback : v'.file = v.file ∧ v'.shmem = v.shmem)
    (hframe : s'.frameAt a = s.frameAt a) (hbytes : s'.mem.bytes = s.mem.bytes) :
    s'.userByte a = s.userByte a := by
  have hmapped : ∀ {r : Space} {f : ℕ}, RefsOk r.mem r.pml4 → r.frameAt a = some f →
      f ∉ r.mem.free := by
    intro r f hr hf
    have hi : a / pageSize < 2 ^ 35 := by
      simp only [pageSize]
      omega
    refine hr.not_free f ⟨a / pageSize, mem_pagesOf.mpr ⟨hi, ?_⟩⟩
    rwa [pteAt_of_pageIndex (v := a) (by rw [pageIndex_page hi, pageIndex_of_lt hlt])]
  rw [Space.userByte, Space.userByte, hv, hv', hframe]
  cases hf : s.frameAt a with
  | none => simp only [hback.1, hback.2]
  | some f =>
    dsimp only
    rw [if_neg (hmapped hrefs hf), if_neg (hmapped hrefs' (hframe.trans hf)), hbytes]

/-! ### Growing -/

section Calls

variable {s : Space} {ks : Outcomes} {newBrk : ℕ}

lemma alignUp_spec (h : newBrk < stackFloor) :
    newBrk ≤ alignUp newBrk ∧ alignUp newBrk < 2 ^ 47 ∧ PageAligned (alignUp newBrk) := by
  have hlt : newBrk < 2 ^ 47 - 2 * pageSize := h.trans_le (by decide)
  refine ⟨?_, ?_, pageAligned_alignUp _⟩ <;>
  · rw [alignUp_eq (by simp only [pageSize] at *; omega)]
    simp only [pageSize] at *
    omega

/-- The address space after the heap has grown, with the other VMAs given. -/
def Space.grown (s : Space) (vmas : List Vma) (newBrk : ℕ) : Space :=
  { s with mm := { s.mm with
    vmas := insertVma (heapVma s.mm.brkStart (alignUp newBrk)) vmas
    brk := newBrk } }

section

variable (h : HeapInv s)
include h

/-- Growing takes the heap VMA out of the list and puts a new one in, if it can. -/
lemma brkGrow_eq : ∃ vmas, IsVmaList vmas ∧
    (∀ v, v ∈ vmas ↔ v ∈ s.mm.vmas ∧ v.start ≠ s.mm.brkStart) ∧
    ((∀ v ∈ s.mm.vmas, v.start ≠ s.mm.brkStart) → vmas = s.mm.vmas) ∧
    ((CanAdd ks vmas s.mm.brkStart (alignUp newBrk) ∧
        s.brkGrow ks newBrk = (.ok newBrk, s.grown vmas newBrk)) ∨
      (¬ CanAdd ks vmas s.mm.brkStart (alignUp newBrk) ∧
        s.brkGrow ks newBrk = (.error .ENOMEM, s.setVmas vmas))) := by
  rw [Space.brkGrow]
  cases hf : s.mm.vmas.find? fun v => v.start = s.mm.brkStart with
  | none =>
    have hnone : ∀ v ∈ s.mm.vmas, v.start ≠ s.mm.brkStart := by simpa using hf
    have hend : oldEnd s.mm = 0 := by rw [oldEnd, hf]
    refine ⟨s.mm.vmas, h.list, fun v => ⟨fun hv => ⟨hv, hnone v hv⟩, fun hv => hv.1⟩,
      fun _ => rfl, ?_⟩
    rw [if_neg (not_not.mpr hend)]
    dsimp only
    obtain ⟨ks', ⟨hc, heq⟩ | ⟨hc, heq⟩⟩ :=
      mmVmaAdd_cases ks s.mm.vmas s.mm.brkStart (alignUp newBrk) heapFlags
    · exact .inl ⟨hc, by rw [heq]; rfl⟩
    · exact .inr ⟨hc, by rw [heq]⟩
  | some u =>
    have hu := mem_of_find?_eq_some hf
    have hstart : u.start = s.mm.brkStart := by simpa using find?_some hf
    have hend : oldEnd s.mm = u.stop := by rw [oldEnd, hf]
    have hpos := h.list.ordered.nonempty u hu
    obtain ⟨hlist, hks, hmem⟩ := remove_self ks h.list hu
    rw [if_pos (by omega), hend]
    rw [hstart] at hlist hks hmem
    refine ⟨_, hlist, hmem, fun hnone => absurd hstart (hnone u hu), ?_⟩
    generalize mmVmaRemove ks s.mm.vmas s.mm.brkStart u.stop = r at hks ⊢
    obtain ⟨w, l, ks1⟩ := r
    obtain rfl : ks1 = ks := hks
    dsimp only
    obtain ⟨ks', ⟨hc, heq⟩ | ⟨hc, heq⟩⟩ :=
      mmVmaAdd_cases ks1 l s.mm.brkStart (alignUp newBrk) heapFlags
    · exact .inl ⟨hc, by rw [heq]; rfl⟩
    · exact .inr ⟨hc, by rw [heq]⟩

/-- The condition on a growth is that the new VMA can be added, or that none was taken out. -/
lemma canAdd_iff (hgrow : s.mm.brk < newBrk) (hfloor : newBrk < stackFloor)
    {vmas : List Vma} (hmem : ∀ v, v ∈ vmas ↔ v ∈ s.mm.vmas ∧ v.start ≠ s.mm.brkStart) :
    CanAdd ks vmas s.mm.brkStart (alignUp newBrk) ↔ ks.next.1 = true ∧
      ∀ v ∈ s.mm.vmas, v.start ≠ s.mm.brkStart →
        v.overlaps s.mm.brkStart (alignUp newBrk) = false := by
  obtain ⟨hle, _, hal⟩ := alignUp_spec hfloor
  have hlt : s.mm.brkStart < alignUp newBrk := (h.start_le.trans_lt hgrow).trans_le hle
  constructor
  · rintro ⟨_, _, _, hk, hfree⟩
    exact ⟨hk, fun v hv hne => hfree v ((hmem v).mpr ⟨hv, hne⟩)⟩
  · rintro ⟨hk, hfree⟩
    exact ⟨hlt, h.aligned, hal, hk, fun v hv => hfree v ((hmem v).mp hv).1 ((hmem v).mp hv).2⟩

/-- A growth that finds room keeps the heap and does what it should. -/
lemma grown_spec (hgrow : s.mm.brk < newBrk) (hfloor : newBrk < stackFloor)
    {vmas : List Vma} (hlist : IsVmaList vmas)
    (hc : CanAdd ks vmas s.mm.brkStart (alignUp newBrk)) :
    HeapInv (s.grown vmas newBrk) ∧ BrkDone s (s.grown vmas newBrk) := by
  obtain ⟨hle, hlt47, hal⟩ := alignUp_spec hfloor
  obtain ⟨hins, hmem, hfind⟩ := @insertVma_spec vmas (heapVma s.mm.brkStart (alignUp newBrk))
    hlist hc.1 ⟨h.aligned, hal⟩ (hlt47.trans (by norm_num)) hc.2.2.2.2
  have hself := (hmem _).mpr (.inl rfl)
  refine ⟨⟨hins, h.aligned, (h.start_le.trans hgrow.le), hle.trans hlt47.le, fun _ => hself,
    h.tables, h.refs⟩, fun a hlo hhi => ?_, fun _ => ⟨_, hself, rfl, h.aligned, hal, hle⟩,
    fun a hge hlt => ?_⟩
  · have ha : a < s.mm.brk := hhi.trans_le (min_le_left _ _)
    have hheap := h.heap (hlo.trans_lt ha)
    have hold : mmVmaFind s.mm.vmas a = some (heapVma s.mm.brkStart (alignUp s.mm.brk)) := by
      refine h.list.find_eq_some_iff.mpr ⟨hheap, covers_iff.mpr ⟨hlo, ?_⟩⟩
      exact ha.trans_le (alignUp_spec (hgrow.trans hfloor)).1
    have hnew : mmVmaFind (s.grown vmas newBrk).mm.vmas a =
        some (heapVma s.mm.brkStart (alignUp newBrk)) :=
      (hfind a).trans (if_pos (covers_iff.mpr ⟨hlo, (ha.trans hgrow).trans_le hle⟩))
    exact @userByte_congr s (s.grown vmas newBrk) a _ _ h.refs h.refs (ha.trans_le h.brk_le) hold
      hnew (by simp) rfl rfl
  · have hend := @heapEnd_of_mem _ (s.grown vmas newBrk).mm hins hself rfl
    have hstop : (heapVma s.mm.brkStart (alignUp newBrk)).stop = alignUp newBrk := rfl
    omega

/-- **A growth** does what it should exactly under its condition, and then keeps the heap. -/
lemma brkGrow_iff (hgrow : s.mm.brk < newBrk) (hfloor : newBrk < stackFloor) :
    (BrkSpec s (s.brkGrow ks newBrk) ↔ (∀ v ∈ s.mm.vmas, v.start ≠ s.mm.brkStart) ∨
      ks.next.1 = true ∧ ∀ v ∈ s.mm.vmas, v.start ≠ s.mm.brkStart →
        v.overlaps s.mm.brkStart (alignUp newBrk) = false) ∧
    (BrkSpec s (s.brkGrow ks newBrk) → HeapInv (s.brkGrow ks newBrk).2) := by
  obtain ⟨vmas, hlist, hmem, hsame, ⟨hc, heq⟩ | ⟨hc, heq⟩⟩ := @brkGrow_eq s ks newBrk h
  · obtain ⟨hinv, hdone⟩ := grown_spec h hgrow hfloor hlist hc
    rw [heq]
    exact ⟨iff_of_true ⟨rfl, hdone⟩ (.inr ((canAdd_iff h hgrow hfloor hmem).mp hc)), fun _ => hinv⟩
  · -- the call fails, and the list is as before only if nothing was taken out
    rw [canAdd_iff h hgrow hfloor hmem] at hc
    rw [heq]
    refine ⟨⟨fun hf => .inl fun v hv => ?_, fun hor => ?_⟩, fun hf => ?_⟩
    · have hvmas : vmas = s.mm.vmas := hf.vmas
      exact ((hmem v).mp (hvmas ▸ hv)).2
    · exact ⟨hsame (hor.resolve_right hc), rfl, fun _ => rfl⟩
    · have hvmas : vmas = s.mm.vmas := hf.vmas
      rwa [hvmas]

/-! ### Shrinking -/

/-- A shrink that does not end on a page boundary leaves a VMA that does not. -/
lemma aligned_of_shrink (hlo : s.mm.brkStart ≤ newBrk) (hlt : newBrk < s.mm.brk)
    (hstop : newBrk < alignUp s.mm.brk) (hdone : BrkDone s (s.brkShrink newBrk).2) :
    PageAligned newBrk := by
  have hheap := h.heap (hlo.trans_lt hlt)
  rcases hlo.eq_or_lt with heq | hgt
  · exact heq ▸ h.aligned
  · obtain ⟨v, hv, hstart, _, hal, _⟩ := hdone.heap hgt
    rcases (mem_shrinkHeapVma h.list hheap hgt hstop).mp hv with rfl | ⟨_, hne⟩
    · exact hal
    · exact absurd hstart hne

/-- The pages that the loop of a shrink unmaps. -/
def brkPages (s : Space) (newBrk : ℕ) : ℕ := (s.mm.brk - newBrk + (pageSize - 1)) / pageSize

/-- **A shrink to a page boundary** keeps the heap and does what it should. -/
lemma shrink_spec (hlo : s.mm.brkStart ≤ newBrk) (hlt : newBrk < s.mm.brk)
    (hstop : newBrk < alignUp s.mm.brk) (hal : PageAligned newBrk) :
    HeapInv (s.brkShrink newBrk).2 ∧ BrkDone s (s.brkShrink newBrk).2 := by
  have hheap := h.heap (hlo.trans_lt hlt)
  have hle := h.brk_le
  obtain ⟨htables, hrefs, hbytes, hchild⟩ :=
    @unmapLoop_spec (brkPages s newBrk) s.mem s.pml4 newBrk h.tables h.refs fun i hi => by
      simp only [brkPages, pageSize] at hi ⊢
      omega
  have hlist : (s.brkShrink newBrk).2.mm.vmas =
      (mmVmaRemove [true] s.mm.vmas newBrk (alignUp s.mm.brk)).2.1 := by
    rw [mmVmaRemove_eq h.list.ordered hstop]
    exact shrinkHeapVma_eq h.list hheap hlo hstop true
  have hwf : IsVmaList (s.brkShrink newBrk).2.mm.vmas := by
    rw [hlist]
    exact mmVmaRemove_isVmaList h.list hstop hal (pageAligned_alignUp _)
  have hmem : s.mm.brkStart < newBrk →
      heapVma s.mm.brkStart newBrk ∈ (s.brkShrink newBrk).2.mm.vmas := fun hgt =>
    (mem_shrinkHeapVma h.list hheap hgt hstop).mpr (.inl rfl)
  refine ⟨⟨hwf, h.aligned, hlo, hlt.le.trans hle, fun hgt => ?_, htables, hrefs⟩,
    fun a ha hb => ?_, fun hgt => ⟨_, hmem hgt, rfl, h.aligned, hal, le_rfl⟩, fun a hge hb => ?_⟩
  · have hup : alignUp newBrk = newBrk := by
      rw [alignUp_eq]
      simp only [PageAligned, pageSize] at *
      omega
    show heapVma s.mm.brkStart (alignUp newBrk) ∈ _
    rw [hup]
    exact hmem hgt
  · -- a byte below the new break: its page lies below the pages of the loop
    have hanew : a < newBrk := hb.trans_le (min_le_right _ _)
    have ha47 : a < 2 ^ 47 := (hanew.trans hlt).trans_le hle
    have hold : mmVmaFind s.mm.vmas a = some (heapVma s.mm.brkStart (alignUp s.mm.brk)) :=
      h.list.find_eq_some_iff.mpr ⟨hheap, covers_iff.mpr ⟨ha, hanew.trans hstop⟩⟩
    have hnew : mmVmaFind (s.brkShrink newBrk).2.mm.vmas a = some (heapVma s.mm.brkStart newBrk) :=
      hwf.find_eq_some_iff.mpr ⟨hmem (ha.trans_lt hanew), covers_iff.mpr ⟨ha, hanew⟩⟩
    refine @userByte_congr s (s.brkShrink newBrk).2 a _ _ h.refs hrefs ha47 hold hnew (by simp) ?_
      hbytes
    refine (hchild a (userAddr_of_lt ha47)).trans (if_neg ?_)
    rintro ⟨i, hi, heq⟩
    rw [pageIndex_of_lt ha47, pageIndex_of_lt (by
      simp only [brkPages, pageSize] at hi ⊢
      omega)] at heq
    simp only [PageAligned, pageSize] at hal heq
    omega
  · -- an address from the end of the heap VMA up to the old break lies on a page of the loop
    have hend : newBrk ≤ heapEnd (s.brkShrink newBrk).2.mm := by
      rcases hlo.eq_or_lt with heq | hgt
      · exact heq.ge.trans (start_le_heapEnd hwf)
      · exact (@heapEnd_of_mem _ (s.brkShrink newBrk).2.mm hwf (hmem hgt) rfl).ge
    have ha47 : a < 2 ^ 47 := hb.trans_le hle
    refine (hchild a (userAddr_of_lt ha47)).trans (if_pos ⟨(a - newBrk) / pageSize, ?_, ?_⟩)
    · simp only [brkPages, pageSize]
      omega
    · rw [pageIndex_of_lt ha47, pageIndex_of_lt (by simp only [pageSize]; omega)]
      simp only [PageAligned, pageSize] at *
      omega

/-! ### Every call -/

lemma brk_le_alignUp : s.mm.brk ≤ alignUp s.mm.brk := by
  have hle := h.brk_le
  rw [alignUp_eq]
  simp only [pageSize]
  omega

lemma brkDone_self : BrkDone s s := by
  have hup := brk_le_alignUp h
  refine ⟨fun _ _ _ => rfl, fun hlt => ⟨_, h.heap hlt, rfl, h.aligned, pageAligned_alignUp _, hup⟩,
    fun a hge hlt => ?_⟩
  rcases h.start_le.eq_or_lt with heq | hgt
  · have hend := start_le_heapEnd h.list
    omega
  · have hend : heapEnd s.mm = alignUp s.mm.brk := heapEnd_of_mem h.list (h.heap hgt) rfl
    omega

/-- **One call** does what it should exactly under its condition, and then keeps the heap. -/
lemma sysBrk_iff (ks : Outcomes) (newBrk : ℕ) :
    (BrkSpec s (s.sysBrk ks newBrk) ↔ BrkOk ks s newBrk) ∧
      (BrkOk ks s newBrk → HeapInv (s.sysBrk ks newBrk).2) := by
  have hself : BrkSpec s (.ok s.mm.brk, s) := ⟨rfl, brkDone_self h⟩
  have hfail : ∀ e, BrkSpec s (.error e, s) := fun e => ⟨rfl, rfl, fun _ => rfl⟩
  rw [Space.sysBrk]
  split
  next hzero => exact ⟨iff_of_true hself fun hne => absurd hzero hne, fun _ => h⟩
  next hzero =>
    split
    next hlow =>
      exact ⟨iff_of_true (hfail _) fun _ hle => absurd hle (not_le.mpr hlow), fun _ => h⟩
    next hlow =>
      split
      next hhigh =>
        exact ⟨iff_of_true (hfail _) fun _ _ hlt => absurd hlt (not_lt.mpr hhigh), fun _ => h⟩
      next hhigh =>
        have hlo := not_lt.mp hlow
        have hhi := not_le.mp hhigh
        split_ifs with hsame hgrow
        · refine ⟨iff_of_true hself fun _ _ _ => ⟨fun hlt => ?_, fun hlt => ?_⟩, fun _ => h⟩ <;>
            exact absurd hlt (by omega)
        · obtain ⟨hiff, hinv⟩ := @brkGrow_iff s ks newBrk h hgrow hhi
          have hok : BrkOk ks s newBrk ↔ _ := ⟨fun hok => (hok hzero hlo hhi).2 hgrow,
            fun hc _ _ _ => ⟨fun hlt => absurd hlt (by omega), fun _ => hc⟩⟩
          exact ⟨hiff.trans hok.symm, fun hc => hinv (hiff.mpr (hok.mp hc))⟩
        · have hlt : newBrk < s.mm.brk := by omega
          have hstop := hlt.trans_le (brk_le_alignUp h)
          refine ⟨⟨fun hspec _ _ _ => ⟨fun _ => aligned_of_shrink h hlo hlt hstop hspec.2,
            fun hgt => absurd hgt (by omega)⟩, fun hok => ⟨rfl, ?_⟩⟩, fun hok => ?_⟩
          · exact (shrink_spec h hlo hlt hstop ((hok hzero hlo hhi).1 hlt)).2
          · exact (shrink_spec h hlo hlt hstop ((hok hzero hlo hhi).1 hlt)).1

end

end Calls

/-! ### Runs -/

/-- A call that meets the condition. -/
def BrkStep (s s' : Space) : Prop := ∃ ks newBrk, BrkOk ks s newBrk ∧ (s.sysBrk ks newBrk).2 = s'

/-- **The heap break**: after every run of calls that meet the condition, the next call does what
it should exactly if it meets the condition too. -/
theorem brk_run {s₀ s : Space} (h : HeapInv s₀) (hrun : Relation.ReflTransGen BrkStep s₀ s)
    (ks : Outcomes) (newBrk : ℕ) : BrkSpec s (s.sysBrk ks newBrk) ↔ BrkOk ks s newBrk := by
  have hinv : HeapInv s := by
    induction hrun with
    | refl => exact h
    | tail _ hstep ih =>
      obtain ⟨ks', newBrk', hok, rfl⟩ := hstep
      exact (sysBrk_iff ih ks' newBrk').2 hok
  exact (sysBrk_iff hinv ks newBrk).1

/-! ### A heap of two pages -/

/-- Memory with an empty PML4 in frame 10, and a frame 20 full of sevens. -/
def sevens : PhysMem where
  totalFrames := 32
  free := {11, 12, 13}
  picks := [11, 12, 13]
  refs := fun _ => 1
  pins := fun _ => 0
  bytes := fun _ _ => 7
  tables := fun _ _ => Pte.empty

/-- A heap from 0x500000 to 0x502000, whose second page is mapped to frame 20. -/
def twoPageHeap : Space where
  mm := ⟨[heapVma 0x500000 0x502000], 0x500000, 0x502000, 0⟩
  pml4 := 10
  mem := (vmmPageMap sevens 10 0x501000 20 7#64).2

lemma twoPageHeap_inv : HeapInv twoPageHeap := by
  obtain ⟨htables, htaken, hnone⟩ := @userTables_of_empty sevens 10 (fun _ _ => rfl) (by decide)
  obtain ⟨hmapped, hpte⟩ := @vmmPageMap_spec sevens 10 0x501000 htables htaken (by decide) 20 7#64
    (by decide +kernel)
  have hpages : ∀ f, pagesOf twoPageHeap.mem 10 f ⊆ {0x501} ∧
      ((pagesOf twoPageHeap.mem 10 f).Nonempty → f = 20) := by
    have hmem : ∀ f i, i ∈ pagesOf twoPageHeap.mem 10 f → i = 0x501 ∧ f = 20 := by
      intro f i hi
      obtain ⟨hlt, hchild⟩ := mem_pagesOf.mp hi
      rw [show pteAt twoPageHeap.mem 10 (i * pageSize) = _ from
        hpte _ (userAddr_page hlt)] at hchild
      split_ifs at hchild with heq
      · rw [pageIndex_page hlt] at heq
        refine ⟨heq, ?_⟩
        have hframe : (⟨20, 7#64⟩ : Pte).child = some 20 := by decide
        exact (Option.some.inj (hframe.symm.trans hchild)).symm
      · rw [hnone, child_empty] at hchild
        nomatch hchild
    exact fun f => ⟨fun i hi => Finset.mem_singleton.mpr (hmem f i hi).1,
      fun ⟨i, hi⟩ => (hmem f i hi).2⟩
  refine ⟨⟨IntervalList.ordered_singleton (by decide), ?_, ?_⟩, by decide, by decide, by decide,
    fun _ => ?_, hmapped, fun f => ?_, fun f hne => ?_⟩
  · intro v hv
    obtain rfl := mem_singleton.mp hv
    decide
  · intro v hv
    obtain rfl := mem_singleton.mp hv
    decide
  · exact mem_singleton.mpr (by decide +kernel)
  · rcases (pagesOf twoPageHeap.mem 10 f).eq_empty_or_nonempty with hemp | hne
    · rw [show pagesOf twoPageHeap.mem twoPageHeap.pml4 f = ∅ from hemp]
      exact Nat.zero_le _
    · calc (pagesOf twoPageHeap.mem 10 f).card ≤ 1 := Finset.card_le_card (hpages f).1
        _ = twoPageHeap.mem.refs 20 := by decide +kernel
        _ = twoPageHeap.mem.refs f := by rw [(hpages f).2 hne]
  · rw [(hpages f).2 hne]
    decide +kernel

/-- **A shrink to the middle of a page** unmaps that page: the byte at 0x501000, below the new break
0x501800, was 7 and reads as 0, and the heap VMA ends inside a page.  And **a growth without memory
for the new VMA** fails after the old one is gone. -/
theorem unaligned_shrink_loses_bytes :
    HeapInv twoPageHeap ∧ twoPageHeap.userByte 0x501000 = some 7 ∧
    (twoPageHeap.sysBrk [] 0x501800).2.userByte 0x501000 = some 0 ∧
    (twoPageHeap.sysBrk [] 0x501800).2.mm.vmas = [heapVma 0x500000 0x501800] ∧
    (∃ s, twoPageHeap.sysBrk [] 0x503000 = (.error .ENOMEM, s) ∧ s.mm.vmas = []) := by
  refine ⟨twoPageHeap_inv, by decide +kernel, by decide +kernel, by decide +kernel, _, rfl, ?_⟩
  decide +kernel

/-- A shrink to a page boundary does what it should. -/
theorem twoPageHeap_shrinks : BrkSpec twoPageHeap (twoPageHeap.sysBrk [] 0x501000) := by
  refine (brk_run twoPageHeap_inv .refl [] 0x501000).mpr fun _ _ _ => ⟨fun _ => by decide, ?_⟩
  exact fun hgrow => absurd hgrow (by decide)

end Makaos
