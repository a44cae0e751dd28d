import Makaos.Common
import Makaos.Lib.IntervalList

/-!
The VMA list of an address space (`kernel/mm/mm.c`, `mm.h`).

* `Vma`: a `vma_t`; its field `end` is called `stop` here.  The intrusive list is a `List`.
* `mmVmaAdd`, `mmVmaAddFile`, `mmVmaFind`, `mmVmaRemove`: the operations under `vma_lock`.
* `Vma.mapping`, `mappingAt`: what an address is mapped to, the abstract view of the list.
-/

namespace Makaos

open IntervalList List Nat
variable {addr : ℕ}

/-! ### Flags -/

/-- `VMA_R`. -/
def vmaR : BitVec 32 := 1#32

/-- `VMA_W`. -/
def vmaW : BitVec 32 := 2#32

/-- `VMA_X`. -/
def vmaX : BitVec 32 := 4#32

/-- `VMA_ANON`. -/
def vmaAnon : BitVec 32 := 8#32

/-- `VMA_SHARED`. -/
def vmaShared : BitVec 32 := 16#32

/-- `VMA_MMIO`. -/
def vmaMmio : BitVec 32 := 32#32

/-- `VMA_FILE`. -/
def vmaFile : BitVec 32 := 64#32

/-- `flags & bit` is not zero. -/
def hasFlag (flags bit : BitVec 32) : Bool := flags &&& bit != 0#32

/-! ### The list -/

/-- `vma_t`.  `shmem` and `file` are the pointers to the backing object, which are null where the
VMA has none. -/
structure Vma where
  start : ℕ
  stop : ℕ
  flags : BitVec 32
  shmem : Option ℕ
  /-- `uint32_t` -/
  shmemPgoff : ℕ
  file : Option ℕ
  fileOff : ℕ
  fileLen : ℕ
  deriving DecidableEq, Repr

namespace Vma

/-- `addr >= v->start && addr < v->end`. -/
def covers (v : Vma) (addr : ℕ) : Bool := v.start ≤ addr ∧ addr < v.stop

/-- `start < v->end && end > v->start`. -/
def overlaps (v : Vma) (start stop : ℕ) : Bool := start < v.stop && stop > v.start

/-- `v->end = start`, the shrink of a VMA that overlaps the left edge. -/
def trimTail (v : Vma) (start : ℕ) : Vma := { v with stop := start }

/-- `v->start = end`, the shrink of a VMA that overlaps the right edge. -/
def trimHead (v : Vma) (stop : ℕ) : Vma := { v with start := stop }

/-- The right fragment of a split. -/
def rightPart (v : Vma) (stop : ℕ) : Vma where
  start := stop
  stop := v.stop
  flags := v.flags
  shmem := v.shmem
  shmemPgoff := (v.shmemPgoff + (stop - v.start) / pageSize % 2 ^ 32) % 2 ^ 32
  file := v.file
  fileOff := if v.file.isSome then wrap (v.fileOff + (stop - v.start)) else 0
  fileLen :=
    if v.file.isSome then
      if v.fileLen > stop - v.start then v.fileLen - (stop - v.start) else 0
    else 0

end Vma

/-- The outcomes of the coming calls of `kmalloc`; with none left the heap is exhausted. -/
abbrev Outcomes := List Bool

/-- A call of `kmalloc`. -/
def Outcomes.next : Outcomes → Bool × Outcomes
  | [] => (false, [])
  | ok :: ks => (ok, ks)

/-- `mm_vma_find`. -/
def mmVmaFind (vmas : List Vma) (addr : ℕ) : Option Vma := vmas.find? (·.covers addr)

/-- The loop that inserts behind the head. -/
def insertBehind (vma : Vma) : List Vma → List Vma
  | [] => [vma]
  | v :: rest => if v.start < vma.start then v :: insertBehind vma rest else vma :: v :: rest

/-- The insertion by start address of `mm_vma_add`. -/
def insertVma (vma : Vma) : List Vma → List Vma
  | [] => [vma]
  | v :: rest => if vma.start < v.start then vma :: v :: rest else v :: insertBehind vma rest

/-- The body that `mm_vma_add` and `mm_vma_add_file` share: check the range, allocate, check for an
overlap, insert. -/
def addVma (ks : Outcomes) (vmas : List Vma) (vma : Vma) : Bool × List Vma × Outcomes :=
  if vma.start ≥ vma.stop then (false, vmas, ks)
  else if ¬ PageAligned vma.start then (false, vmas, ks)
  else if ¬ PageAligned vma.stop then (false, vmas, ks)
  else
    match ks.next with
    | (false, ks) => (false, vmas, ks)
    | (true, ks) =>
      if vmas.any (·.overlaps vma.start vma.stop) then (false, vmas, ks)
      else (true, insertVma vma vmas, ks)

/-- The VMA that `mm_vma_add` fills in. -/
def anonVma (start stop : ℕ) (flags : BitVec 32) : Vma := ⟨start, stop, flags, none, 0, none, 0, 0⟩

/-- The VMA that `mm_vma_add_file` fills in. -/
def fileVma (start stop : ℕ) (protFlags : BitVec 32) (file fileOff fileLen : ℕ) : Vma :=
  ⟨start, stop, vmaFile ||| protFlags, none, 0, some file, fileOff, fileLen⟩

/-- `mm_vma_add`. -/
def mmVmaAdd (ks : Outcomes) (vmas : List Vma) (start stop : ℕ) (flags : BitVec 32) :
    Bool × List Vma × Outcomes :=
  addVma ks vmas (anonVma start stop flags)

/-- `mm_vma_add_file`. -/
def mmVmaAddFile (ks : Outcomes) (vmas : List Vma) (start stop : ℕ) (protFlags : BitVec 32)
    (file fileOff fileLen : ℕ) : Bool × List Vma × Outcomes :=
  addVma ks vmas (fileVma start stop protFlags file fileOff fileLen)

/-- The loop of `mm_vma_remove`; the flag is `did_work`. -/
def removeLoop (start stop : ℕ) : Outcomes → List Vma → Bool × List Vma × Outcomes
  | ks, [] => (false, [], ks)
  | ks, v :: rest =>
    if v.start ≥ stop ∨ v.stop ≤ start then
      let (work, rest, ks) := removeLoop start stop ks rest
      (work, v :: rest, ks)
    else if v.start ≥ start ∧ v.stop ≤ stop then
      let (_, rest, ks) := removeLoop start stop ks rest
      (true, rest, ks)
    else if v.start < start ∧ v.stop > stop then
      match ks.next with
      | (false, ks) =>
        let (_, rest, ks) := removeLoop start stop ks rest
        (true, v :: rest, ks)
      | (true, ks) =>
        let (_, rest, ks) := removeLoop start stop ks rest
        (true, v.trimTail start :: v.rightPart stop :: rest, ks)
    else if v.start < start then
      let (_, rest, ks) := removeLoop start stop ks rest
      (true, v.trimTail start :: rest, ks)
    else
      let (_, rest, ks) := removeLoop start stop ks rest
      (true, v.trimHead stop :: rest, ks)

/-- `mm_vma_remove`. -/
def mmVmaRemove (ks : Outcomes) (vmas : List Vma) (start stop : ℕ) : Bool × List Vma × Outcomes :=
  if start ≥ stop then (false, vmas, ks) else removeLoop start stop ks vmas

/-! ### The list as an address map -/

/-- What an address is mapped to: the protection; the file, the offset in it and the number of its
bytes up to the zero-filled tail; the shared object and the index of the page in it. -/
structure Mapping where
  flags : BitVec 32
  file : Option (ℕ × ℕ × ℕ)
  shmem : Option (ℕ × ℕ)
  deriving DecidableEq, Repr

/-- What the VMA maps an address to, in the arithmetic of the page-fault handler. -/
def Vma.mapping (v : Vma) (addr : ℕ) : Mapping where
  flags := v.flags
  file := v.file.map fun f => (f, wrap (v.fileOff + (addr - v.start)), v.fileLen - (addr - v.start))
  shmem := v.shmem.map fun o => (o, ((addr - v.start) / pageSize + v.shmemPgoff) % 2 ^ 32)

/-- What the address is mapped to. -/
def mappingAt (vmas : List Vma) (addr : ℕ) : Option Mapping :=
  (mmVmaFind vmas addr).map (·.mapping addr)

/-- The map without the addresses of a range. -/
def eraseRange (m : ℕ → Option Mapping) (start stop : ℕ) : ℕ → Option Mapping :=
  fun addr => if start ≤ addr ∧ addr < stop then none else m addr

/-! ### Well-formed lists -/

/-- **The VMA list** is sorted, its regions are pairwise disjoint, not empty and page-aligned. -/
structure IsVmaList (vmas : List Vma) : Prop where
  ordered : IntervalList.Ordered Vma.start Vma.stop vmas
  aligned : ∀ v ∈ vmas, PageAligned v.start ∧ PageAligned v.stop
  bound : ∀ v ∈ vmas, v.stop < 2 ^ 64

lemma covers_iff {v : Vma} : v.covers addr = true ↔ Covers Vma.start Vma.stop v addr := by
  simp [Vma.covers, Covers]

lemma mmVmaFind_eq_lookup (vmas : List Vma) (addr : ℕ) :
    mmVmaFind vmas addr = lookup Vma.start Vma.stop addr vmas := rfl

lemma mmVmaFind_cons_of_covers {v : Vma} (h1 : v.start ≤ addr) (h2 : addr < v.stop)
    (vmas : List Vma) : mmVmaFind (v :: vmas) addr = some v := by
  rw [mmVmaFind, find?_cons, covers_iff.mpr ⟨h1, h2⟩]

lemma mmVmaFind_cons_of_not {v : Vma} (h : addr < v.start ∨ v.stop ≤ addr) (vmas : List Vma) :
    mmVmaFind (v :: vmas) addr = mmVmaFind vmas addr := by
  have hnot : v.covers addr = false := by
    rw [Vma.covers, decide_eq_false_iff_not]
    omega
  rw [mmVmaFind, find?_cons, hnot]
  rfl

lemma not_overlaps_iff {v : Vma} {start stop : ℕ} :
    v.overlaps start stop = false ↔ v.stop ≤ start ∨ stop ≤ v.start := by
  simp only [Vma.overlaps, Bool.and_eq_false_iff, decide_eq_false_iff_not, not_lt, gt_iff_lt]

namespace IsVmaList

variable {vmas : List Vma} {v : Vma} {addr : ℕ}

lemma tail (h : IsVmaList (v :: vmas)) : IsVmaList vmas :=
  ⟨h.ordered.tail, fun w hw => h.aligned w (mem_cons_of_mem _ hw),
    fun w hw => h.bound w (mem_cons_of_mem _ hw)⟩

lemma start_le {w : Vma} (h : IsVmaList (v :: vmas)) (hw : w ∈ v :: vmas) : v.start ≤ w.start := by
  rcases mem_cons.mp hw with rfl | hw
  · exact le_rfl
  · calc v.start ≤ v.stop := (h.ordered.nonempty v mem_cons_self).le
      _ ≤ w.start := h.ordered.head_le hw

lemma find_eq_some_iff (h : IsVmaList vmas) :
    mmVmaFind vmas addr = some v ↔ v ∈ vmas ∧ v.covers addr = true := by
  rw [mmVmaFind_eq_lookup, h.ordered.lookup_eq_some_iff, covers_iff]

end IsVmaList

/-! ### Insertion -/

/-- The VMA goes between those that start below it and the others. -/
lemma insertBehind_eq {vmas : List Vma} (vma : Vma) (h : IsVmaList vmas) :
    ∃ l1 l2, vmas = l1 ++ l2 ∧ insertBehind vma vmas = l1 ++ vma :: l2 ∧
      (∀ v ∈ l1, v.start < vma.start) ∧ ∀ v ∈ l2, vma.start ≤ v.start := by
  induction vmas with
  | nil => exact ⟨[], [], rfl, rfl, by simp, by simp⟩
  | cons v rest ih =>
    rw [insertBehind]
    split_ifs with hlt
    · obtain ⟨l1, l2, hl, heq, h1, h2⟩ := ih h.tail
      exact ⟨v :: l1, l2, by rw [hl, cons_append], by rw [heq, cons_append],
        forall_mem_cons.2 ⟨hlt, h1⟩, h2⟩
    · exact ⟨[], v :: rest, rfl, rfl, by simp, fun w hw => (not_lt.mp hlt).trans (h.start_le hw)⟩

lemma insertVma_eq {vmas : List Vma} (vma : Vma) (h : IsVmaList vmas) :
    ∃ l1 l2, vmas = l1 ++ l2 ∧ insertVma vma vmas = l1 ++ vma :: l2 ∧
      (∀ v ∈ l1, v.start ≤ vma.start) ∧ ∀ v ∈ l2, vma.start ≤ v.start := by
  cases vmas with
  | nil => exact ⟨[], [], rfl, rfl, by simp, by simp⟩
  | cons v rest =>
    rw [insertVma]
    split_ifs with hlt
    · exact ⟨[], v :: rest, rfl, rfl, by simp, fun w hw => hlt.le.trans (h.start_le hw)⟩
    · obtain ⟨l1, l2, hl, heq, h1, h2⟩ := insertBehind_eq vma h.tail
      exact ⟨v :: l1, l2, by rw [hl, cons_append], by rw [heq, cons_append],
        forall_mem_cons.2 ⟨not_lt.mp hlt, fun w hw => (h1 w hw).le⟩, h2⟩

/-- **Insertion** of a VMA that overlaps none: the list stays well formed, its members are the old
ones and the new one, and the new one covers its range. -/
lemma insertVma_spec {vmas : List Vma} {vma : Vma} (h : IsVmaList vmas) (hne : vma.start < vma.stop)
    (hal : PageAligned vma.start ∧ PageAligned vma.stop) (hlt : vma.stop < 2 ^ 64)
    (hfree : ∀ v ∈ vmas, v.overlaps vma.start vma.stop = false) :
    IsVmaList (insertVma vma vmas) ∧ (∀ v, v ∈ insertVma vma vmas ↔ v = vma ∨ v ∈ vmas) ∧
      ∀ addr, mmVmaFind (insertVma vma vmas) addr =
        if vma.covers addr then some vma else mmVmaFind vmas addr := by
  obtain ⟨l1, l2, rfl, heq, h1, h2⟩ := insertVma_eq vma h
  rw [heq]
  have hord : Ordered Vma.start Vma.stop (l1 ++ vma :: l2) := by
    refine h.ordered.insert hne (fun v hv => ?_) (fun v hv => ?_)
    · have hmem := mem_append_left l2 hv
      rcases not_overlaps_iff.mp (hfree v hmem) with hle | hle
      · exact hle
      · exact absurd (hle.trans (h1 v hv)) (not_le.mpr hne)
    · have hmem := mem_append_right l1 hv
      rcases not_overlaps_iff.mp (hfree v hmem) with hle | hle
      · exact absurd (hle.trans (h2 v hv)) (not_le.mpr (h.ordered.nonempty v hmem))
      · exact hle
  have hmem : ∀ v, v ∈ l1 ++ vma :: l2 ↔ v = vma ∨ v ∈ l1 ++ l2 := by
    intro v
    simp only [mem_append, mem_cons]
    tauto
  refine ⟨⟨hord, fun v hv => ?_, fun v hv => ?_⟩, hmem, fun addr => ?_⟩
  · rcases (hmem v).mp hv with rfl | hv
    · exact hal
    · exact h.aligned v hv
  · rcases (hmem v).mp hv with rfl | hv
    · exact hlt
    · exact h.bound v hv
  · rw [mmVmaFind_eq_lookup, mmVmaFind_eq_lookup, lookup_insert hord]
    simp only [covers_iff]

/-- When `mm_vma_add` and `mm_vma_add_file` succeed. -/
def CanAdd (ks : Outcomes) (vmas : List Vma) (start stop : ℕ) : Prop :=
  start < stop ∧ PageAligned start ∧ PageAligned stop ∧ ks.next.1 = true ∧
    ∀ v ∈ vmas, v.overlaps start stop = false

instance (ks : Outcomes) (vmas : List Vma) (start stop : ℕ) :
    Decidable (CanAdd ks vmas start stop) := inferInstanceAs (Decidable (_ ∧ _))

lemma addVma_cases (ks : Outcomes) (vmas : List Vma) (vma : Vma) : ∃ ks',
    (CanAdd ks vmas vma.start vma.stop ∧ addVma ks vmas vma = (true, insertVma vma vmas, ks')) ∨
      (¬ CanAdd ks vmas vma.start vma.stop ∧ addVma ks vmas vma = (false, vmas, ks')) := by
  rw [addVma]
  split
  next hge => exact ⟨ks, .inr ⟨fun hc => absurd hc.1 (not_lt.mpr hge), rfl⟩⟩
  next hge =>
    split
    next hal => exact ⟨ks, .inr ⟨fun hc => hal hc.2.1, rfl⟩⟩
    next hal =>
      split
      next hal' => exact ⟨ks, .inr ⟨fun hc => hal' hc.2.2.1, rfl⟩⟩
      next hal' =>
        split
        next ks' hk =>
          refine ⟨ks', .inr ⟨fun hc => ?_, rfl⟩⟩
          exact absurd hc.2.2.2.1 (by rw [hk]; exact Bool.false_ne_true)
        next ks' hk =>
          split_ifs with hany
          · obtain ⟨v, hv, hov⟩ := any_eq_true.mp hany
            exact ⟨ks', .inr ⟨fun hc => absurd hov (by simp [hc.2.2.2.2 v hv]), rfl⟩⟩
          · have hnone : ∀ v ∈ vmas, v.overlaps vma.start vma.stop = false := by
              simpa using hany
            exact ⟨ks', .inl ⟨⟨not_le.mp hge, not_not.mp hal, not_not.mp hal', by rw [hk],
              hnone⟩, rfl⟩⟩

lemma mmVmaAdd_cases (ks : Outcomes) (vmas : List Vma) (start stop : ℕ) (flags : BitVec 32) :
    ∃ ks', (CanAdd ks vmas start stop ∧ mmVmaAdd ks vmas start stop flags =
        (true, insertVma (anonVma start stop flags) vmas, ks')) ∨
      (¬ CanAdd ks vmas start stop ∧ mmVmaAdd ks vmas start stop flags = (false, vmas, ks')) :=
  addVma_cases ks vmas (anonVma start stop flags)

end Makaos
