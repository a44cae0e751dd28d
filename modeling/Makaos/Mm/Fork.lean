import Makaos.Mm.Fault
import Makaos.Syscall.Brk

/-!
Copying and tearing down address spaces (`vmm_clone_user_ex`, `vmm_free_user_ex` in
`kernel/mm/vmm.c`, `mm_clone` in `kernel/mm/mm.c`, `task_fork` and `task_mm_release` in
`kernel/proc/process.c`), and unmapping (`mm_unmap_range_flush_free` and the shrinking part of
`sys_brk` in `kernel/syscall/syscall.c`).

The entries are visited in the order of the map, where the source visits them by address.
-/

namespace Makaos

open Vma List Prod

namespace World

/-! ### Copying the entries -/

/-- The state of a copy: the machine, and the entries made for the child so far. -/
structure Cloning where
  world : World
  src : PteMap
  dst : PteMap

/-- What is done for one present entry of the parent; `false` if there is no memory. -/
def cloneEntry (vmas : List Vma) (c : Cloning) (n : ℕ) (e : Pte) : Bool × Cloning :=
  match c.world.tables.next with
  | (false, ts) => (false, { c with world := { c.world with tables := ts } })
  | (true, ts) =>
    let w := { c.world with tables := ts }
    let v := mmVmaFind vmas (n * pageSize)
    if (v.bind Vma.shmem).isSome then
      (true, { c with world := w.refInc e.frame, dst := c.dst.insert n e })
    else if (v.map fun v => hasFlag v.flags vmaMmio) = some true then
      (true, { c with world := w, dst := c.dst.insert n e })
    else if w.mem.pins e.frame > 0 then
      match w.alloc with
      | (none, w) => (false, { c with world := w })
      | (some f, w) =>
        (true, { c with
          world := w.onMem (·.copyFrame f e.frame)
          dst := c.dst.insert n { e with frame := f } })
    else
      let cow : Pte := { e with flags := e.flags &&& ~~~ pageWritable }
      (true, ⟨w.refInc e.frame, c.src.insert n cow, c.dst.insert n cow⟩)

/-- The loops of `vmm_clone_user_ex` over the entries of the parent. -/
def cloneLoop (vmas : List Vma) : List (Σ _ : ℕ, Pte) → Cloning → Bool × Cloning
  | [], c => (true, c)
  | ⟨n, e⟩ :: rest, c =>
    match cloneEntry vmas c n e with
    | (false, c) => (false, c)
    | (true, c) => cloneLoop vmas rest c

/-! ### Freeing the entries -/

/-- The loops of `vmm_free_user_ex`: the reference of every entry is dropped, except where it lies
in a VMA of device memory. -/
def freeEntries (mmio : ℕ → Bool) (pt : PteMap) (w : World) : World :=
  (pt.entries.filter fun e => !mmio e.1).foldl (fun w e => w.refDec e.2.frame) w

/-- The page lies in a VMA of device memory. -/
def mmioPage (vmas : List Vma) (n : ℕ) : Bool :=
  (mmVmaFind vmas (n * pageSize)).any fun v => hasFlag v.flags vmaMmio

/-- `task_mm_release` with the last reference: the entries are freed and the address space is
gone. -/
def releaseMm (w : World) (i : ℕ) : World :=
  match w.spaces[i]? with
  | none => w
  | some sp => freeEntries (mmioPage sp.mm.vmas) sp.pt { w with spaces := w.spaces.eraseIdx i }

/-! ### Copying the VMAs -/

/-- The VMA gets the backing of the one it is a copy of. -/
def Vma.withBacking (d v : Vma) : Vma :=
  { d with
    shmem := if v.shmem.isSome then v.shmem else d.shmem
    shmemPgoff := if v.shmem.isSome then v.shmemPgoff else d.shmemPgoff
    file := if v.file.isSome then v.file else d.file
    fileOff := if v.file.isSome then v.fileOff else d.fileOff
    fileLen := if v.file.isSome then v.fileLen else d.fileLen }

/-- The loop of `mm_clone` that adds the VMAs one by one; `none` if there is no memory. -/
def cloneVmas : List Vma → Outcomes → List Vma → Option (List Vma) × Outcomes
  | [], ks, dst => (some dst, ks)
  | v :: rest, ks, dst =>
    match mmVmaAdd ks dst v.start v.stop v.flags with
    | (false, _, ks) => (none, ks)
    | (true, dst, ks) =>
      cloneVmas rest ks (dst.modify (dst.findIdx (·.covers v.start)) fun d => Vma.withBacking d v)

/-- `mm_clone`. -/
def mmClone (ks : Outcomes) (mm : Mm) : Option Mm × Outcomes :=
  match ks.next with
  | (false, ks) => (none, ks)
  | (true, ks) =>
    if mm.vmas = [] then (some { mm with vmas := [] }, ks)
    else
      match ks.next with
      | (false, ks) => (none, ks)
      | (true, ks) =>
        match cloneVmas mm.vmas ks [] with
        | (none, ks) => (none, ks)
        | (some vmas, ks) => (some { mm with vmas := vmas }, ks)

/-- What the copy of a VMA is. -/
def copyVma (v : Vma) : Vma := Vma.withBacking (anonVma v.start v.stop v.flags) v

@[simp] lemma copyVma_start (v : Vma) : (copyVma v).start = v.start := rfl

@[simp] lemma copyVma_stop (v : Vma) : (copyVma v).stop = v.stop := rfl

@[simp] lemma copyVma_flags (v : Vma) : (copyVma v).flags = v.flags := rfl

@[simp] lemma copyVma_shmem (v : Vma) : (copyVma v).shmem = v.shmem := by
  cases h : v.shmem <;> simp [copyVma, Vma.withBacking, anonVma, h]

@[simp] lemma copyVma_file (v : Vma) : (copyVma v).file = v.file := by
  cases h : v.file <;> simp [copyVma, Vma.withBacking, anonVma, h]

lemma copyVma_fileOff {v : Vma} (h : v.file.isSome) :
    (copyVma v).fileOff = v.fileOff ∧ (copyVma v).fileLen = v.fileLen := by
  simp [copyVma, Vma.withBacking, h]

lemma copyVma_shmemPgoff {v : Vma} (h : v.shmem.isSome) :
    (copyVma v).shmemPgoff = v.shmemPgoff := by
  simp [copyVma, Vma.withBacking, h]

variable {dst : List Vma}

lemma insertVma_last {vma : Vma} (h : ∀ d ∈ dst, d.start < vma.start) :
    insertVma vma dst = dst ++ [vma] := by
  have hbehind : ∀ l : List Vma, (∀ d ∈ l, d.start < vma.start) →
      insertBehind vma l = l ++ [vma] := by
    intro l hl
    induction l with
    | nil => rfl
    | cons d rest ih =>
      rw [insertBehind, if_pos (hl d mem_cons_self), ih fun d hd => hl d (mem_cons_of_mem _ hd)]
      rfl
  cases dst with
  | nil => rfl
  | cons d rest =>
    have hd := h d mem_cons_self
    rw [insertVma, if_neg (by omega), hbehind rest fun d hd => h d (mem_cons_of_mem _ hd)]
    rfl

lemma modify_findIdx_concat {p : Vma → Bool} {x : Vma}
    (h : ∀ d ∈ dst, p d = false) (hx : p x = true) (g : Vma → Vma) :
    (dst ++ [x]).modify ((dst ++ [x]).findIdx p) g = dst ++ [g x] := by
  induction dst with
  | nil => simp [findIdx_cons, hx]
  | cons d rest ih =>
    rw [cons_append, findIdx_cons, h d mem_cons_self, cond_false,
      modify_succ_cons, ih fun d hd => h d (mem_cons_of_mem _ hd)]
    rfl

/-- **The VMAs of the child** are copies of those of the parent, in the same order. -/
lemma cloneVmas_eq {vmas vmas' : List Vma} {ks ks' : Outcomes} : ∀ {dst : List Vma},
    IntervalList.Ordered start stop (dst ++ vmas) →
    cloneVmas vmas ks dst = (some vmas', ks') → vmas' = dst ++ vmas.map copyVma := by
  induction vmas generalizing ks with
  | nil =>
    intro dst _ h
    rw [cloneVmas] at h
    simpa using (congrArg fst h).symm
  | cons v rest ih =>
    intro dst hord h
    have hbefore : ∀ d ∈ dst, d.stop ≤ v.start := fun d hd =>
      (pairwise_append.mp hord.apart).2.2 d hd v mem_cons_self
    have hlast : insertVma (anonVma v.start v.stop v.flags) dst =
        dst ++ [anonVma v.start v.stop v.flags] := by
      refine insertVma_last fun d hd => lt_of_lt_of_le ?_ (hbefore d hd)
      exact hord.nonempty d (mem_append_left _ hd)
    rw [cloneVmas] at h
    obtain ⟨ks1, ⟨_, hadd⟩ | ⟨_, hadd⟩⟩ := mmVmaAdd_cases ks dst v.start v.stop v.flags
    · have hcov : (anonVma v.start v.stop v.flags).covers v.start = true := by
        have := hord.nonempty v (by simp)
        simp only [covers, anonVma]
        simpa using this
      have hnot : ∀ d ∈ dst, d.covers v.start = false := fun d hd => by
        have := hbefore d hd
        simp only [covers, decide_eq_false_iff_not]
        omega
      rw [hadd, hlast] at h
      dsimp only at h
      rw [modify_findIdx_concat hnot hcov] at h
      have := ih ?_ h
      · rw [this]
        simp [copyVma]
      · refine ⟨fun d hd => ?_, ?_⟩
        · simp only [mem_append, mem_singleton, or_assoc] at hd
          rcases hd with hd | rfl | hd
          · exact hord.nonempty d (by simp [hd])
          · exact hord.nonempty v (by simp)
          · exact hord.nonempty d (by simp [hd])
        · have hmap : (dst ++ [copyVma v] ++ rest).map (fun d => (d.start, d.stop)) =
              (dst ++ v :: rest).map fun d => (d.start, d.stop) := by simp
          have hall := fun l : List Vma =>
            @List.pairwise_map Vma (ℕ × ℕ) (fun d : Vma => (d.start, d.stop))
              (fun x y => x.2 ≤ y.1) l
          exact (hall _).mp (hmap ▸ (hall _).mpr hord.apart)
    · rw [hadd] at h
      exact absurd (congrArg fst h) (by simp)

lemma mmClone_eq {ks ks' : Outcomes} {mm mm' : Mm} (hord : IntervalList.Ordered start stop mm.vmas)
    (h : mmClone ks mm = (some mm', ks')) : mm' = { mm with vmas := mm.vmas.map copyVma } := by
  rw [mmClone] at h
  cases hk : ks.next with
  | mk ok ks1 =>
    rw [hk] at h
    cases ok with
    | false => exact absurd (congrArg fst h) (by simp)
    | true =>
      dsimp only at h
      split_ifs at h with hnil
      · cases congrArg fst h
        rw [hnil]
        rfl
      · cases hk2 : ks1.next with
        | mk ok ks2 =>
          rw [hk2] at h
          cases ok with
          | false => exact absurd (congrArg fst h) (by simp)
          | true =>
            dsimp only at h
            cases hc : cloneVmas mm.vmas ks2 [] with
            | mk o ks3 =>
              rw [hc] at h
              cases o with
              | none => exact absurd (congrArg fst h) (by simp)
              | some vmas =>
                cases congrArg fst h
                rw [@cloneVmas_eq mm.vmas vmas ks2 ks3 [] hord hc]
                rfl

/-! ### Fork -/

/-- The memory part of `task_fork` once the top table is there: the child, if there is one, is the
last address space.  The error paths before the `task_mm_t` is there call `vmm_free_user`, which
knows no VMAs. -/
def forkMm (w : World) (i : ℕ) (sp : AddrSpace) : Bool × World :=
  let (ok, c) := cloneLoop sp.mm.vmas sp.pt.entries ⟨w, sp.pt, ∅⟩
  let w := c.world.setSpace i { sp with pt := c.src }
  if !ok then (false, freeEntries (fun _ => false) c.dst w)
  else
    match mmClone w.kmalloc sp.mm with
    | (none, ks) => (false, freeEntries (fun _ => false) c.dst { w with kmalloc := ks })
    | (some mm, ks) =>
      -- `task_mm_alloc` and `task_files_alloc`
      match ks.next with
      | (false, ks) => (false, freeEntries (fun _ => false) c.dst { w with kmalloc := ks })
      | (true, ks) =>
        match ks.next with
        | (false, ks) => (false, freeEntries (mmioPage mm.vmas) c.dst { w with kmalloc := ks })
        | (true, ks) => (true, { w with kmalloc := ks, spaces := w.spaces ++ [⟨mm, c.dst⟩] })

/-- `task_fork`: the `task_t` and the top table, then the memory. -/
def fork (w : World) (i : ℕ) : Bool × World :=
  match w.spaces[i]? with
  | none => (false, w)
  | some sp =>
    match w.kmalloc.next with
    | (false, ks) => (false, { w with kmalloc := ks })
    | (true, ks) =>
      match w.tables.next with
      | (false, ts) => (false, { w with kmalloc := ks, tables := ts })
      | (true, ts) => forkMm { w with kmalloc := ks, tables := ts } i sp

/-- **What fork can end with**: the entries of the child are given back, without its VMAs or with
them, or it becomes the last address space. -/
lemma forkMm_cases (w : World) (i : ℕ) (sp : AddrSpace)
    (hord : IntervalList.Ordered start stop sp.mm.vmas) :
    ∃ ok c ks w₁, cloneLoop sp.mm.vmas sp.pt.entries ⟨w, sp.pt, ∅⟩ = (ok, c) ∧
      w₁ = { c.world.setSpace i { sp with pt := c.src } with kmalloc := ks } ∧
      (w.forkMm i sp = (false, freeEntries (fun _ => false) c.dst w₁) ∨
        w.forkMm i sp = (false, freeEntries (mmioPage (sp.mm.vmas.map copyVma)) c.dst w₁) ∨
        ok = true ∧ w.forkMm i sp = (true, { w₁ with
          spaces := w₁.spaces ++ [⟨{ sp.mm with vmas := sp.mm.vmas.map copyVma }, c.dst⟩] })) := by
  rw [forkMm]
  cases cloneLoop sp.mm.vmas sp.pt.entries ⟨w, sp.pt, ∅⟩ with
  | mk ok c =>
    cases ok with
    | false => exact ⟨false, c, _, _, rfl, rfl, .inl rfl⟩
    | true =>
      dsimp only [Bool.not_true, Bool.false_eq_true, if_false]
      cases hmm : mmClone (c.world.setSpace i { sp with pt := c.src }).kmalloc sp.mm with
      | mk o ks =>
        cases o with
        | none => exact ⟨true, c, ks, _, rfl, rfl, .inl rfl⟩
        | some mm =>
          obtain rfl := mmClone_eq hord hmm
          dsimp only
          cases ks.next with
          | mk ok ks1 =>
            cases ok with
            | false => exact ⟨true, c, ks1, _, rfl, rfl, .inl rfl⟩
            | true =>
              dsimp only
              cases ks1.next with
              | mk ok ks2 =>
                cases ok with
                | false => exact ⟨true, c, ks2, _, rfl, rfl, .inr (.inl rfl)⟩
                | true => exact ⟨true, c, ks2, _, rfl, rfl, .inr (.inr ⟨rfl, rfl⟩)⟩

lemma fork_cases (w : World) (i : ℕ) : ∃ ks ts,
    w.fork i = (false, { w with kmalloc := ks, tables := ts }) ∨ ∃ sp, w.spaces[i]? = some sp ∧
      w.fork i = forkMm { w with kmalloc := ks, tables := ts } i sp := by
  rw [fork]
  cases w.spaces[i]? with
  | none => exact ⟨w.kmalloc, w.tables, .inl rfl⟩
  | some sp =>
    dsimp only
    cases w.kmalloc.next with
    | mk ok ks =>
      cases ok with
      | false => exact ⟨ks, w.tables, .inl rfl⟩
      | true =>
        dsimp only
        cases w.tables.next with
        | mk ok ts =>
          cases ok with
          | false => exact ⟨ks, ts, .inl rfl⟩
          | true => exact ⟨ks, ts, .inr ⟨sp, rfl, rfl⟩⟩

/-! ### Unmapping -/

/-- The loop that removes the entries of `k` pages from a page on: the frames to free, which are
those outside device memory, and the entries left. -/
def unmapEntries (vmas : List Vma) : ℕ → ℕ → PteMap → List ℕ × PteMap
  | 0, _, pt => ([], pt)
  | k + 1, n, pt =>
    match pt.lookup n with
    | none => unmapEntries vmas k (n + 1) pt
    | some e =>
      let (freeing, pt) := unmapEntries vmas k (n + 1) (pt.erase n)
      (if mmioPage vmas n then freeing else e.frame :: freeing, pt)

/-- `sys_munmap` on the user half: `mm_unmap_range_flush_free`, then `mm_vma_remove`. -/
def munmap (w : World) (i addr len : ℕ) : World :=
  match w.spaces[i]? with
  | none => w
  | some sp =>
    if addr = 0 ∨ ¬ PageAligned addr ∨ len = 0 then w
    else
      let stop := wrap (addr + alignUp len)
      let (freeing, pt) :=
        unmapEntries sp.mm.vmas ((stop - addr) / pageSize) (addr / pageSize) sp.pt
      let (_, vmas, ks) := mmVmaRemove w.kmalloc sp.mm.vmas addr stop
      freeing.foldl World.refDec
        ({ w with kmalloc := ks }.setSpace i ⟨{ sp.mm with vmas := vmas }, pt⟩)

/-- `sys_brk` below the break: every frame of the range is freed, whatever the VMA says. -/
def brkShrink (w : World) (i newBrk : ℕ) : World :=
  match w.spaces[i]? with
  | none => w
  | some sp =>
    if newBrk < sp.mm.brkStart ∨ newBrk ≥ sp.mm.brk then w
    else
      let pages := (sp.mm.brk - newBrk + (pageSize - 1)) / pageSize
      let (freeing, pt) := unmapEntries [] pages (newBrk / pageSize) sp.pt
      let vmas := shrinkHeapVma sp.mm.brkStart newBrk sp.mm.vmas
      freeing.foldl World.refDec (w.setSpace i ⟨{ sp.mm with vmas := vmas, brk := newBrk }, pt⟩)

end World

end Makaos
