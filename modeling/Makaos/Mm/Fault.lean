import Makaos.Mm.UserMem

/-!
The page-fault handler (`isr14_page_fault` in `kernel/mm/vmm.c`) and the prefault of user buffers
(`user_buf_prefault` in `kernel/syscall/syscall.c`).

* `cleanPage`: a page of a file from the page cache or from disk, with read-ahead.
* `resolveFrame`, `faultMissing`: a page that is not present.
* `faultCow`: a write to a page that is present and read-only.
* `Missed`, `Cowed`: what the two faults can end with.
* `prefaultPage`, `userBufPrefault`: the pages the kernel is about to touch.
-/

namespace Makaos

namespace World

/-! ### Pages of files -/

/-- The bytes of a page that a VMA reads from the file. -/
def fillLen (fileLen pgOff : ℕ) : ℕ :=
  if pgOff + pageSize > fileLen then fileLen - pgOff else pageSize

/-- `memset` of a new frame and `pread` of the file into it; `false` if the read fails or gives
nothing. -/
def fillFrame (w : World) (file : File) (fileOff fileLen pgOff f : ℕ) : Bool × World :=
  let w := w.onMem (·.zeroFrame f)
  if pgOff < fileLen then
    match w.reads.next with
    | (false, rs) => (false, { w with reads := rs })
    | (true, rs) =>
      let w := { w with reads := rs }
      let off := wrap (fileOff + pgOff)
      let n := min (fillLen fileLen pgOff) (file.size - off)
      if n = 0 then (false, w) else (true, w.onMem (·.readInto f n fun j => file.data (off + j)))
  else (true, w)

/-- `RA_PAGES`. -/
def raPages : ℕ := 7

/-- The index of a page in its file. -/
def fileIdx (fileOff pgOff : ℕ) : ℕ := wrap (fileOff + pgOff) / pageSize % 2 ^ 32

/-- One round of the read-ahead loop; `false` if there is no memory. -/
def readAheadOne (w : World) (file : File) (fileOff fileLen pgOff ra : ℕ) : Bool × World :=
  let idx := (fileIdx fileOff pgOff + ra) % 2 ^ 32
  match w.pcacheGet file.ino idx with
  -- the page is cached already; the reference is not given back
  | (some _, w) => (true, w)
  | (none, w) =>
    match w.alloc with
    | (none, w) => (false, w)
    | (some f, w) =>
      match w.fillFrame file fileOff fileLen (pgOff + ra * pageSize) f with
      | (false, w) => (true, w.refDec f)
      | (true, w) =>
        match w.pcacheInsert file.ino idx f with
        | (some c, w) => (true, w.refDec c)
        | (none, w) => (true, w.refDec f)

/-- The read-ahead loop over the pages `ra, …, ra + n - 1` behind the one that was read. -/
def readAhead (file : File) (fileOff fileLen pgOff : ℕ) : ℕ → ℕ → World → World
  | 0, _, w => w
  | n + 1, ra, w =>
    if pgOff + ra * pageSize ≥ fileLen then w
    else
      match w.readAheadOne file fileOff fileLen pgOff ra with
      | (false, w) => w
      | (true, w) => readAhead file fileOff fileLen pgOff n (ra + 1) w

/-- A page of a file, with a reference for the caller. -/
def cleanPage (w : World) (file : File) (fileOff fileLen pgOff : ℕ) : Option ℕ × World :=
  let idx := fileIdx fileOff pgOff
  match w.pcacheGet file.ino idx with
  | (some f, w) => (some f, w)
  | (none, w) =>
    match w.alloc with
    | (none, w) => (none, w)
    | (some f, w) =>
      match w.fillFrame file fileOff fileLen pgOff f with
      | (false, w) => (none, w.refDec f)
      | (true, w) =>
        if file.ino ≠ 0 then
          let (c, w) := w.pcacheInsert file.ino idx f
          (some (c.getD f), readAhead file fileOff fileLen pgOff raPages 1 w)
        else (some f, w)

/-! ### The handler -/

/-- What a fault ends with: the instruction is tried again, or the process is killed. -/
inductive FaultResult where
  | resolved
  | killed
  deriving DecidableEq, Repr

/-- The file of a VMA that the handler reads pages from. -/
def vmaFile? (v : Vma) : Option ℕ := if hasFlag v.flags Makaos.vmaFile then v.file else none

/-- The shared object of a VMA, if it is alive. -/
def vmaShmem? (w : World) (v : Vma) : Option ℕ := v.shmem.filter fun o => (w.shmem o).isSome

/-- The frame for a page of a file: the clean one where the VMA is read-only, a copy otherwise. -/
def fileFrame (w : World) (v : Vma) (file : File) (page : ℕ) : Option ℕ × World :=
  match w.cleanPage file v.fileOff v.fileLen (page - v.start) with
  | (none, w) => (none, w)
  | (some clean, w) =>
    if hasFlag v.flags vmaW then
      match w.alloc with
      | (none, w) => (none, w.refDec clean)
      | (some f, w) => (some f, (w.onMem (·.copyFrame f clean)).refDec clean)
    else (some clean, w)

/-- The frame for a page that no file and no object backs. -/
def anonFrame (w : World) : Option ℕ × World :=
  match w.alloc with
  | (none, w) => (none, w)
  | (some f, w) => (some f, w.onMem (·.zeroFrame f))

/-- The frame for a page that is not present. -/
def resolveFrame (w : World) (v : Vma) (page : ℕ) : Option ℕ × World :=
  match vmaFile? v with
  | some file => w.fileFrame v (w.files file) page
  | none =>
    match w.vmaShmem? v with
    | some o => w.shmemGetPage o (((page - v.start) / pageSize % 2 ^ 32 + v.shmemPgoff) % 2 ^ 32)
    | none => w.anonFrame

/-- `vmm_page_map` in an address space; `false` if a table is missing. -/
def mapPage (w : World) (i : ℕ) (sp : AddrSpace) (page f : ℕ) (flags : BitVec 64) : Bool × World :=
  match w.tables.next with
  | (false, ts) => (false, { w with tables := ts })
  | (true, ts) =>
    (true, { w with tables := ts }.setSpace i
      { sp with pt := sp.pt.insert (page / pageSize) ⟨f, flags⟩ })

/-- The installation of the frame, with the check that the page is still missing. -/
def install (w : World) (i : ℕ) (sp : AddrSpace) (v : Vma) (page f : ℕ) : FaultResult × World :=
  if (sp.pt.lookup (page / pageSize)).isSome then (.resolved, w.refDec f)
  else
    match w.mapPage i sp page f (mmVmaPteFlags v.flags) with
    | (false, w) => (.killed, w.refDec f)
    | (true, w) => (.resolved, w)

/-- A fault on a page that is not present. -/
def faultMissing (w : World) (i addr : ℕ) (isWrite isIfetch : Bool) : FaultResult × World :=
  match w.spaces[i]? with
  | none => (.killed, w)
  | some sp =>
    match mmVmaFind sp.mm.vmas addr with
    | none => (.killed, w)
    | some v =>
      if isWrite ∧ ¬ hasFlag v.flags vmaW then (.killed, w)
      else if isIfetch ∧ ¬ hasFlag v.flags vmaX then (.killed, w)
      else
        match w.resolveFrame v (alignDown addr) with
        | (none, w) => (.killed, w)
        | (some f, w) => w.install i sp v (alignDown addr) f

/-- The copy-on-write break of a page that is present and read-only. -/
def cowBreak (w : World) (i : ℕ) (sp : AddrSpace) (v : Vma) (n : ℕ) (e : Pte) :
    FaultResult × World :=
  if e.flags &&& pageWritable != 0#64 then (.resolved, w)
  else if w.mem.refs e.frame > 1 then
    match w.alloc with
    | (none, w) => (.killed, w)
    | (some f, w) =>
      let w := w.onMem (·.copyFrame f e.frame)
      let w := w.setSpace i { sp with pt := sp.pt.insert n ⟨f, mmVmaPteFlags v.flags⟩ }
      (.resolved, w.refDec e.frame)
  else if w.mem.refs e.frame = 1 then
    (.resolved, w.setSpace i
      { sp with pt := sp.pt.insert n { e with flags := e.flags ||| pageWritable } })
  else (.killed, w)

/-- A write fault on a page that is present. -/
def faultCow (w : World) (i addr : ℕ) : FaultResult × World :=
  match w.spaces[i]? with
  | none => (.killed, w)
  | some sp =>
    match mmVmaFind sp.mm.vmas addr with
    | none => (.killed, w)
    | some v =>
      if hasFlag v.flags vmaW ∧ v.shmem = none ∧ ¬ hasFlag v.flags vmaMmio then
        match sp.pt.lookup (addr / pageSize) with
        | none => (.killed, w)
        | some e => w.cowBreak i sp v (addr / pageSize) e
      else (.killed, w)

/-! ### What a fault can do -/

/-- What a fault on a missing page can end with: it is refused, there is no frame, the frame is not
needed or cannot be mapped, or it is mapped. -/
inductive Missed (w : World) (i addr : ℕ) : World → Prop
  | refused : Missed w i addr w
  | noFrame {sp : AddrSpace} {v : Vma} : w.spaces[i]? = some sp →
      mmVmaFind sp.mm.vmas addr = some v → (w.resolveFrame v (alignDown addr)).1 = none →
      Missed w i addr (w.resolveFrame v (alignDown addr)).2
  | dropped {sp : AddrSpace} {v : Vma} {f : ℕ} {ts : Outcomes} : w.spaces[i]? = some sp →
      mmVmaFind sp.mm.vmas addr = some v → (w.resolveFrame v (alignDown addr)).1 = some f →
      Missed w i addr ({ (w.resolveFrame v (alignDown addr)).2 with tables := ts }.refDec f)
  | mapped {sp : AddrSpace} {v : Vma} {f : ℕ} {ts : Outcomes} : w.spaces[i]? = some sp →
      mmVmaFind sp.mm.vmas addr = some v → (w.resolveFrame v (alignDown addr)).1 = some f →
      sp.pt.lookup (addr / pageSize) = none →
      Missed w i addr ({ (w.resolveFrame v (alignDown addr)).2 with tables := ts }.setSpace i
        { sp with pt := sp.pt.insert (addr / pageSize) ⟨f, mmVmaPteFlags v.flags⟩ })

lemma alignDown_div (addr : ℕ) : alignDown addr / pageSize = addr / pageSize := by
  simp only [alignDown, pageSize]
  omega

lemma faultMissing_missed (w : World) (i addr : ℕ) (isWrite isIfetch : Bool) :
    Missed w i addr (w.faultMissing i addr isWrite isIfetch).2 := by
  rw [faultMissing]
  cases hs : w.spaces[i]? with
  | none => exact .refused
  | some sp =>
    dsimp only
    cases hv : mmVmaFind sp.mm.vmas addr with
    | none => exact .refused
    | some v =>
      dsimp only
      split
      · exact .refused
      · split
        · exact .refused
        · cases hr : w.resolveFrame v (alignDown addr) with
          | mk o w1 =>
            have hfst := congrArg Prod.fst hr
            have hsnd := congrArg Prod.snd hr
            dsimp only at hfst hsnd
            subst hsnd
            cases o with
            | none => exact .noFrame hs hv hfst
            | some f =>
              dsimp only
              rw [install, alignDown_div]
              split_ifs with hp
              · exact .dropped hs hv hfst
              · rw [mapPage, alignDown_div]
                cases (w.resolveFrame v (alignDown addr)).2.tables.next with
                | mk ok ts =>
                  cases ok with
                  | false => exact .dropped hs hv hfst
                  | true =>
                    exact .mapped hs hv hfst (Option.not_isSome_iff_eq_none.mp hp)

/-- What a write fault on a present page can end with: nothing to do or refused, no memory, a copy,
or the page made writable for its only owner. -/
inductive Cowed (w : World) (i addr : ℕ) : World → Prop
  | same : Cowed w i addr w
  | noMem : Cowed w i addr { w with mem := { w.mem with picks := w.mem.picks.tail } }
  | copied {sp : AddrSpace} {v : Vma} {e : Pte} {f : ℕ} : w.spaces[i]? = some sp →
      mmVmaFind sp.mm.vmas addr = some v → v.shmem = none → hasFlag v.flags vmaMmio = false →
      sp.pt.lookup (addr / pageSize) = some e → f ∈ w.mem.free → 1 < w.mem.refs e.frame →
      Cowed w i addr ((((w.taking f).onMem (·.copyFrame f e.frame)).setSpace i
        { sp with pt := sp.pt.insert (addr / pageSize) ⟨f, mmVmaPteFlags v.flags⟩ }).refDec e.frame)
  | reused {sp : AddrSpace} {v : Vma} {e : Pte} : w.spaces[i]? = some sp →
      mmVmaFind sp.mm.vmas addr = some v → v.shmem = none → hasFlag v.flags vmaMmio = false →
      sp.pt.lookup (addr / pageSize) = some e → w.mem.refs e.frame = 1 →
      Cowed w i addr (w.setSpace i
        { sp with pt := sp.pt.insert (addr / pageSize) ⟨e.frame, e.flags ||| pageWritable⟩ })

lemma faultCow_cowed (w : World) (i addr : ℕ) : Cowed w i addr (w.faultCow i addr).2 := by
  rw [faultCow]
  cases hs : w.spaces[i]? with
  | none => exact .same
  | some sp =>
    dsimp only
    cases hv : mmVmaFind sp.mm.vmas addr with
    | none => exact .same
    | some v =>
      dsimp only
      split
      case isFalse => exact .same
      case isTrue hcow =>
        obtain ⟨-, hsh, hmm⟩ := hcow
        rw [Bool.not_eq_true] at hmm
        cases hn : sp.pt.lookup (addr / pageSize) with
        | none => exact .same
        | some e =>
          dsimp only
          rw [cowBreak]
          split
          · exact .same
          · split
            next hrc =>
              rcases w.alloc_cases with hal | ⟨f, hf, hal⟩
              · rw [hal]
                exact .noMem
              · rw [hal]
                exact .copied hs hv hsh hmm hn hf hrc
            · split
              next hrc => exact .reused hs hv hsh hmm hn hrc
              · exact .same

/-! ### Prefault -/

/-- One page of `user_buf_prefault`; `false` if there is no memory. -/
def prefaultPage (w : World) (i page : ℕ) : Bool × World :=
  match w.spaces[i]? with
  | none => (true, w)
  | some sp =>
    match mmVmaFind sp.mm.vmas page with
    | none => (true, w)
    | some v =>
      if (sp.pt.lookup (page / pageSize)).isSome then (true, w)
      else
        match w.alloc with
        | (none, w) => (false, w)
        | (some f, w) =>
          let w := w.onMem (·.zeroFrame f)
          match w.mapPage i sp page f (mmVmaPteFlags v.flags) with
          | (false, w) => (true, w.onMem (·.buddyFree f))
          | (true, w) => (true, w)

/-- The loop over the pages. -/
def prefaultLoop (i : ℕ) : ℕ → ℕ → World → World
  | 0, _, w => w
  | n + 1, page, w =>
    match w.prefaultPage i page with
    | (false, w) => w
    | (true, w) => prefaultLoop i n (page + pageSize) w

/-- `user_buf_prefault`. -/
def userBufPrefault (w : World) (i addr len : ℕ) : World :=
  if len = 0 then w
  else
    let page := alignDown addr
    let stop := alignDown (wrap (addr + len + (pageSize - 1)))
    prefaultLoop i ((stop - page) / pageSize) page w

end World

end Makaos
