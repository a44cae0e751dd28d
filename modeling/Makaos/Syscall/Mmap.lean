import Makaos.Mm.AddressSpace

/-!
Mapping and unmapping memory (`sys_mmap`, `sys_munmap` in `kernel/syscall/syscall.c`).

* `unmapRange`: `mm_unmap_range_flush_free`, which unmaps pages in batches and drops the references
  of their frames after each.
* `Fd`: what the calls read of an open file.
* `sysMmap`, `sysMunmap`: the calls.
-/

namespace Makaos

/-! ### Unmapping -/

/-- `UNMAP_BATCH`. -/
def unmapBatch : ℕ := 64

/-- Drop the references of a batch. -/
def freeBatch (m : PhysMem) (freeing : List ℕ) : PhysMem := freeing.foldl PhysMem.refDec m

/-- The page lies in a VMA of device memory. -/
def isMmio (vmas : List Vma) (p : ℕ) : Bool :=
  match mmVmaFind vmas p with
  | some v => hasFlag v.flags vmaMmio
  | none => false

/-- One page of the inner loop: the frame is noted for freeing unless it is device memory. -/
def unmapPage (vmas : List Vma) (pml4 p : ℕ) (freeing : List ℕ) (m : PhysMem) :
    List ℕ × PhysMem :=
  match vmmPageUnmap m pml4 p with
  | (some f, m) => (if isMmio vmas p then freeing else freeing ++ [f], m)
  | (none, m) => (freeing, m)

/-- `mm_unmap_range_flush_free` for the `n` pages from `p` on, with the frames of the batch so far.
The translations are flushed where a batch ends. -/
def unmapRange (vmas : List Vma) (pml4 : ℕ) : ℕ → ℕ → List ℕ → PhysMem → PhysMem
  | 0, _, freeing, m => freeBatch m freeing
  | n + 1, p, freeing, m =>
    if freeing.length = unmapBatch then
      let (freeing, m) := unmapPage vmas pml4 p [] (freeBatch m freeing)
      unmapRange vmas pml4 n (p + pageSize) freeing m
    else
      let (freeing, m) := unmapPage vmas pml4 p freeing m
      unmapRange vmas pml4 n (p + pageSize) freeing m

/-! ### Open files -/

/-- The `close` operation of a file, by which the calls tell files apart. -/
inductive CloseOp where
  | shmemFdClose
  | drmClose
  | other
  deriving DecidableEq, Repr

/-- What the calls read of an open file. -/
structure Fd where
  file : ℕ
  /-- `path[0] != 0` -/
  hasPath : Bool
  close : CloseOp
  /-- `rights == 0`, or they hold `RIGHT_READ` -/
  mayRead : Bool
  /-- the size of the file its path names, 0 if there is none -/
  size : ℕ
  /-- `ctx` of a shared object, with its number of pages -/
  shm : Option (ℕ × ℕ)
  /-- the dumb buffer at an offset: its first frame and its bytes -/
  dumb : ℕ → Option (ℕ × ℕ)

/-- What a call gets from the rest of the kernel: the open files, the outcomes of `kmalloc`, and the
object that `shmem_create` gives. -/
structure MmapEnv where
  fds : ℕ → Option Fd
  kmalloc : Outcomes
  newShm : Option ℕ

/-- The arguments of `sys_mmap`. -/
structure MmapArgs where
  addr : ℕ
  len : ℕ
  prot : BitVec 64
  flags : BitVec 64
  fd : ℕ
  off : ℕ

namespace MmapArgs

variable (a : MmapArgs)

/-- `prot & PROT_READ`. -/
def protRead : Bool := a.prot &&& 1#64 != 0#64

/-- `prot & PROT_WRITE`. -/
def protWrite : Bool := a.prot &&& 2#64 != 0#64

/-- `prot & PROT_EXEC`. -/
def protExec : Bool := a.prot &&& 4#64 != 0#64

/-- `flags & MAP_SHARED`. -/
def isShared : Bool := a.flags &&& 1#64 != 0#64

/-- `flags & MAP_FIXED`. -/
def isFixed : Bool := a.flags &&& 0x10#64 != 0#64

/-- `flags & MAP_ANONYMOUS`. -/
def isAnon : Bool := a.flags &&& 0x20#64 != 0#64

/-- The descriptor is not -1. -/
def hasFd : Bool := a.fd != 2 ^ 64 - 1

/-- The number of pages, as a `uint32_t`. -/
def npages : ℕ := alignUp a.len / pageSize % 2 ^ 32

/-- The flags of the new VMA. -/
def vmaFlags : BitVec 32 :=
  vmaAnon ||| (if a.protRead then vmaR else 0#32) ||| (if a.protWrite then vmaW else 0#32) |||
    (if a.protExec then vmaX else 0#32) ||| if a.isShared then vmaShared else 0#32

end MmapArgs

/-! ### The calls -/

namespace Space

/-- Unmap a range and remove its VMAs, as `sys_munmap` and `MAP_FIXED` do. -/
def unmap (ks : Outcomes) (s : Space) (addr stop : ℕ) : Outcomes × Space :=
  let m := unmapRange s.mm.vmas s.pml4 ((stop - addr) / pageSize) addr [] s.mem
  let (_, vmas, ks) := mmVmaRemove ks s.mm.vmas addr stop
  (ks, { s with mm := { s.mm with vmas := vmas }, mem := m })

/-- `sys_munmap`. -/
def sysMunmap (ks : Outcomes) (s : Space) (addr len : ℕ) : Except Errno ℕ × Space :=
  if addr = 0 ∨ ¬ PageAligned addr then (.error .EINVAL, s)
  else if len = 0 then (.error .EINVAL, s)
  else (.ok 0, (s.unmap ks addr (wrap (addr + alignUp len))).2)

/-- The address of the new mapping, 0 if there is none; an error for a bad fixed address. -/
def mmapPlace (fuel : ℕ) (s : Space) (a : MmapArgs) (ks : Outcomes) :
    Option (Except Errno ℕ × Outcomes × Space) :=
  let len := alignUp a.len
  let search := (mmVmaFindFree fuel s.mm len).map fun (vaddr, mm) =>
    ((.ok vaddr : Except Errno ℕ), ks, { s with mm := mm })
  if a.isFixed then
    if a.addr = 0 ∨ ¬ PageAligned a.addr then some (.error .EINVAL, ks, s)
    else
      let (ks, s) := s.unmap ks a.addr (wrap (a.addr + len))
      some (.ok a.addr, ks, s)
  else if a.addr ≠ 0 then
    let addr := alignDown a.addr
    if s.mm.vmas.any (·.overlaps addr (wrap (addr + len))) then search
    else some (.ok addr, ks, s)
  else search

/-- Change the first VMA that starts at the address. -/
def attach (s : Space) (vaddr : ℕ) (f : Vma → Vma) : Space :=
  s.setVmas (s.mm.vmas.modify (s.mm.vmas.findIdx fun v => v.start = vaddr) f)

/-- `goto fail_unmap`. -/
def failUnmap (ks : Outcomes) (s : Space) (vaddr stop : ℕ) : Except Errno ℕ × Space :=
  (.error .EINVAL, s.setVmas (mmVmaRemove ks s.mm.vmas vaddr stop).2.1)

/-- The loop that maps a dumb buffer; `false` if a table is missing. -/
def mapDumb (pml4 : ℕ) (flags : BitVec 64) : ℕ → ℕ → ℕ → PhysMem → Bool × PhysMem
  | 0, _, _, m => (true, m)
  | n + 1, vaddr, frame, m =>
    match vmmPageMap m pml4 vaddr frame flags with
    | (false, m) => (false, m)
    | (true, m) => mapDumb pml4 flags n (vaddr + pageSize) (frame + 1) m

/-- The shared mapping of a dumb buffer. -/
def mmapDumb (ks : Outcomes) (s : Space) (a : MmapArgs) (f : Fd) (vaddr stop : ℕ) :
    Except Errno ℕ × Space :=
  match f.dumb a.off with
  | none => s.failUnmap ks vaddr stop
  | some (frame, bytes) =>
    if alignUp a.len > bytes then s.failUnmap ks vaddr stop
    else
      let s := s.setVmas (s.mm.vmas.modify (s.mm.vmas.findIdx (·.covers vaddr)) fun v =>
        { v with flags := v.flags ||| vmaMmio })
      match mapDumb s.pml4 (mmVmaPteFlags a.vmaFlags) a.npages vaddr frame s.mem with
      | (false, m) => { s with mem := m }.failUnmap ks vaddr stop
      | (true, m) => (.ok vaddr, { s with mem := m })

/-- The attachment of a shared object to the new VMA. -/
def mmapShared (env : MmapEnv) (ks : Outcomes) (s : Space) (a : MmapArgs) (vaddr stop : ℕ) :
    Except Errno ℕ × Space :=
  if a.hasFd then
    match env.fds a.fd with
    | none => s.failUnmap ks vaddr stop
    | some f =>
      if f.close = .drmClose then s.mmapDumb ks a f vaddr stop
      else if f.close ≠ .shmemFdClose then s.failUnmap ks vaddr stop
      else
        match f.shm with
        | none => s.failUnmap ks vaddr stop
        | some (shm, npages) =>
          let pgOff := a.off / pageSize % 2 ^ 32
          if (pgOff + a.npages) % 2 ^ 32 > npages then s.failUnmap ks vaddr stop
          else
            (.ok vaddr, s.attach vaddr fun v => { v with shmem := some shm, shmemPgoff := pgOff })
  else
    match env.newShm with
    | none => s.failUnmap ks vaddr stop
    | some shm => (.ok vaddr, s.attach vaddr fun v => { v with shmem := some shm, shmemPgoff := 0 })

/-- The mapping of a regular file. -/
def mmapFile (ks : Outcomes) (s : Space) (a : MmapArgs) (f : Fd) (vaddr stop : ℕ) :
    Except Errno ℕ × Space :=
  if a.protRead ∧ ¬ f.mayRead then (.error .EACCES, s)
  else if a.off > f.size then (.error .EINVAL, s)
  else
    match mmVmaAddFile ks s.mm.vmas vaddr stop (a.vmaFlags &&& ~~~ vmaAnon) f.file a.off
      (min (f.size - a.off) (alignUp a.len)) with
    | (false, vmas, _) => (.error .ENOMEM, s.setVmas vmas)
    | (true, vmas, _) => (.ok vaddr, s.setVmas vmas)

/-- The mapping of memory that no regular file backs. -/
def mmapMemory (env : MmapEnv) (ks : Outcomes) (s : Space) (a : MmapArgs) (shared : Bool)
    (vaddr stop : ℕ) : Except Errno ℕ × Space :=
  match mmVmaAdd ks s.mm.vmas vaddr stop a.vmaFlags with
  | (false, vmas, _) => (.error .ENOMEM, s.setVmas vmas)
  | (true, vmas, ks) =>
    if shared then (s.setVmas vmas).mmapShared env ks a vaddr stop
    else (.ok vaddr, s.setVmas vmas)

/-- The rest of `sys_mmap` once the address is known. -/
def mmapAt (env : MmapEnv) (ks : Outcomes) (s : Space) (a : MmapArgs) (vaddr : ℕ) :
    Except Errno ℕ × Space :=
  let stop := wrap (vaddr + alignUp a.len)
  if a.hasFd then
    match env.fds a.fd with
    | none => (.error .EBADF, s)
    | some f =>
      if f.hasPath then
        if a.isShared ∧ a.protWrite then (.error .EINVAL, s) else s.mmapFile ks a f vaddr stop
      else if a.isShared then s.mmapMemory env ks a true vaddr stop
      -- a private view of a shared object may be mapped read-only
      else if f.close = .shmemFdClose ∧ ¬ a.protWrite then s.mmapMemory env ks a true vaddr stop
      else (.error .EACCES, s)
  else s.mmapMemory env ks a a.isShared vaddr stop

/-- `sys_mmap`; `none` if the search for a gap does not end within `fuel` rounds. -/
def sysMmap (fuel : ℕ) (env : MmapEnv) (s : Space) (a : MmapArgs) :
    Option (Except Errno ℕ × Space) :=
  if a.len = 0 then some (.error .EINVAL, s)
  else if ¬ a.isAnon ∧ ¬ a.hasFd then some (.error .EINVAL, s)
  else if a.isAnon ∧ a.hasFd then some (.error .EINVAL, s)
  else if ¬ PageAligned a.off then some (.error .EINVAL, s)
  else
    match s.mmapPlace fuel a env.kmalloc with
    | none => none
    | some (.error e, _, s) => some (.error e, s)
    | some (.ok vaddr, ks, s) =>
      if vaddr = 0 then some (.error .ENOMEM, s) else some (s.mmapAt env ks a vaddr)

end Space

end Makaos
