import Makaos.Lib.Transition
import Makaos.Mm.Kheap

/-!
The per-CPU page caches of `kernel/mm/pcp.c`, with the arrays they are kept in.

`pcp_alloc` and `pcp_free` run with interrupts disabled from the load of the header to its
`cmpxchg`; such a section, with the sections under `g_pmm_lock` inside it, is one step on its CPU.
`pcp_drain_all` disables nothing: for each CPU it reads the count, clears it, and frees what the
array holds under the lock, in three steps between which other tasks run.
-/

namespace Makaos

open Function
/-- `MAX_CPUS`. -/
def maxCpus : ℕ := 64

/-- `pcp_hdr` and `pcp_pages` of one CPU. -/
structure PcpCpu where
  count : ℕ
  tid : BitVec 64
  pages : ℕ → ℕ

namespace PcpCpu

/-- The header is replaced: the new count and the next `tid`.  Interrupts are disabled, so the
`cmpxchg` compares with the word that was just loaded. -/
def publish (c : PcpCpu) (count : ℕ) : PcpCpu := { c with count := count, tid := c.tid + 1 }

/-- The loop that stores frames at `pcp_pages[cnt++]`. -/
def storePages (pages : ℕ → ℕ) : ℕ → List ℕ → ℕ → ℕ
  | _, [] => pages
  | cnt, p :: l => storePages (update pages cnt p) (cnt + 1) l

/-- `pcp_refill_one`: the last frame of the batch is the result, the others go onto the array from
the end of the batch on, as far as there is space, and what is left back to the buddy allocator. -/
def refillOne (c : PcpCpu) (pmm : Pmm) : Except Scribbled (Option ℕ × Pmm × PcpCpu) :=
  match Kheap.takeBatch pcpRefill pmm with
  | .error e => .error e
  | .ok (batch, pmm) =>
    match batch.getLast? with
    | none => .ok (none, pmm, c)
    | some result =>
      let rest := batch.dropLast.reverse
      let space := pcpDepth - c.count
      let pushed := if rest.length < space then rest.length else space
      let c' := { c with pages := storePages c.pages c.count (rest.take pushed) }
      match (rest.drop pushed).foldlM Kheap.freeForPcp pmm with
      | .error e => .error e
      | .ok pmm => .ok (some result, pmm, c'.publish (c.count + pushed))

/-- `pcp_drain_one`. -/
def drainOne (c : PcpCpu) (pmm : Pmm) (howMany : ℕ) : Except Scribbled (Pmm × PcpCpu) :=
  if howMany = 0 ∨ c.count = 0 then .ok (pmm, c)
  else
    let howMany := if howMany > c.count then c.count else howMany
    let batch := (List.range howMany).map fun i => c.pages (c.count - 1 - i)
    match batch.foldlM Kheap.freeForPcp pmm with
    | .error e => .error e
    | .ok pmm => .ok (pmm, c.publish (c.count - howMany))

/-- A round of the loop of `pcp_alloc`. -/
def alloc (c : PcpCpu) (pmm : Pmm) : Except Scribbled (Option ℕ × Pmm × PcpCpu) :=
  if c.count = 0 then c.refillOne pmm
  else .ok (some (c.pages (c.count - 1)), pmm, c.publish (c.count - 1))

/-- A round of the loop of `pcp_free`; `false` if the array was full and the loop goes on. -/
def free (c : PcpCpu) (pmm : Pmm) (phys : ℕ) : Except Scribbled (Bool × Pmm × PcpCpu) :=
  if c.count ≥ pcpDepth then
    match c.drainOne pmm pcpRefill with
    | .error e => .error e
    | .ok (pmm, c) => .ok (false, pmm, c)
  else
    .ok (true, pmm, { c with pages := update c.pages c.count phys }.publish (c.count + 1))

end PcpCpu

/-- Where a task is in the code, with its local variables. -/
inductive PcpPc where
  /-- in none of the functions -/
  | idle
  /-- in the loop of `pcp_free` -/
  | freeing (phys : ℕ)
  /-- `pcp_drain_all`: about to read the count of a CPU, -/
  | drainRead (i : ℕ)
  /-- to clear it, -/
  | drainClear (i cnt : ℕ)
  /-- to free its frames -/
  | drainFree (i cnt : ℕ)
  deriving DecidableEq, Repr

/-- The page caches, the tasks that use them, and the frames handed out to callers. -/
structure Pcp where
  pmm : Pmm
  /-- `c->self` is set -/
  online : ℕ → Bool
  cpus : ℕ → PcpCpu
  pc : ℕ → PcpPc
  out : Finset ℕ

namespace Pcp

/-- Replace the page cache of a CPU. -/
def setCpu (s : Pcp) (i : ℕ) (c : PcpCpu) : Pcp := { s with cpus := update s.cpus i c }

/-- The task goes on at another place. -/
def goto (s : Pcp) (t : ℕ) (pc : PcpPc) : Pcp := { s with pc := update s.pc t pc }

/-- The CPUs that run tasks. -/
def runs (s : Pcp) (i : ℕ) : Bool := i < maxCpus && s.online i

/-- What can happen next. -/
inductive Action where
  /-- a task that is idle runs `pcp_alloc` on a CPU -/
  | alloc (t i : ℕ)
  /-- a task calls `pcp_free` for a frame that is handed out -/
  | free (t phys : ℕ)
  /-- a round of the loop of `pcp_free` on a CPU -/
  | push (t i : ℕ)
  /-- a task calls `pcp_drain_all` -/
  | drainAll (t : ℕ)
  /-- a task makes its next step in `pcp_drain_all` -/
  | run (t : ℕ)
  deriving DecidableEq, Repr

/-- A step of `pcp_drain_all`. -/
def runDrain (s : Pcp) (t : ℕ) : Option Pcp :=
  match s.pc t with
  | .drainRead i =>
    if i ≥ maxCpus then some (s.goto t .idle)
    else if !s.online i || (s.cpus i).count = 0 then some (s.goto t (.drainRead (i + 1)))
    else some (s.goto t (.drainClear i (s.cpus i).count))
  | .drainClear i cnt => some ((s.setCpu i ((s.cpus i).publish 0)).goto t (.drainFree i cnt))
  | .drainFree i cnt =>
    match ((List.range cnt).map (s.cpus i).pages).foldlM Kheap.freeForPcp s.pmm with
    | .error _ => none
    | .ok pmm => some ({ s with pmm := pmm }.goto t (.drainRead (i + 1)))
  | _ => none

/-- One step of the system. -/
def step (s : Pcp) : Action → Option Pcp
  | .alloc t i =>
    if s.pc t = .idle ∧ s.runs i then
      match (s.cpus i).alloc s.pmm with
      | .error _ => none
      | .ok (none, pmm, c) => some ({ s with pmm := pmm }.setCpu i c)
      | .ok (some p, pmm, c) =>
        some ({ s with pmm := pmm, out := insert p s.out }.setCpu i c)
    else none
  | .free t phys =>
    if s.pc t = .idle ∧ phys ∈ s.out then
      some ({ s with
        pmm := Kheap.refZero s.pmm phys
        out := s.out.erase phys }.goto t (.freeing phys))
    else none
  | .push t i =>
    match s.pc t with
    | .freeing phys =>
      if s.runs i then
        match (s.cpus i).free s.pmm phys with
        | .error _ => none
        | .ok (false, pmm, c) => some ({ s with pmm := pmm }.setCpu i c)
        | .ok (true, pmm, c) => some (({ s with pmm := pmm }.setCpu i c).goto t .idle)
      else none
    | _ => none
  | .drainAll t => if s.pc t = .idle then some (s.goto t (.drainRead 0)) else none
  | .run t => s.runDrain t

/-- The zeroed page caches, over a buddy allocator, with some frames in callers' hands. -/
def init (pmm : Pmm) (online : ℕ → Bool) (pages : ℕ → ℕ → ℕ) (out : Finset ℕ) : Pcp where
  pmm := pmm
  online := online
  cpus := fun i => ⟨0, 0, pages i⟩
  pc := fun _ => .idle
  out := out

end Pcp

end Makaos
