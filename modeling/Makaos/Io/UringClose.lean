import Makaos.Lib.Transition

/-!
The end of an io_uring: `io_uring_close_file` against the worker thread, the polling thread, calls
of `io_uring_enter` and `io_uring_register` and the user's accesses to the ring (io/io_uring.c).

* `closeStep`: the steps, those of the close one by one, with the number of times each part of the
  ring was freed and a book of late uses.
* `Deserted`, `closed_once`: **when every part is freed once and not used afterwards.**
* `worker_outlives_ring`: a worker that uses the ring after it was freed.
-/

namespace Makaos.UringClose

open Transition Option

/-- What is freed: the record, the fixed-file table with its files, the backing pages. -/
inductive Part where
  | record | files | pages
  deriving DecidableEq

/-- Where `io_uring_close_file` is: it sets the stop flags, closes the fixed files (which may sleep)
and frees their table, clears the pointer to it, frees the pages and then the record. -/
inductive Stage where
  | opened | stopWorker | stopPoller | files | clear | pages | record | closed
  deriving DecidableEq

/-- A ring. -/
structure Sys where
  fds : ℕ
  /-- The calls of `io_uring_enter` or `io_uring_register` in progress, each with a reference. -/
  entered : ℕ
  /-- The worker threads that have not ended. -/
  workers : ℕ
  /-- The pointer `worker` is set. -/
  hasWorker : Bool
  /-- The pointer `sqp_task` is set. -/
  hasPoller : Bool
  /-- The polling thread has not ended. -/
  poller : Bool
  workerStop : Bool
  sqpStop : Bool
  /-- The pointer `fixed_files` is set. -/
  fixed : Bool
  stage : Stage
  /-- The page tables that map the pages. -/
  mapped : ℕ
  /-- For the specification only: the tables that were registered, how often each part was freed,
  and whether it was used after that or still mapped then. -/
  registered : ℕ
  filesFreed : ℕ
  pagesFreed : ℕ
  recordFreed : ℕ
  late : Bool
  deriving DecidableEq

/-- Whoever uses the ring in the kernel. -/
inductive Party where
  | call | worker | poller

inductive Act where
  | dup | close | enter | leave
  | register | unregister
  /-- A call or the polling thread makes a worker; the test for one is made without a lock. -/
  | spawn
  /-- A worker or a poller that sees its stop flag ends. -/
  | workerExit | pollerExit
  /-- The pages are mapped by one more page table (`fork`), or by one less. -/
  | map | unmap
  | use (p : Party) (part : Part)
  /-- The user reads or writes the mapped pages. -/
  | access
  /-- The next step of `io_uring_close_file`. -/
  | run

namespace Sys

def runs (s : Sys) : Party → Prop
  | .call => s.entered ≠ 0
  | .worker => s.workers ≠ 0
  | .poller => s.poller = true

instance (s : Sys) : DecidablePred s.runs
  | .call | .worker => inferInstanceAs (Decidable (_ ≠ _))
  | .poller => inferInstanceAs (Decidable (_ = _))

/-- The part has been freed. -/
def gone (s : Sys) : Part → Bool
  | .record => s.recordFreed ≠ 0
  | .files => s.stage = .clear
  | .pages => s.pagesFreed ≠ 0

/-- The part is read or written. -/
def touch (s : Sys) (part : Part) : Sys := { s with late := s.late || s.gone part }

/-- `vfs_close`: without a reference left, `io_uring_close_file` begins. -/
def put (s : Sys) : Sys := if s.fds + s.entered = 0 then { s with stage := .stopWorker } else s

/-- The next step of `io_uring_close_file`. -/
def closeRun (s : Sys) : Option Sys :=
  match s.stage with
  | .opened | .closed => none
  | .stopWorker =>
    some { s with workerStop := s.workerStop || s.hasWorker, stage := .stopPoller }
  | .stopPoller => some { s with sqpStop := s.sqpStop || s.hasPoller, stage := .files }
  | .files =>
    if s.fixed then some { s with filesFreed := s.filesFreed + 1, stage := .clear }
    else some { s with stage := .pages }
  | .clear => some { s with fixed := false, stage := .pages }
  | .pages =>
    some { s with
      pagesFreed := s.pagesFreed + 1
      late := s.late || decide (s.mapped ≠ 0)
      stage := .record }
  | .record => some { s with recordFreed := s.recordFreed + 1, stage := .closed }

end Sys

/-- One step. -/
def closeStep (s : Sys) : Act → Option Sys
  | .dup => if s.fds = 0 then none else some { s with fds := s.fds + 1 }
  | .close => if s.fds = 0 then none else some { s with fds := s.fds - 1 }.put
  | .enter => if s.fds = 0 then none else some { s with entered := s.entered + 1 }
  | .leave => if s.entered = 0 then none else some { s with entered := s.entered - 1 }.put
  | .register =>
    if s.entered ≠ 0 ∧ s.fixed = false then
      some { s with fixed := true, registered := s.registered + 1 }
    else none
  | .unregister =>
    -- the table is taken out under the lock, and freed by the call
    if s.entered ≠ 0 ∧ s.fixed = true then
      some { s with fixed := false, filesFreed := s.filesFreed + 1 }
    else none
  | .spawn =>
    if s.entered ≠ 0 ∨ s.poller = true then
      some { s.touch .record with workers := s.workers + 1, hasWorker := true }
    else none
  | .workerExit =>
    if s.workers ≠ 0 ∧ s.workerStop = true then
      some { s.touch .record with workers := s.workers - 1 }
    else none
  | .pollerExit =>
    if s.poller = true ∧ s.sqpStop = true then some { s.touch .record with poller := false }
    else none
  | .map => if s.mapped = 0 then none else some { s with mapped := s.mapped + 1 }
  | .unmap => if s.mapped = 0 then none else some { s with mapped := s.mapped - 1 }
  | .use p part =>
    if s.runs p ∧ (part = .files → s.fixed = true) then some (s.touch part) else none
  | .access => if s.mapped = 0 then none else some (s.touch .pages)
  | .run => s.closeRun

/-- The ring as `io_uring_create` leaves it. -/
def created (sqpoll : Bool) : Sys where
  fds := 1
  entered := 0
  workers := 0
  hasWorker := false
  hasPoller := sqpoll
  poller := sqpoll
  workerStop := false
  sqpStop := false
  fixed := false
  stage := .opened
  mapped := 1
  registered := 0
  filesFreed := 0
  pagesFreed := 0
  recordFreed := 0
  late := false

/-- The helper threads have seen their stop flags by the time the close is about to free something,
and the pages are no longer mapped when they are freed. -/
def Deserted (s : Sys) : Act → Prop
  | .run =>
    (s.stage = .files → s.workers = 0 ∧ s.poller = false) ∧ (s.stage = .pages → s.mapped = 0)
  | _ => True

instance : DecidableRel Deserted
  | _, .run => inferInstanceAs (Decidable (_ ∧ _))
  | _, .dup | _, .close | _, .enter | _, .leave | _, .register | _, .unregister | _, .spawn
  | _, .workerExit | _, .pollerExit | _, .map | _, .unmap | _, .use .. | _, .access =>
    isTrue trivial

variable {s s' : Sys} {a : Act} {A : List Act} {sqpoll : Bool}

/-- The close has begun to free. -/
def Stage.freeing : Stage → Bool
  | .clear | .pages | .record | .closed => true
  | .opened | .stopWorker | .stopPoller | .files => false

/-- Every part is freed at its stage of the close, and then out of everybody's reach. -/
structure Inv (s : Sys) : Prop where
  late : s.late = false
  refs : s.stage = .opened ↔ s.fds + s.entered ≠ 0
  quiet : s.stage.freeing = true → s.workers = 0 ∧ s.poller = false
  files : s.filesFreed + (if s.fixed = true ∧ s.stage ≠ .clear then 1 else 0) = s.registered
  cleared : s.stage = .pages ∨ s.stage = .record ∨ s.stage = .closed → s.fixed = false
  pages : s.pagesFreed = if s.stage = .record ∨ s.stage = .closed then 1 else 0
  unmapped : s.pagesFreed ≠ 0 → s.mapped = 0
  record : s.recordFreed = if s.stage = .closed then 1 else 0

namespace Inv

/-- **Whoever uses the ring is there before anything is freed.** -/
lemma early {p : Party} (h : Inv s) (hrun : s.runs p) : s.stage.freeing = false := by
  by_contra hfree
  have hfree := Bool.eq_true_of_not_eq_false hfree
  obtain ⟨hw, hp⟩ := h.quiet hfree
  cases p with
  | call =>
    have hin : s.entered ≠ 0 := hrun
    rw [h.refs.mpr (by omega)] at hfree
    cases hfree
  | worker => exact hrun hw
  | poller => exact Bool.false_ne_true (hp.symm.trans hrun)

lemma gone_of_early (h : Inv s) (hs : s.stage.freeing = false) (part : Part) :
    s.gone part = false := by
  have hpages := h.pages
  have hrecord := h.record
  cases part <;> cases hst : s.stage <;> simp_all [Sys.gone, Stage.freeing]

lemma touch_eq {part : Part} (hgone : s.gone part = false) : s.touch part = s := by
  rw [Sys.touch, hgone, Bool.or_false]

/-- A reference goes. -/
lemma put {t : Sys} (h : Inv s) (ht : t = { s with fds := t.fds, entered := t.entered })
    (hrefs : t.fds + t.entered + 1 = s.fds + s.entered) : Inv t.put := by
  have hopen : s.stage = .opened := h.refs.mpr (by omega)
  have hfiles := h.files
  have hpages := h.pages
  have hrecord := h.record
  simp only [hopen] at hfiles hpages hrecord
  rw [Sys.put]
  split_ifs with hlast <;> rw [ht]
  · exact ⟨h.late, by simp [hlast], by simp [Stage.freeing], by simpa using hfiles, by simp,
      by simpa using hpages, h.unmapped, by simpa using hrecord⟩
  · exact { h with refs := ⟨fun _ => hlast, fun _ => hopen⟩ }

/-- A step of the close. -/
lemma closeRun (h : Inv s) (hok : Deserted s .run) (hs : s.closeRun = some s') : Inv s' := by
  obtain ⟨hhelpers, hmapped⟩ := hok
  obtain ⟨hlate, hrefs, hquiet, hfiles, hcleared, hpages, hun, hrecord⟩ := h
  rw [Sys.closeRun] at hs
  cases hst : s.stage <;> simp only [hst] at hs
  case opened | closed => cases hs
  case files =>
    obtain ⟨hw, hp⟩ := hhelpers hst
    split_ifs at hs with hfix <;> obtain rfl := some.inj hs
    all_goals constructor <;> simp_all [Stage.freeing]
  all_goals
    obtain rfl := some.inj hs
    constructor <;> simp_all [Stage.freeing]

/-- A helper thread is made, or it ends, by one who is there. -/
lemma helper {p : Party} (h : Inv s) (hrun : s.runs p) {workers : ℕ} {hasWorker poller : Bool} :
    Inv { s.touch .record with workers := workers, hasWorker := hasWorker, poller := poller } := by
  have hearly := h.early hrun
  rw [touch_eq (h.gone_of_early hearly _)]
  exact { h with quiet := by simp [hearly] }

/-- **One step.** -/
lemma step (h : Inv s) (hok : Deserted s a) (hs : closeStep s a = some s') : Inv s' := by
  cases a with
  | dup | enter =>
    obtain ⟨hfds, hs⟩ := ite_none_left_eq_some.mp hs
    obtain rfl := some.inj hs
    have hopen : s.stage = .opened := h.refs.mpr (by omega)
    exact { h with refs := by simp [hopen] }
  | close | leave =>
    obtain ⟨hne, hs⟩ := ite_none_left_eq_some.mp hs
    obtain rfl := some.inj hs
    exact h.put rfl (by dsimp only; omega)
  | register | unregister =>
    obtain ⟨⟨hin, hfix⟩, hs⟩ := ite_some_none_eq_some.mp hs
    obtain rfl := hs
    have hopen : s.stage = .opened := h.refs.mpr (by omega)
    have hfiles := h.files
    refine { h with files := ?_, cleared := ?_ } <;> simp_all
  | spawn =>
    obtain ⟨hcall | hpoller, rfl⟩ := ite_some_none_eq_some.mp hs
    · exact h.helper (p := .call) hcall
    · exact h.helper (p := .poller) hpoller
  | workerExit =>
    obtain ⟨⟨hrun, -⟩, rfl⟩ := ite_some_none_eq_some.mp hs
    exact h.helper (p := .worker) hrun
  | pollerExit =>
    obtain ⟨⟨hrun, -⟩, rfl⟩ := ite_some_none_eq_some.mp hs
    exact h.helper (p := .poller) hrun
  | map | unmap =>
    obtain ⟨hm, hs⟩ := ite_none_left_eq_some.mp hs
    obtain rfl := some.inj hs
    exact { h with unmapped := fun hfreed => absurd (h.unmapped hfreed) hm }
  | use p part =>
    obtain ⟨⟨hrun, -⟩, hs⟩ := ite_some_none_eq_some.mp hs
    rw [touch_eq (h.gone_of_early (h.early hrun) part)] at hs
    obtain rfl := hs
    exact h
  | access =>
    obtain ⟨hm, hs⟩ := ite_none_left_eq_some.mp hs
    have hlive : s.pagesFreed = 0 := not_not.mp fun hfreed => hm (h.unmapped hfreed)
    rw [touch_eq (by simp [Sys.gone, hlive])] at hs
    obtain rfl := some.inj hs
    exact h
  | run => exact h.closeRun hok hs

end Inv

/-- **Every part is freed once and not used afterwards**, in every run in which the helper threads
end before the close frees anything and the pages are unmapped by then. -/
theorem closed_once (hrun : exec closeStep (created sqpoll) A = some s)
    (hok : Meets closeStep Deserted (created sqpoll) A) :
    s.late = false ∧ s.filesFreed ≤ s.registered ∧ s.pagesFreed ≤ 1 ∧ s.recordFreed ≤ 1 ∧
      (s.stage = .closed → s.filesFreed = s.registered ∧ s.pagesFreed = 1 ∧ s.recordFreed = 1) := by
  have h : Inv s := by
    refine exec_invariant Inv.step hrun hok ?_
    constructor <;> simp [created, Stage.freeing]
  have hfiles := h.files
  have hpages := h.pages
  have hrecord := h.record
  refine ⟨h.late, by omega, ?_, ?_, fun hclosed => ?_⟩
  · split_ifs at hpages <;> omega
  · split_ifs at hrecord <;> omega
  · have hfix := h.cleared (.inr (.inr hclosed))
    simp_all

/-- A ring with a poller, a worker and fixed files is closed, and the threads end in time. -/
def orderly : List Act :=
  [.enter, .register, .spawn, .leave, .unmap, .close, .run, .run, .use .worker .files, .workerExit,
    .pollerExit, .run, .run, .run, .run]

theorem closed_once_orderly : ∃ s, exec closeStep (created true) orderly = some s ∧
    s.stage = .closed ∧ s.late = false ∧ s.filesFreed ≤ s.registered ∧ s.pagesFreed ≤ 1 ∧
      s.recordFreed ≤ 1 ∧
      (s.stage = .closed → s.filesFreed = s.registered ∧ s.pagesFreed = 1 ∧ s.recordFreed = 1) :=
  exists_run fun _ hrun _ => closed_once hrun (by decide)

/-- The worker looks at its queue after the ring has been freed. -/
theorem worker_outlives_ring : ∃ s, exec closeStep (created false)
    [.enter, .spawn, .leave, .unmap, .close, .run, .run, .run, .run, .run, .use .worker .record] =
      some s ∧ s.recordFreed = 1 ∧ s.late = true :=
  ⟨_, rfl, by decide⟩

end Makaos.UringClose
