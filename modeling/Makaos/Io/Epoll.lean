import Makaos.Lib.Transition

/-!
The watches of an epoll set: `sys_epoll_ctl`, `sys_epoll_wait` and `epoll_close` (syscall/syscall.c),
among the calls that change descriptor tables.  A watch holds the number of a descriptor, and the
wait queue of the file that had it.

* `epollStep`: the calls, with books of the file each watch was made for and of the files polled.
* `Tidy`, `watches_follow`: **when a watch stays with its file.**
* `watch_astray`: a descriptor that is closed and given to another file.
-/

namespace Makaos.Epoll

open Function Transition

/-- `epoll_watch_t`; `wq` is `wq1`, by the file it is in, and `file` the file that was registered. -/
structure Watch where
  fd : ℕ
  wq : Option ℕ
  file : ℕ
  deriving DecidableEq

/-- The descriptor tables, the number of files opened so far and the watches; `polled` has for each
watch that `sys_epoll_wait` looked at its file and the file asked, if there was one. -/
structure Sys (ι : Type*) where
  table : ι → ℕ → Option ℕ
  next : ℕ
  watches : List Watch
  polled : List (ℕ × Option ℕ)

/-- A call of process `p`. -/
inductive Act (ι : Type*) where
  | opens (p : ι) (fd : ℕ)
  /-- `dup` and `dup2`. -/
  | dup (p : ι) (fd newfd : ℕ)
  | close (p : ι) (fd : ℕ)
  /-- `child` is a new process, under the number of one that has ended. -/
  | fork (p child : ι)
  | add (p : ι) (fd : ℕ)
  | del (p : ι) (fd : ℕ)
  | mod (p : ι) (fd : ℕ)
  | wait (p : ι)
  /-- The last descriptor of the set is closed. -/
  | closeSet

variable {ι : Type*} [DecidableEq ι]

def Sys.setFd (s : Sys ι) (p : ι) (fd : ℕ) (f : Option ℕ) : Sys ι :=
  { s with table := update s.table p (update (s.table p) fd f) }

/-- `ep_find`. -/
def Sys.Watched (s : Sys ι) (fd : ℕ) : Prop := ∃ w ∈ s.watches, w.fd = fd

instance (s : Sys ι) (fd : ℕ) : Decidable (s.Watched fd) := List.decidableBEx _ _

/-- **All calls**; one that fails is no step. -/
def epollStep (s : Sys ι) : Act ι → Option (Sys ι)
  | .opens p fd =>
    if s.table p fd = none then some { s.setFd p fd (some s.next) with next := s.next + 1 } else none
  | .dup p fd newfd => if s.table p fd = none then none else some (s.setFd p newfd (s.table p fd))
  | .close p fd => some (s.setFd p fd none)
  | .fork p child => some { s with table := update s.table child (s.table p) }
  | .add p fd =>
    match s.table p fd with
    | none => none
    | some f =>
      if s.Watched fd then none else some { s with watches := ⟨fd, some f, f⟩ :: s.watches }
  | .del _ fd => some { s with watches := s.watches.filter fun w => w.fd ≠ fd }
  | .mod p fd =>
    some { s with
      watches := s.watches.map fun w => if w.fd = fd then { w with wq := s.table p fd } else w }
  | .wait p =>
    some { s with polled := (s.watches.map fun w => (w.file, s.table p w.fd)) ++ s.polled }
  | .closeSet => some { s with watches := [] }

/-- Only `owner` uses the set, and it does not close or replace a descriptor that is watched. -/
def Tidy (owner : ι) (s : Sys ι) : Act ι → Prop
  | .close p fd | .dup p _ fd => p = owner → ¬ s.Watched fd
  | .fork _ child => child ≠ owner
  | .add p _ | .mod p _ | .wait p => p = owner
  | .opens .. | .del .. | .closeSet => True

instance (owner : ι) : DecidableRel (Tidy owner)
  | _, .close .. | _, .dup .. => inferInstanceAs (Decidable (_ → _))
  | _, .fork .. => inferInstanceAs (Decidable (_ ≠ _))
  | _, .add .. | _, .mod .. | _, .wait _ => inferInstanceAs (Decidable (_ = _))
  | _, .opens .. | _, .del .. | _, .closeSet => isTrue trivial

/-- Some descriptor refers to the file. -/
def Sys.Open (s : Sys ι) (f : ℕ) : Prop := ∃ p fd, s.table p fd = some f

/-- Every watch asks the file that was registered, and there is no watch, and no pointer to a wait
queue, of a file that is closed. -/
structure Follows (s : Sys ι) : Prop where
  asked : ∀ r ∈ s.polled, r.2 = some r.1
  watched : ∀ w ∈ s.watches, s.Open w.file
  queue : ∀ w ∈ s.watches, ∀ f ∈ w.wq, s.Open f

/-! ### The invariant -/

variable {owner p : ι} {s s' : Sys ι} {a : Act ι} {A : List (Act ι)} {fd : ℕ} {f : Option ℕ}

structure Inv (owner : ι) (s : Sys ι) : Prop where
  asked : ∀ r ∈ s.polled, r.2 = some r.1
  watch : ∀ w ∈ s.watches, s.table owner w.fd = some w.file ∧ w.wq = some w.file

lemma Inv.setFd (h : Inv owner s) (hfd : p = owner → ¬ s.Watched fd) : Inv owner (s.setFd p fd f) := by
  refine ⟨h.asked, fun w hw => ⟨?_, (h.watch w hw).2⟩⟩
  rw [← (h.watch w hw).1]
  by_cases hp : p = owner
  · subst hp
    have hne : w.fd ≠ fd := fun e => hfd rfl ⟨w, hw, e⟩
    exact (congrFun (update_self ..) w.fd).trans (update_of_ne hne ..)
  · exact congrFun (update_of_ne (Ne.symm hp) ..) w.fd

/-- **One call** of a tidy run. -/
lemma Inv.step (h : Inv owner s) (hok : Tidy owner s a) (hs : epollStep s a = some s') :
    Inv owner s' := by
  cases a with
  | opens p fd =>
    obtain ⟨hfree, rfl⟩ := Option.ite_some_none_eq_some.mp hs
    -- a watched descriptor of the owner is in use
    have hinv : Inv owner (s.setFd p fd (some s.next)) := by
      refine h.setFd ?_
      rintro rfl ⟨w, hw, rfl⟩
      rw [(h.watch w hw).1] at hfree
      nomatch hfree
    exact ⟨hinv.asked, hinv.watch⟩
  | dup p fd newfd =>
    obtain ⟨-, ⟨⟩⟩ := Option.ite_none_left_eq_some.mp hs
    exact h.setFd hok
  | close p fd =>
    cases hs
    exact h.setFd hok
  | fork p child =>
    cases hs
    refine ⟨h.asked, fun w hw => ⟨?_, (h.watch w hw).2⟩⟩
    exact (congrFun (update_of_ne (Ne.symm hok) ..) w.fd).trans (h.watch w hw).1
  | add p fd =>
    obtain rfl : p = owner := hok
    simp only [epollStep] at hs
    split at hs
    · nomatch hs
    next f hf =>
      obtain ⟨-, ⟨⟩⟩ := Option.ite_none_left_eq_some.mp hs
      exact ⟨h.asked, List.forall_mem_cons.mpr ⟨⟨hf, rfl⟩, h.watch⟩⟩
  | del p fd =>
    cases hs
    exact ⟨h.asked, fun w hw => h.watch w (List.mem_of_mem_filter hw)⟩
  | mod p fd =>
    obtain rfl : p = owner := hok
    cases hs
    refine ⟨h.asked, List.forall_mem_map.mpr fun w hw => ?_⟩
    split_ifs with hfd
    · exact ⟨(h.watch w hw).1, hfd ▸ (h.watch w hw).1⟩
    · exact h.watch w hw
  | wait p =>
    obtain rfl : p = owner := hok
    cases hs
    refine ⟨List.forall_mem_append.mpr ⟨List.forall_mem_map.mpr fun w hw => ?_, h.asked⟩, h.watch⟩
    exact (h.watch w hw).1
  | closeSet =>
    cases hs
    exact ⟨h.asked, nofun⟩

/-- **Every watch follows its file** in a tidy run. -/
theorem watches_follow (owner : ι) (hrun : exec epollStep ⟨fun _ _ => none, 0, [], []⟩ A = some s)
    (hok : Meets epollStep (Tidy owner) ⟨fun _ _ => none, 0, [], []⟩ A) : Follows s := by
  have h : Inv owner s := exec_invariant Inv.step hrun hok ⟨nofun, nofun⟩
  refine ⟨h.asked, fun w hw => ⟨owner, w.fd, (h.watch w hw).1⟩, fun w hw f hf => ?_⟩
  obtain rfl : w.file = f := Option.some.inj ((h.watch w hw).2.symm.trans hf)
  exact ⟨owner, w.fd, (h.watch w hw).1⟩

/-- The watch is deleted before its descriptor is closed. -/
theorem watches_follow_del : ∃ s, exec epollStep ⟨fun (_ : Unit) _ => none, 0, [], []⟩
    [.opens () 3, .add () 3, .wait (), .del () 3, .close () 3, .opens () 3] = some s ∧
    s.polled = [(0, some 0)] ∧ Follows s :=
  exists_run fun _ hrun _ => watches_follow () hrun (by decide)

/-- The descriptor is closed and opened again: the watch asks the new file, and still refers to the
wait queue of the old one. -/
theorem watch_astray : ∃ s, exec epollStep ⟨fun (_ : Unit) _ => none, 0, [], []⟩
    [.opens () 3, .add () 3, .close () 3, .opens () 3, .wait ()] = some s ∧
    s.polled = [(0, some 1)] ∧ s.watches = [⟨3, some 0, 0⟩] ∧ ¬ s.Open 0 := by
  refine ⟨_, rfl, rfl, rfl, ?_⟩
  rintro ⟨p, fd, h⟩
  by_cases hfd : fd = 3 <;> simp [Sys.setFd, hfd] at h

end Makaos.Epoll
