import Makaos.Lib.Transition

/-!
The life of a pty: `pty_alloc`, `pty_open_master`, `pty_open_slave_by_index` and the two close
callbacks (drivers/tty/pty.c), with `vfs_dup` and `vfs_close`.

* `ptyStep`: the calls, with a book of the records freed.
* `Fresh`, `ptys_good`: **when every file handed out is live and every record is freed once.**
* `slave_revived`: a slave that is opened again after its last close.
-/

namespace Makaos.PtyLife

open Function Transition

inductive Side where
  | master | slave
  deriving DecidableEq

/-- A `pty_t` with its two files.  `slaveFile` tells whether the field `slave_file` is set, which is
then the slave of this pty; `refs` is the `refcount` of a file, 0 if it has been freed. -/
structure Pty where
  masterOpen : Bool
  slaveOpenCount : ℤ
  slaveFile : Bool
  slaveClaimed : Bool
  refs : Side → ℕ

/-- The records by number, those on the list, the next number, the records freed, and whether
`pty_open_slave_by_index` ever returned a file that had been freed. -/
structure Sys where
  pty : ℕ → Pty
  list : List ℕ
  next : ℕ
  frees : List ℕ
  stale : Bool

inductive Act where
  /-- `pty_alloc`; with `park` it is the one of `pty_open_master`. -/
  | alloc (park : Bool)
  | openSlave (index : ℕ)
  | dup (n : ℕ) (side : Side)
  | close (n : ℕ) (side : Side)

namespace Pty

/-- The slave waits for its first open. -/
def parked (p : Pty) : Bool := p.slaveFile && !p.slaveClaimed

/-- The descriptors of a file: all its references but the one of a parked slave. -/
def held (p : Pty) : Side → ℕ
  | .master => p.refs .master
  | .slave => p.refs .slave - p.parked.toNat

/-- The pair that `pty_alloc` makes. -/
def new (park : Bool) : Pty := ⟨true, 1, park, false, fun _ => 1⟩

/-- `pty_slave_close`, up to the release of the record. -/
def slaveClose (p : Pty) : Pty :=
  { p with slaveOpenCount := p.slaveOpenCount - 1, refs := update p.refs .slave 0 }

/-- `pty_master_close`, up to the release of the record. -/
def masterClose (p : Pty) : Pty :=
  let p := if p.parked then { p with slaveFile := false }.slaveClose else p
  { p with masterOpen := false, refs := update p.refs .master 0 }

/-- A descriptor more. -/
def dup (p : Pty) (side : Side) : Pty := { p with refs := update p.refs side (p.refs side + 1) }

/-- `vfs_close`. -/
def close (p : Pty) (side : Side) : Pty :=
  if p.refs side ≠ 1 then { p with refs := update p.refs side (p.refs side - 1) }
  else match side with
    | .master => p.masterClose
    | .slave => p.slaveClose

/-- Both sides are closed. -/
def Done (p : Pty) : Prop := p.slaveOpenCount = 0 ∧ p.masterOpen = false

instance (p : Pty) : Decidable p.Done := inferInstanceAs (Decidable (_ ∧ _))

end Pty

def Sys.setPty (s : Sys) (n : ℕ) (p : Pty) : Sys := { s with pty := update s.pty n p }

/-- The first pty on the list with this `index`, which has 32 bits. -/
def Sys.find (s : Sys) (index : ℕ) : Option ℕ := s.list.find? fun n => n % 2 ^ 32 = index

/-- **All calls**; one that fails is no step. -/
def ptyStep (s : Sys) : Act → Option Sys
  | .alloc park =>
    some { s.setPty s.next (.new park) with list := s.next :: s.list, next := s.next + 1 }
  | .openSlave index =>
    match s.find index with
    | none => none
    | some n =>
      let p := s.pty n
      let q := if p.slaveClaimed then p.dup .slave else { p with slaveClaimed := true }
      if p.slaveFile then some { s.setPty n q with stale := s.stale || p.refs .slave = 0 } else none
  | .dup n side => if (s.pty n).held side = 0 then none else some (s.setPty n ((s.pty n).dup side))
  | .close n side =>
    let p := s.pty n
    if p.held side = 0 then none
    -- `pty_free_locked`
    else if p.refs side = 1 ∧ (p.close side).Done then
      some { s.setPty n (p.close side) with list := s.list.erase n, frees := n :: s.frees }
    else some (s.setPty n (p.close side))

def boot : Sys := ⟨fun _ => ⟨false, 0, false, false, fun _ => 0⟩, [], 0, [], false⟩

/-- A claimed slave is opened again only while it is open. -/
def Fresh (s : Sys) : Act → Prop
  | .openSlave index =>
    ∀ n ∈ s.find index, (s.pty n).slaveClaimed = true → (s.pty n).refs .slave ≠ 0
  | _ => True

instance : DecidableRel Fresh
  | _, .openSlave _ => inferInstanceAs (Decidable (∀ _ ∈ _, _))
  | _, .alloc _ | _, .dup .. | _, .close .. => isTrue trivial

/-- A file of the pty has not been freed. -/
def Pty.Open (p : Pty) : Prop := ∃ side, p.refs side ≠ 0

/-- No freed file has been handed out, the list has the records of which a side is open, and the
others have been freed once. -/
structure Good (s : Sys) : Prop where
  live : s.stale = false
  listed : ∀ n, n ∈ s.list ↔ (s.pty n).Open
  freed : ∀ n, s.frees.count n + s.list.count n = if n < s.next then 1 else 0

/-! ### One pty -/

namespace Pty

/-- The fields of the record agree with the references, and a parked slave has one. -/
structure Ok (p : Pty) : Prop where
  opened : p.masterOpen = decide (p.refs .master ≠ 0)
  count : p.slaveOpenCount = if p.refs .slave = 0 then 0 else 1
  parked : p.parked = true → p.masterOpen = true ∧ p.refs .slave = 1

variable {p : Pty} {side : Side}

lemma refs_ne_zero (hheld : p.held side ≠ 0) : p.refs side ≠ 0 := by
  cases side with
  | master => exact hheld
  | slave => exact fun h => hheld (by rw [held, h, Nat.zero_sub])

lemma Ok.not_parked (h : p.Ok) (hheld : p.held side ≠ 0) (hside : side = .slave) :
    p.parked = false := by
  subst hside
  exact Bool.eq_false_iff.mpr fun hp => hheld (by rw [held, hp, (h.parked hp).2]; rfl)

lemma Ok.done_iff (h : p.Ok) : p.Done ↔ ¬ p.Open := by
  have hopen : p.Open ↔ p.refs .master ≠ 0 ∨ p.refs .slave ≠ 0 :=
    ⟨fun ⟨side, hs⟩ => by cases side <;> simp [hs], fun hs => hs.elim (⟨_, ·⟩) (⟨_, ·⟩)⟩
  rw [Done, hopen, h.count, h.opened]
  by_cases hm : p.refs .master = 0 <;> by_cases hs : p.refs .slave = 0 <;> simp [hm, hs]

lemma Ok.dup (h : p.Ok) (hne : p.refs side ≠ 0) (hp : side = .slave → p.parked = false) :
    (p.dup side).Ok := by
  obtain ⟨ho, hc, hpark⟩ := h
  simp only [Pty.dup]
  cases side <;> constructor <;> grind [Pty.parked, update_apply]

lemma Ok.close (h : p.Ok) (hheld : p.held side ≠ 0) : (p.close side).Ok := by
  have hne := refs_ne_zero hheld
  have hs := h.not_parked hheld
  obtain ⟨ho, hc, hp⟩ := h
  simp only [Pty.close]
  split_ifs with h1
  -- descriptors remain
  · cases side <;> constructor <;> grind [Pty.parked, update_apply]
  · cases side with
    | master =>
      simp only [masterClose, slaveClose]
      split_ifs with hpark <;> constructor <;> grind [Pty.parked, update_apply]
    | slave =>
      simp only [slaveClose]
      constructor <;> grind [Pty.parked, update_apply]

end Pty

/-! ### All ptys -/

structure Inv (s : Sys) : Prop extends Good s where
  ok : ∀ n, (s.pty n).Ok

variable {s s' : Sys} {a : Act} {A : List Act} {n : ℕ} {p : Pty}

lemma Inv.ok_update (h : Inv s) (hp : p.Ok) : ∀ m, (update s.pty n p m).Ok :=
  forall_update_iff s.pty (fun _ p => p.Ok) |>.mpr ⟨hp, fun m _ => h.ok m⟩

lemma Inv.setPty (h : Inv s) (hp : p.Ok) (hopen : p.Open ↔ (s.pty n).Open) :
    Inv (s.setPty n p) := by
  refine ⟨⟨h.live, fun m => (h.listed m).trans ?_, h.freed⟩, h.ok_update hp⟩
  by_cases hm : m = n
  · subst hm
    simp [Sys.setPty, hopen]
  · simp [Sys.setPty, hm]

lemma Inv.openSlave {index : ℕ} (h : Inv s) (hok : Fresh s (.openSlave index))
    (hs : ptyStep s (.openSlave index) = some s') : Inv s' := by
  simp only [ptyStep] at hs
  split at hs
  · nomatch hs
  next n hn =>
    have hlist : (s.pty n).Open := (h.listed n).mp (List.mem_of_find?_eq_some hn)
    obtain ⟨hfile, ⟨⟩⟩ := Option.ite_some_none_eq_some.mp hs
    cases hc : (s.pty n).slaveClaimed
    · have hp := (h.ok n).parked (by rw [Pty.parked, hfile, hc]; rfl)
      have hinv := h.setPty (n := n) (p := { s.pty n with slaveClaimed := true })
        ⟨(h.ok n).opened, (h.ok n).count, by simp [Pty.parked]⟩ Iff.rfl
      exact ⟨⟨by simp [h.live, hp.2], hinv.listed, hinv.freed⟩, hinv.ok⟩
    · have hne := hok n hn hc
      have hinv := h.setPty ((h.ok n).dup hne fun _ => by simp [Pty.parked, hc])
        (iff_of_true ⟨.slave, Nat.succ_ne_zero _⟩ hlist)
      exact ⟨⟨by simp [h.live, hne], hinv.listed, hinv.freed⟩, hinv.ok⟩

lemma Inv.nodup (h : Inv s) : s.list.Nodup := by
  refine List.nodup_iff_count_le_one.mpr fun m => ?_
  have hm := h.freed m
  split_ifs at hm <;> omega

/-- `pty_free_locked`. -/
lemma Inv.free (h : Inv s) (hp : p.Ok) (hn : (s.pty n).Open) (hclosed : ¬ p.Open) :
    Inv { s.setPty n p with list := s.list.erase n, frees := n :: s.frees } := by
  refine ⟨⟨h.live, fun m => ?_, fun m => ?_⟩, h.ok_update hp⟩
  · rw [h.nodup.mem_erase_iff, h.listed]
    by_cases hm : m = n <;> simp [Sys.setPty, hm, hclosed]
  · have hmem : 0 < s.list.count n := List.count_pos_iff.mpr ((h.listed n).mpr hn)
    refine Eq.trans ?_ (h.freed m)
    grind [Sys.setPty]

lemma Inv.close {side : Side} (h : Inv s) (hs : ptyStep s (.close n side) = some s') : Inv s' := by
  obtain ⟨hheld, hs⟩ := Option.ite_none_left_eq_some.mp hs
  have hok := (h.ok n).close hheld
  have hne := Pty.refs_ne_zero hheld
  have hopen : (s.pty n).Open := ⟨side, hne⟩
  split_ifs at hs with hdone <;> cases hs
  · exact h.free hok hopen (hok.done_iff.mp hdone.2)
  · refine h.setPty hok (iff_of_true ?_ hopen)
    by_cases h1 : (s.pty n).refs side = 1
    · exact not_not.mp (mt hok.done_iff.mpr fun hd => hdone ⟨h1, hd⟩)
    · refine ⟨side, ?_⟩
      simp only [Pty.close, if_pos h1, update_self]
      omega

/-- **One call.** -/
lemma Inv.step (h : Inv s) (hok : Fresh s a) (hs : ptyStep s a = some s') : Inv s' := by
  cases a with
  | alloc park =>
    cases hs
    have hnew : (Pty.new park).Ok := by cases park <;> constructor <;> decide
    have hopen : (Pty.new park).Open := ⟨.master, one_ne_zero⟩
    refine ⟨⟨h.live, fun m => ?_, fun m => ?_⟩, h.ok_update hnew⟩
    · by_cases hm : m = s.next
      · simp [Sys.setPty, hm, hopen]
      · simp [Sys.setPty, hm, h.listed]
    · have hf := h.freed m
      grind [Sys.setPty]
  | openSlave index => exact h.openSlave hok hs
  | dup n side =>
    obtain ⟨hheld, ⟨⟩⟩ := Option.ite_none_left_eq_some.mp hs
    have hne := Pty.refs_ne_zero hheld
    have hdup := (h.ok n).dup hne ((h.ok n).not_parked hheld)
    exact h.setPty hdup (iff_of_true ⟨side, by simp [Pty.dup]⟩ ⟨side, hne⟩)
  | close n side => exact h.close hs

/-- **Every run with fresh opens** is good. -/
theorem ptys_good (hrun : exec ptyStep boot A = some s) (hok : Meets ptyStep Fresh boot A) :
    Good s :=
  (exec_invariant Inv.step hrun hok
    ⟨⟨rfl, by simp [boot, Pty.Open], by simp [boot]⟩, fun _ => ⟨rfl, rfl, nofun⟩⟩).toGood

theorem ptys_good_two : ∃ s, exec ptyStep boot [.alloc true, .openSlave 0, .openSlave 0,
    .alloc false, .close 0 .master, .close 0 .slave, .close 1 .slave, .close 0 .slave] = some s ∧
    (s.list = [1] ∧ s.frees = [0]) ∧ Good s :=
  exists_run fun _ hrun _ => ptys_good hrun (by decide)

/-- The slave is opened and closed, and then opened again. -/
theorem slave_revived : ∃ s, exec ptyStep boot
    [.alloc true, .openSlave 0, .close 0 .slave, .openSlave 0] = some s ∧ s.stale = true :=
  ⟨_, rfl, rfl⟩

end Makaos.PtyLife
