import Makaos.Lib.PinnedSlot
import Makaos.Lib.Transition

/-!
The block cache of `ext2.c`: `bcache_get`, `bcache_put`, `bcache_fill`, `bcache_fill_way` and
`write_block`, one access to shared memory and one disk transfer at a time.

A set has some ways; a way is a slot of `PinnedSlot` with a time of last use. Block numbers are
natural numbers and the tag `BCACHE_INVALID` is `none`. The sector of a block is computed in 32 bits,
so that on a disk of more than 2 TiB two blocks can be one place of it; the model is of a disk where
they are not.

* `bcacheStep`: the steps of the threads. A thread is one call: a processor with two blocks pinned
  counts as two.
* `view`, `view_step`: **each way follows the protocol of `PinnedSlot`**, whatever happens in the
  other ways.
-/

namespace Makaos.Bcache

open Function PinnedSlot
open PinnedSlot (Mode)

/-! ### The state -/

/-- `BCACHE_NSETS` and `BCACHE_WAYS`. -/
structure Cfg where
  nSets : ℕ
  nWays : ℕ

/-- `bcache_set_of`: `blk & (BCACHE_NSETS - 1)`, the number of sets a power of two. -/
def Cfg.setOf (c : Cfg) (blk : ℕ) : ℕ := blk % c.nSets

/-- `bcache_way_t` with the data of the way. -/
structure Way (α : Type*) extends PinnedSlot.Slot ℕ α where
  lastUse : ℕ

/-- Who called `bcache_fill`: a `bcache_get` that missed, or a `write_block`. The numbers are for the
specification: the version a reader must not be older than, and the version that was written. -/
inductive Caller where
  | get (floor : ℕ)
  | write (version : ℕ)
  deriving DecidableEq

/-- Where a thread is in `bcache_fill` and in `bcache_fill_way`. -/
inductive FillPc where
  /-- Compares the tag of way `w` with the block. -/
  | inval (w : ℕ)
  /-- Found it, and takes the tag off. -/
  | invalStore (w : ℕ)
  /-- Looks for a way without tag and pins. -/
  | findEmpty (w : ℕ)
  /-- Looks for the unpinned way that was used least recently. -/
  | findOld (w victim oldest : ℕ)
  | tryLock (v : ℕ)
  /-- The first look at the pins. -/
  | pin1 (v : ℕ)
  | saveTag (v : ℕ)
  | poison (v : ℕ) (old : Option ℕ)
  /-- The second look at the pins. -/
  | pin2 (v : ℕ) (old : Option ℕ)
  | restore (v : ℕ) (old : Option ℕ)
  | copy (v : ℕ)
  | publish (v : ℕ)
  | unlock (v : ℕ)
  deriving DecidableEq

/-- Where a thread is. -/
inductive Pc (α : Type*) where
  | idle
  /-- `bcache_get`: counts itself in at way `w`. -/
  | pinNext (b floor w : ℕ)
  /-- Counted in, compares the tag. -/
  | check (b floor w : ℕ)
  /-- Not its tag: counts itself out. -/
  | unpin (b floor w : ℕ)
  /-- The slow path. -/
  | diskRead (b floor : ℕ)
  /-- Returned with the way pinned; `d` is what the way held then. -/
  | holding (b floor w : ℕ) (d : α)
  /-- Returned with the data in the caller's scratch buffer. -/
  | scratch (b floor : ℕ) (d : α)
  /-- `write_block`. -/
  | diskWrite (b : ℕ) (d : α)
  | fill (b : ℕ) (d : α) (who : Caller) (st : FillPc)
  deriving DecidableEq

/-- The disk, the cache and the threads. `log` and `done` are for the specification only: the
contents every block has had, in order, and the last version of a block whose `write_block` has
returned. -/
structure Sys (ι α : Type*) where
  disk : ℕ → α
  way : ℕ × ℕ → Way α
  clock : ℕ
  pc : ι → Pc α
  log : ℕ → List α
  done : ℕ → ℕ

variable {ι α : Type*} [DecidableEq ι]
variable {b : ℕ} {d : α} {who : Caller} {c : Cfg} {s s' : Sys ι α}

namespace Sys

/-- A thread moves on. -/
def goto (s : Sys ι α) (t : ι) (pc : Pc α) : Sys ι α := { s with pc := update s.pc t pc }

/-- A way changes. -/
def setWay (s : Sys ι α) (k : ℕ × ℕ) (y : Way α) : Sys ι α :=
  { s with way := update s.way k y }

/-- `bcache_fill` returns to its caller. -/
def finish (s : Sys ι α) (t : ι) (b : ℕ) (d : α) : Caller → Sys ι α
  | .get floor => s.goto t (.scratch b floor d)
  | .write version =>
    { s.goto t .idle with done := update s.done b (max (s.done b) version) }

end Sys

/-! ### The steps -/

/-- The steps of `bcache_fill` and of `bcache_fill_way` for block `b` with data `d`. -/
def fillStep (c : Cfg) (s : Sys ι α) (t : ι) (b : ℕ) (d : α) (who : Caller) : FillPc → Sys ι α
  | .inval w =>
    if w < c.nWays then
      if (s.way (c.setOf b, w)).tag = some b then s.goto t (.fill b d who (.invalStore w))
      else s.goto t (.fill b d who (.inval (w + 1)))
    else s.goto t (.fill b d who (.findEmpty 0))
  | .invalStore w =>
    (s.setWay (c.setOf b, w) { s.way (c.setOf b, w) with tag := none }).goto t
      (.fill b d who (.inval (w + 1)))
  | .findEmpty w =>
    if w < c.nWays then
      if (s.way (c.setOf b, w)).tag = none ∧ (s.way (c.setOf b, w)).pin = 0 then
        s.goto t (.fill b d who (.tryLock w))
      else s.goto t (.fill b d who (.findEmpty (w + 1)))
    else s.goto t (.fill b d who (.findOld 0 c.nWays (2 ^ 64 - 1)))
  | .findOld w victim oldest =>
    if w < c.nWays then
      if (s.way (c.setOf b, w)).pin ≠ 0 then s.goto t (.fill b d who (.findOld (w + 1) victim oldest))
      else if (s.way (c.setOf b, w)).lastUse < oldest then
        s.goto t (.fill b d who (.findOld (w + 1) w (s.way (c.setOf b, w)).lastUse))
      else s.goto t (.fill b d who (.findOld (w + 1) victim oldest))
    -- every way is pinned: the update is dropped
    else if c.nWays ≤ victim then s.finish t b d who
    else s.goto t (.fill b d who (.tryLock victim))
  | .tryLock v =>
    if (s.way (c.setOf b, v)).locked then s.finish t b d who
    else
      (s.setWay (c.setOf b, v) { s.way (c.setOf b, v) with locked := true }).goto t
        (.fill b d who (.pin1 v))
  | .pin1 v =>
    if (s.way (c.setOf b, v)).pin ≠ 0 then s.goto t (.fill b d who (.unlock v))
    else s.goto t (.fill b d who (.saveTag v))
  | .saveTag v => s.goto t (.fill b d who (.poison v (s.way (c.setOf b, v)).tag))
  | .poison v old =>
    (s.setWay (c.setOf b, v) { s.way (c.setOf b, v) with tag := none }).goto t
      (.fill b d who (.pin2 v old))
  | .pin2 v old =>
    if (s.way (c.setOf b, v)).pin ≠ 0 then s.goto t (.fill b d who (.restore v old))
    else s.goto t (.fill b d who (.copy v))
  | .restore v old =>
    (s.setWay (c.setOf b, v) { s.way (c.setOf b, v) with tag := old }).goto t
      (.fill b d who (.unlock v))
  | .copy v =>
    (s.setWay (c.setOf b, v) { s.way (c.setOf b, v) with data := d }).goto t
      (.fill b d who (.publish v))
  | .publish v =>
    (s.setWay (c.setOf b, v) { s.way (c.setOf b, v) with tag := some b }).goto t
      (.fill b d who (.unlock v))
  | .unlock v =>
    (s.setWay (c.setOf b, v) { s.way (c.setOf b, v) with locked := false }).finish t b d who

/-- What a thread can do next. -/
inductive Act (ι α : Type*) where
  /-- Calls `bcache_get`. -/
  | get (t : ι) (b : ℕ)
  /-- Calls `write_block`. -/
  | write (t : ι) (b : ℕ) (d : α)
  /-- Calls `bcache_put`. -/
  | put (t : ι)
  /-- The transfer fails, and the call returns with an error. -/
  | fail (t : ι)
  /-- The next step of the call it is in. -/
  | run (t : ι)

/-- The next step of a call. -/
def runStep (c : Cfg) (s : Sys ι α) (t : ι) : Option (Sys ι α) :=
  match s.pc t with
  | .pinNext b floor w =>
    if w < c.nWays then
      some ((s.setWay (c.setOf b, w)
        { s.way (c.setOf b, w) with pin := (s.way (c.setOf b, w)).pin + 1 }).goto t
          (.check b floor w))
    else some (s.goto t (.diskRead b floor))
  | .check b floor w =>
    if (s.way (c.setOf b, w)).tag = some b then
      some { (s.setWay (c.setOf b, w) { s.way (c.setOf b, w) with lastUse := s.clock + 1 }).goto t
        (.holding b floor w (s.way (c.setOf b, w)).data) with clock := s.clock + 1 }
    else some (s.goto t (.unpin b floor w))
  | .unpin b floor w =>
    some ((s.setWay (c.setOf b, w)
      { s.way (c.setOf b, w) with pin := (s.way (c.setOf b, w)).pin - 1 }).goto t
        (.pinNext b floor (w + 1)))
  | .diskRead b floor => some (s.goto t (.fill b (s.disk b) (.get floor) (.inval 0)))
  | .diskWrite b d =>
    some { s.goto t (.fill b d (.write (s.log b).length) (.inval 0)) with
      disk := update s.disk b d
      log := update s.log b (s.log b ++ [d]) }
  | .fill b d who st => some (fillStep c s t b d who st)
  | _ => none

/-- One step of the system. -/
def bcacheStep (c : Cfg) (s : Sys ι α) : Act ι α → Option (Sys ι α)
  | .get t b =>
    match s.pc t with
    | .idle => some (s.goto t (.pinNext b (s.done b) 0))
    | _ => none
  | .write t b d =>
    match s.pc t with
    | .idle => some (s.goto t (.diskWrite b d))
    | _ => none
  | .put t =>
    match s.pc t with
    | .holding b _ w _ =>
      some ((s.setWay (c.setOf b, w)
        { s.way (c.setOf b, w) with pin := (s.way (c.setOf b, w)).pin - 1 }).goto t .idle)
    | .scratch _ _ _ => some (s.goto t .idle)
    | _ => none
  | .fail t =>
    match s.pc t with
    | .diskRead _ _ => some (s.goto t .idle)
    | .diskWrite _ _ => some (s.goto t .idle)
    | _ => none
  | .run t => runStep c s t

/-- `bcache_init`, on a disk with contents `disk`; what is in the data of the ways does not matter. -/
def boot (disk junk : ℕ → α) : Sys ι α where
  disk := disk
  way k := { tag := none, pin := 0, locked := false, data := junk k.1, lastUse := 0 }
  clock := 0
  pc _ := .idle
  log b := [disk b]
  done _ := 0

/-! ### The ways follow the protocol -/

/-- What a thread in `bcache_fill_way` is doing with its way. -/
def FillPc.mode : FillPc → Option (ℕ × Mode ℕ α)
  | .pin1 v => some (v, .locked)
  | .saveTag v => some (v, .locked)
  | .poison v old => some (v, .saved old)
  | .pin2 v old => some (v, .poisoned old)
  | .restore v old => some (v, .poisoned old)
  | .copy v => some (v, .copying)
  | .publish v => some (v, .copying)
  | .unlock v => some (v, .locked)
  | _ => none

/-- The way a thread is busy with, and what it is doing with it. -/
def Pc.busy (c : Cfg) : Pc α → Option ((ℕ × ℕ) × Mode ℕ α)
  | .check b _ w => some ((c.setOf b, w), .pinned)
  | .unpin b _ w => some ((c.setOf b, w), .pinned)
  | .holding b _ w d => some ((c.setOf b, w), .holding b d)
  | .fill b _ _ st => st.mode.map fun vm => ((c.setOf b, vm.1), vm.2)
  | _ => none

/-- What a thread is doing with way `k`. -/
def Pc.modeAt (c : Cfg) (k : ℕ × ℕ) (pc : Pc α) : Mode ℕ α :=
  match pc.busy c with
  | some (k', m) => if k = k' then m else .away
  | none => .away

/-- One way, with what every thread is doing with it. -/
def view (c : Cfg) (s : Sys ι α) (k : ℕ × ℕ) : PinnedSlot.State ι ℕ α where
  slot := (s.way k).toSlot
  mode t := (s.pc t).modeAt c k

section View

variable {t : ι} {k₀ : ℕ × ℕ} {y : Way α} {pc old : Pc α} {m : Mode ℕ α}

lemma modeAt_of_busy (h : pc.busy c = some (k₀, m)) (k : ℕ × ℕ) :
    pc.modeAt c k = if k = k₀ then m else .away := by
  rw [Pc.modeAt, h]

lemma modeAt_of_idle (h : pc.busy c = none) (k : ℕ × ℕ) : pc.modeAt c k = .away := by
  rw [Pc.modeAt, h]

/-- A step that leaves the ways alone, of a thread that stays busy with what it was busy with. -/
lemma view_same (k : ℕ × ℕ) (hold : s.pc t = old) (hway : s'.way = s.way := by rfl)
    (hpc : s'.pc = update s.pc t pc := by rfl) (hbusy : pc.busy c = old.busy c := by rfl) :
    view c s' k = view c s k := by
  have hmode : ∀ u, (s'.pc u).modeAt c k = (s.pc u).modeAt c k := by
    intro u
    by_cases hu : u = t
    · rw [hpc, hu, update_self, hold, Pc.modeAt, Pc.modeAt, hbusy]
    · rw [hpc, update_of_ne hu]
  simp only [view, hway, hmode]

/-- A step on one way is a step of that way's protocol and none of the others'. -/
lemma view_step_at (k : ℕ × ℕ) (hway : s'.way = update s.way k₀ y) (hpc : s'.pc = update s.pc t pc)
    (hold : ∀ k, k ≠ k₀ → (s.pc t).modeAt c k = .away) (hnew : ∀ k, k ≠ k₀ → pc.modeAt c k = .away)
    (hstep : Step (view c s k₀) ⟨y.toSlot, update (view c s k₀).mode t (pc.modeAt c k₀)⟩) :
    view c s' k = view c s k ∨ Step (view c s k) (view c s' k) := by
  have hmode : ∀ k u, (s'.pc u).modeAt c k =
      update (fun u => (s.pc u).modeAt c k) t (pc.modeAt c k) u := by
    intro k u
    rw [hpc]
    exact apply_update (fun _ p => p.modeAt c k) s.pc t pc u
  by_cases hk : k = k₀
  · right
    subst hk
    have hview : view c s' k = ⟨y.toSlot, update (view c s k).mode t (pc.modeAt c k)⟩ := by
      simp only [view, hway, update_self, State.mk.injEq, true_and]
      exact funext (hmode k)
    rwa [hview]
  · left
    simp only [view, hway, update_of_ne hk, State.mk.injEq, true_and]
    funext u
    rw [hmode, hnew k hk]
    by_cases hu : u = t
    · rw [hu, update_self, hold k hk]
    · rw [update_of_ne hu]

/-- The same, for a thread busy with that way before the step, or with none, and so after it. -/
lemma view_step_busy {m' : Mode ℕ α} (k : ℕ × ℕ) (hat : s.pc t = old)
    (hstep : (view c s k₀).mode t = m → Step (view c s k₀)
      ⟨y.toSlot, update (view c s k₀).mode t m'⟩)
    (hway : s'.way = update s.way k₀ y := by rfl) (hpc : s'.pc = update s.pc t pc := by rfl)
    (hold : old.busy c = some (k₀, m) ∨ m = .away ∧ old.busy c = none := by
      first | exact .inl rfl | exact .inr ⟨rfl, rfl⟩)
    (hnew : pc.busy c = some (k₀, m') ∨ m' = .away ∧ pc.busy c = none := by
      first | exact .inl rfl | exact .inr ⟨rfl, rfl⟩) :
    view c s' k = view c s k ∨ Step (view c s k) (view c s' k) := by
  have hmode : ∀ {p : Pc α} {n : Mode ℕ α},
      (p.busy c = some (k₀, n) ∨ n = .away ∧ p.busy c = none) →
        p.modeAt c k₀ = n ∧ ∀ k, k ≠ k₀ → p.modeAt c k = .away := by
    intro p n h
    rcases h with h | ⟨rfl, h⟩
    · exact ⟨by rw [modeAt_of_busy h, if_pos rfl], fun k hk => by rw [modeAt_of_busy h, if_neg hk]⟩
    · exact ⟨modeAt_of_idle h k₀, fun k _ => modeAt_of_idle h k⟩
  rw [← hat] at hold
  refine view_step_at k hway hpc (hmode hold).2 (hmode hnew).2 ?_
  rw [(hmode hnew).1]
  exact hstep (hmode hold).1

lemma view_finish (b : ℕ) (d : α) (who : Caller) (k : ℕ × ℕ) (hidle : (s.pc t).busy c = none) :
    view c (s.finish t b d who) k = view c s k := by
  cases who with
  | get floor | write version => exact view_same k rfl rfl rfl hidle.symm

lemma view_fillStep {st : FillPc} (hpc : s.pc t = .fill b d who st) (k : ℕ × ℕ) :
    view c (fillStep c s t b d who st) k = view c s k ∨
      Step (view c s k) (view c (fillStep c s t b d who st) k) := by
  have hquiet : ∀ {st'}, (st'.mode : Option (ℕ × Mode ℕ α)) = st.mode →
      view c (s.goto t (.fill b d who st')) k = view c s k := by
    intro st' h
    refine view_same k hpc rfl rfl ?_
    rw [Pc.busy, Pc.busy, h]
  cases st with
  | inval w | findEmpty w | pin1 v =>
    simp only [fillStep]
    split_ifs <;> exact .inl (hquiet rfl)
  | invalStore w =>
    refine view_step_busy k hpc (m := .away) fun hm => ?_
    rw [← hm, update_eq_self]
    exact .clear
  | findOld w victim oldest =>
    have hidle : (s.pc t).busy c = none := by rw [hpc]; rfl
    simp only [fillStep]
    split_ifs <;> first | exact .inl (hquiet rfl) | exact .inl (view_finish b d who k hidle)
  | tryLock v =>
    have hidle : (s.pc t).busy c = none := by rw [hpc]; rfl
    simp only [fillStep]
    split_ifs with hlock
    · exact .inl (view_finish b d who k hidle)
    · refine view_step_busy k hpc (m := .away) fun hm => ?_
      exact .lock t hm (by simpa [view] using hlock)
  | saveTag v =>
    refine view_step_busy k hpc (m := .locked) (y := s.way (c.setOf b, v)) (fun hm => ?_)
      (update_eq_self _ _).symm
    exact .save t hm
  | poison v old =>
    refine view_step_busy k hpc (m := .saved old) fun hm => ?_
    exact .poison t old hm
  | pin2 v old =>
    simp only [fillStep]
    split_ifs with hpin
    · exact .inl (hquiet rfl)
    · refine view_step_busy k hpc (m := .poisoned old) (y := s.way (c.setOf b, v)) (fun hm => ?_)
        (update_eq_self _ _).symm
      exact .claim t old hm (by simpa [view] using hpin)
  | restore v old =>
    refine view_step_busy k hpc (m := .poisoned old) fun hm => ?_
    exact .restore t old hm
  | copy v =>
    refine view_step_busy k hpc (m := .copying) fun hm => ?_
    rw [← hm, update_eq_self]
    exact .copy t d hm
  | publish v =>
    refine view_step_busy k hpc (m := .copying) fun hm => ?_
    exact .publish t b hm
  | unlock v =>
    have hstep : (view c s (c.setOf b, v)).mode t = .locked → Step (view c s (c.setOf b, v))
        ⟨{ (view c s (c.setOf b, v)).slot with locked := false },
          update (view c s (c.setOf b, v)).mode t .away⟩ := fun hm => .unlock t hm
    cases who with
    | get floor | write version =>
      exact view_step_busy k hpc hstep

lemma view_runStep (hstep : runStep c s t = some s') (k : ℕ × ℕ) :
    view c s' k = view c s k ∨ Step (view c s k) (view c s' k) := by
  cases hpc : s.pc t with
  | pinNext b floor w =>
    simp only [runStep, hpc] at hstep
    split_ifs at hstep with hw
    · cases hstep
      refine view_step_busy k hpc (m := .away) fun hm => ?_
      exact .pin t hm
    · cases hstep
      exact .inl (view_same k hpc)
  | check b floor w =>
    simp only [runStep, hpc] at hstep
    split_ifs at hstep with htag
    · cases hstep
      refine view_step_busy k hpc (m := .pinned) fun hm => ?_
      exact .hit t b hm htag
    · cases hstep
      exact .inl (view_same k hpc)
  | unpin b floor w =>
    simp only [runStep, hpc] at hstep
    cases hstep
    refine view_step_busy k hpc (m := .pinned) fun hm => ?_
    exact .unpin t (by rw [hm]; rfl)
  | diskRead b floor | diskWrite b d =>
    simp only [runStep, hpc] at hstep
    cases hstep
    exact .inl (view_same k hpc)
  | fill b d who st =>
    simp only [runStep, hpc] at hstep
    cases hstep
    exact view_fillStep hpc k
  | _ => simp [runStep, hpc] at hstep

/-- **Each way follows the protocol of a pinned slot.** -/
theorem view_step {a : Act ι α} (hstep : bcacheStep c s a = some s') (k : ℕ × ℕ) :
    view c s' k = view c s k ∨ Step (view c s k) (view c s' k) := by
  cases a with
  | run t => exact view_runStep hstep k
  | get t b | write t b d =>
    simp only [bcacheStep] at hstep
    split at hstep <;> cases hstep
    case h_1 hpc => exact .inl (view_same k hpc)
  | fail t =>
    simp only [bcacheStep] at hstep
    split at hstep <;> cases hstep
    case h_1 hpc | h_2 hpc => exact .inl (view_same k hpc)
  | put t =>
    simp only [bcacheStep] at hstep
    split at hstep <;> cases hstep
    case h_2 hpc => exact .inl (view_same k hpc)
    case h_1 b floor w d hpc =>
      refine view_step_busy k hpc (m := .holding b d) fun hm => ?_
      exact .unpin t (by rw [hm]; rfl)

end View

/-! ### Pinned ways -/

section Pinned

variable [Fintype ι]

/-- The protocol's invariant, for every way. -/
def WaysInv (c : Cfg) (s : Sys ι α) : Prop := ∀ k, PinnedSlot.Inv (view c s k)

omit [DecidableEq ι] in
lemma waysInv_boot (c : Cfg) (disk junk : ℕ → α) : WaysInv c (boot disk junk : Sys ι α) := fun k =>
  { pins := by simp [view, boot, readers, Pc.modeAt, Pc.busy, Mode.pins]
    locked := by simp [view, boot, Pc.modeAt, Pc.busy, Mode.owns]
    owner := by simp [view, boot, Pc.modeAt, Pc.busy, Mode.owns]
    saved := by simp [view, boot, Pc.modeAt, Pc.busy]
    poisoned := by simp [view, boot, Pc.modeAt, Pc.busy]
    copying := by simp [view, boot, Pc.modeAt, Pc.busy]
    held := by simp [view, boot, Pc.modeAt, Pc.busy]
    held_saved := by simp [view, boot, Pc.modeAt, Pc.busy]
    held_copying := by simp [view, boot, Pc.modeAt, Pc.busy] }

lemma WaysInv.step (h : WaysInv c s) {a : Act ι α} (hstep : bcacheStep c s a = some s') :
    WaysInv c s' := by
  intro k
  rcases view_step hstep k with hsame | hmoved
  · rw [hsame]
    exact h k
  · exact (h k).step hmoved

omit [DecidableEq ι] in
/-- **A pinned way keeps its data under the pinner**, and no other block is put into it. -/
lemma WaysInv.pinned {t : ι} (h : WaysInv c s) {floor w : ℕ} (ht : s.pc t = .holding b floor w d) :
    (s.way (c.setOf b, w)).data = d ∧
      ((s.way (c.setOf b, w)).tag = some b ∨ (s.way (c.setOf b, w)).tag = none) := by
  have hmode : (view c s (c.setOf b, w)).mode t = .holding b d := by
    simp only [view, ht]
    rw [modeAt_of_busy rfl, if_pos rfl]
  exact (h (c.setOf b, w)).held hmode

omit [DecidableEq ι] in
lemma WaysInv.copying {t : ι} (h : WaysInv c s) {v : ℕ}
    (ht : s.pc t = .fill b d who (.copy v)) : (s.way (c.setOf b, v)).tag = none := by
  have hmode : (view c s (c.setOf b, v)).mode t = .copying := by
    simp only [view, ht]
    rw [modeAt_of_busy rfl, if_pos rfl]
  exact (h (c.setOf b, v)).copying hmode

end Pinned

end Makaos.Bcache
