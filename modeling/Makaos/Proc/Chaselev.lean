import Makaos.Lib.SeqDeque
import Makaos.Lib.Transition
import Makaos.Lib.WrapIndex

/-!
The work-stealing deque of `chaselev.h`, at the granularity of its loads, stores and
compare-and-swaps. The fences order nothing more in a sequentially consistent memory.

* `Deque`: `top`, `bottom` and the ring of 512 slots.
* `OwnerPc`, `ownerRun`: `chaselev_push` and `chaselev_pop`.
* `ThiefPc`, `thiefRun`: `chaselev_steal`.
* `chaselevStep`: one owner and any number of thieves.
* `Fresh`: `top` does not go all the way around during one steal.
-/

namespace Makaos.Chaselev

open Function
open SeqDeque (Event)

/-- `CHASELEV_CAP`. -/
def cap : ℕ := 512

/-- `CHASELEV_MASK`. -/
def mask : BitVec 64 := 511#64

/-- The slot of an index: `b & CHASELEV_MASK`. -/
def slotOf (i : BitVec 64) : ℕ := (i &&& mask).toNat

/-- The deque; `none` in a slot is `NULL`. For the specification only: `advances`, how often `top` has
been advanced. -/
structure Deque (α : Type*) where
  top : BitVec 64
  bottom : BitVec 64
  slots : ℕ → Option α
  advances : ℕ

/-- The next memory access of `chaselev_push` or `chaselev_pop`. -/
inductive OwnerPc (α : Type*) where
  | pushLoadBottom (v : α)
  | pushLoadTop (v : α) (b : BitVec 64)
  | pushStoreSlot (v : α) (b : BitVec 64)
  | pushStoreBottom (v : α) (b : BitVec 64)
  | popLoadBottom
  | popStoreBottom (b : BitVec 64)
  | popLoadTop (b : BitVec 64)
  | popLoadSlot (b t : BitVec 64)
  | popCas (b t : BitVec 64) (v : Option α)
  /-- `bottom` goes back to `b + 1`, and `v` is returned. -/
  | popRestore (b : BitVec 64) (v : Option α)
  deriving DecidableEq

/-- The element a push will put into the deque. -/
def OwnerPc.pushing {α : Type*} : OwnerPc α → Option α
  | .pushLoadBottom v | .pushLoadTop v _ | .pushStoreSlot v _ | .pushStoreBottom v _ => some v
  | _ => none

/-- The call has made its first memory access. -/
def OwnerPc.begun {α : Type*} : OwnerPc α → Bool
  | .pushLoadBottom _ | .popLoadBottom => false
  | _ => true

/-- What a call of the owner returns. -/
inductive OwnerRet (α : Type*) where
  | pushed (v : α)
  | full (v : α)
  | popped (v : Option α)
  deriving DecidableEq

/-- The next memory access of `chaselev_steal`. For the specification only: `seen`, how often `top`
had been advanced when it was read. -/
inductive ThiefPc (α : Type*) where
  | loadTop
  | loadBottom (t : BitVec 64) (seen : ℕ)
  | loadSlot (t : BitVec 64) (seen : ℕ)
  | cas (t : BitVec 64) (v : Option α) (seen : ℕ)
  deriving DecidableEq

/-- What `chaselev_steal` returns: `NULL`, `CHASELEV_ABORT` or an element. -/
inductive ThiefRet (α : Type*) where
  | empty
  | abort
  | stolen (v : Option α)
  deriving DecidableEq

variable {α ι : Type*}

/-- The slots from `top` up to `bottom`. -/
def Deque.contents (q : Deque α) : List (Option α) :=
  (List.range (q.bottom - q.top).toNat).map fun k => q.slots (slotOf (q.top + BitVec.ofNat 64 k))

/-- A compare-and-swap of `top` that succeeds. -/
def Deque.advance (q : Deque α) (t : BitVec 64) : Deque α :=
  { q with
    top := t + 1
    advances := q.advances + 1 }

/-- The next memory access of the owner's call. -/
def ownerRun (q : Deque α) : OwnerPc α → Deque α × (OwnerPc α ⊕ OwnerRet α)
  | .pushLoadBottom v => (q, .inl (.pushLoadTop v q.bottom))
  | .pushLoadTop v b =>
    if (b - q.top).toInt ≥ cap then (q, .inr (.full v)) else (q, .inl (.pushStoreSlot v b))
  | .pushStoreSlot v b =>
    ({ q with slots := update q.slots (slotOf b) (some v) }, .inl (.pushStoreBottom v b))
  | .pushStoreBottom v b => ({ q with bottom := b + 1 }, .inr (.pushed v))
  | .popLoadBottom => (q, .inl (.popStoreBottom (q.bottom - 1)))
  | .popStoreBottom b => ({ q with bottom := b }, .inl (.popLoadTop b))
  | .popLoadTop b =>
    if (q.top - b).toInt ≤ 0 then (q, .inl (.popLoadSlot b q.top))
    else (q, .inl (.popRestore b none))
  | .popLoadSlot b t =>
    if t = b then (q, .inl (.popCas b t (q.slots (slotOf b))))
    else (q, .inr (.popped (q.slots (slotOf b))))
  | .popCas b t v =>
    -- the last element: a thief may have it already
    if q.top = t then (q.advance t, .inl (.popRestore b v)) else (q, .inl (.popRestore b none))
  | .popRestore b v => ({ q with bottom := b + 1 }, .inr (.popped v))

/-- The next memory access of a thief. -/
def thiefRun (q : Deque α) : ThiefPc α → Deque α × (ThiefPc α ⊕ ThiefRet α)
  | .loadTop => (q, .inl (.loadBottom q.top q.advances))
  | .loadBottom t seen =>
    if (t - q.bottom).toInt ≥ 0 then (q, .inr .empty) else (q, .inl (.loadSlot t seen))
  | .loadSlot t seen => (q, .inl (.cas t (q.slots (slotOf t)) seen))
  | .cas t v _ => if q.top = t then (q.advance t, .inr (.stolen v)) else (q, .inr .abort)

/-! ### One owner and any number of thieves -/

/-- The deque and the calls under way; `log` has what the calls have returned. -/
structure Sys (ι α : Type*) where
  deque : Deque α
  owner : Option (OwnerPc α)
  thief : ι → Option (ThiefPc α)
  log : List (Event α)

/-- A step. -/
inductive Act (ι α : Type*) where
  | push (v : α)
  | pop
  | owner
  | steal (i : ι)
  | thief (i : ι)
  deriving DecidableEq

/-- What a return of the owner shows. -/
def OwnerRet.event : OwnerRet α → Event α
  | .pushed v => .push v
  | .full _ => .full
  | .popped (some v) => .pop v
  | .popped none => .empty

/-- What a return of a thief shows: `NULL` and `CHASELEV_ABORT` show nothing. -/
def ThiefRet.event? : ThiefRet α → Option (Event α)
  | .stolen (some v) => some (.steal v)
  | _ => none

variable [DecidableEq ι]

/-- **All steps.** -/
def chaselevStep (s : Sys ι α) : Act ι α → Option (Sys ι α)
  | .push v => if s.owner.isNone then some { s with owner := some (.pushLoadBottom v) } else none
  | .pop => if s.owner.isNone then some { s with owner := some .popLoadBottom } else none
  | .owner =>
    match s.owner with
    | none => none
    | some p =>
      match ownerRun s.deque p with
      | (q, .inl p') => some { s with deque := q, owner := some p' }
      | (q, .inr r) => some { s with deque := q, owner := none, log := s.log ++ [r.event] }
  | .steal i =>
    if (s.thief i).isNone then some { s with thief := update s.thief i (some .loadTop) }
    else none
  | .thief i =>
    match s.thief i with
    | none => none
    | some p =>
      match thiefRun s.deque p with
      | (q, .inl p') => some { s with deque := q, thief := update s.thief i (some p') }
      | (q, .inr r) =>
        some { s with
          deque := q
          thief := update s.thief i none
          log := s.log ++ r.event?.toList }

/-- An empty deque with nobody at work on it. -/
def init : Sys ι α where
  deque := { top := 0, bottom := 0, slots := fun _ => none, advances := 0 }
  owner := none
  thief _ := none
  log := []

/-- A steal that comes to its compare-and-swap: since it read `top`, the indices have not gone all the
way around. -/
def Fresh (s : Sys ι α) : Act ι α → Prop
  | .thief i =>
    match s.thief i with
    | some (.cas _ _ seen) => s.deque.advances < seen + 2 ^ 64
    | _ => True
  | _ => True

instance (s : Sys ι α) : (a : Act ι α) → Decidable (Fresh s a)
  | .thief i =>
    match h : s.thief i with
    | some (.cas _ _ seen) =>
      decidable_of_iff (s.deque.advances < seen + 2 ^ 64) (by simp [Fresh, h])
    | none | some .loadTop | some (.loadBottom _ _) | some (.loadSlot _ _) =>
      isTrue (by simp [Fresh, h])
  | .push _ | .pop | .owner | .steal _ => isTrue trivial

end Makaos.Chaselev
