import Mathlib.Tactic

/-!
A slot that readers use in place and writers replace, without a lock on the readers' side.

A reader counts itself in (`pin`), looks at the tag and uses the data if the tag is the one it wants.
A writer takes the slot's lock, clears the tag and replaces the data only if it then finds no reader
counted in; otherwise it puts the tag back. Anyone may clear the tag at any time.

* `Step`: what one thread can do to the slot.
* `Inv`, `Inv.step`: the invariant of the protocol.
  Its clause `held` is the point: **a reader that found its tag keeps its data**, and no other tag
  is put on the slot while it reads.
-/

namespace Makaos.PinnedSlot

open Function Finset
variable {ι τ α : Type*}

/-- The slot. -/
structure Slot (τ α : Type*) where
  tag : Option τ
  pin : ℕ
  locked : Bool
  data : α

/-- What a thread is doing with the slot. -/
inductive Mode (τ α : Type*) where
  | away
  /-- Counted in, the tag not yet compared, or not the right one. -/
  | pinned
  /-- Counted in, and the tag was `b` and the data `d` when it was compared. -/
  | holding (b : τ) (d : α)
  /-- Owner of the lock, before the tag is saved or with the slot in order again. -/
  | locked
  /-- The tag is saved but still on the slot. -/
  | saved (old : Option τ)
  /-- The tag is off. -/
  | poisoned (old : Option τ)
  /-- No reader was counted in with the tag off: the data may be replaced. -/
  | copying

namespace Mode

/-- The thread is counted in `pin`. -/
def pins : Mode τ α → Bool
  | pinned => true
  | holding _ _ => true
  | _ => false

/-- The thread owns the lock. -/
def owns : Mode τ α → Bool
  | locked => true
  | saved _ => true
  | poisoned _ => true
  | copying => true
  | _ => false

end Mode

/-- The slot and what every thread is doing with it. -/
structure State (ι τ α : Type*) where
  slot : Slot τ α
  mode : ι → Mode τ α

/-- One step of one thread. -/
inductive Step [DecidableEq ι] (s : State ι τ α) : State ι τ α → Prop
  | pin (t : ι) (h : s.mode t = .away) :
      Step s ⟨{ s.slot with pin := s.slot.pin + 1 }, update s.mode t .pinned⟩
  | hit (t : ι) (b : τ) (h : s.mode t = .pinned) (htag : s.slot.tag = some b) :
      Step s ⟨s.slot, update s.mode t (.holding b s.slot.data)⟩
  | unpin (t : ι) (h : (s.mode t).pins = true) :
      Step s ⟨{ s.slot with pin := s.slot.pin - 1 }, update s.mode t .away⟩
  | clear : Step s ⟨{ s.slot with tag := none }, s.mode⟩
  | lock (t : ι) (h : s.mode t = .away) (hfree : s.slot.locked = false) :
      Step s ⟨{ s.slot with locked := true }, update s.mode t .locked⟩
  | unlock (t : ι) (h : s.mode t = .locked) :
      Step s ⟨{ s.slot with locked := false }, update s.mode t .away⟩
  | save (t : ι) (h : s.mode t = .locked) : Step s ⟨s.slot, update s.mode t (.saved s.slot.tag)⟩
  | poison (t : ι) (old : Option τ) (h : s.mode t = .saved old) :
      Step s ⟨{ s.slot with tag := none }, update s.mode t (.poisoned old)⟩
  | restore (t : ι) (old : Option τ) (h : s.mode t = .poisoned old) :
      Step s ⟨{ s.slot with tag := old }, update s.mode t .locked⟩
  | claim (t : ι) (old : Option τ) (h : s.mode t = .poisoned old) (hpin : s.slot.pin = 0) :
      Step s ⟨s.slot, update s.mode t .copying⟩
  | copy (t : ι) (d : α) (h : s.mode t = .copying) : Step s ⟨{ s.slot with data := d }, s.mode⟩
  | publish (t : ι) (b : τ) (h : s.mode t = .copying) :
      Step s ⟨{ s.slot with tag := some b }, update s.mode t .locked⟩

/-! ### The invariant -/

section Count

variable [Fintype ι] [DecidableEq ι] {s : State ι τ α} {t : ι} {m : Mode τ α}

/-- The readers counted in. -/
def readers (mode : ι → Mode τ α) : Finset ι := univ.filter fun t => (mode t).pins = true

omit [DecidableEq ι] in
@[simp] lemma mem_readers {mode : ι → Mode τ α} : t ∈ readers mode ↔ (mode t).pins = true := by
  simp [readers]

lemma readers_enter (hm : m.pins = true) :
    readers (update s.mode t m) = insert t (readers s.mode) := by
  ext u
  by_cases hu : u = t <;> simp [hu, hm]

lemma readers_leave (hm : m.pins = false) :
    readers (update s.mode t m) = (readers s.mode).erase t := by
  ext u
  by_cases hu : u = t <;> simp [hu, hm]

lemma readers_same (hm : m.pins = (s.mode t).pins) :
    readers (update s.mode t m) = readers s.mode := by
  ext u
  by_cases hu : u = t <;> simp [hu, hm]

end Count

/-- The invariant of the protocol. -/
structure Inv [Fintype ι] (s : State ι τ α) : Prop where
  pins : s.slot.pin = (readers s.mode).card
  locked : ∀ {t}, (s.mode t).owns = true → s.slot.locked = true
  owner : ∀ {t u}, (s.mode t).owns = true → (s.mode u).owns = true → t = u
  saved : ∀ {t old}, s.mode t = .saved old → s.slot.tag = old ∨ s.slot.tag = none
  poisoned : ∀ {t old}, s.mode t = .poisoned old → s.slot.tag = none
  copying : ∀ {t}, s.mode t = .copying → s.slot.tag = none
  /-- A reader that found its tag finds its data. -/
  held : ∀ {t b d}, s.mode t = .holding b d →
    s.slot.data = d ∧ (s.slot.tag = some b ∨ s.slot.tag = none)
  /-- The tag a writer may put back is that of every reader at work. -/
  held_saved : ∀ {t u b d old}, s.mode t = .holding b d →
    (s.mode u = .saved old ∨ s.mode u = .poisoned old) → old = some b ∨ old = none
  /-- The data are replaced with no reader at work. -/
  held_copying : ∀ {t u b d}, s.mode t = .holding b d → s.mode u ≠ .copying

section Step

variable [Fintype ι] [DecidableEq ι] {s s' : State ι τ α}

omit [DecidableEq ι] in
lemma Inv.no_reader (h : Inv s) (hpin : s.slot.pin = 0) (t : ι) : (s.mode t).pins = false := by
  have hempty : readers s.mode = ∅ := card_eq_zero.mp (h.pins ▸ hpin)
  have ht : t ∉ readers s.mode := by simp [hempty]
  simpa using ht

lemma Inv.pins_step (h : Inv s) (hstep : Step s s') : s'.slot.pin = (readers s'.mode).card := by
  have hsame : ∀ {t m}, m.pins = (s.mode t).pins →
      s.slot.pin = (readers (update s.mode t m)).card := fun hm => by
    rw [readers_same hm]
    exact h.pins
  cases hstep with
  | pin t ht =>
    have hout : t ∉ readers s.mode := by simp [ht, Mode.pins]
    rw [readers_enter rfl, card_insert_of_notMem hout, ← h.pins]
  | unpin t ht =>
    have hin : t ∈ readers s.mode := by simp [ht]
    rw [readers_leave rfl, card_erase_of_mem hin, ← h.pins]
  | clear | copy t d ht => exact h.pins
  | hit t b ht htag | lock t ht hfree | unlock t ht | save t ht | poison t old ht
  | restore t old ht | claim t old ht hpin | publish t b ht => exact hsame (by rw [ht]; rfl)

lemma Inv.locked_step (h : Inv s) (hstep : Step s s') :
    (∀ {t}, (s'.mode t).owns = true → s'.slot.locked = true) ∧
      ∀ {t u}, (s'.mode t).owns = true → (s'.mode u).owns = true → t = u := by
  have hlocked := @h.locked
  have howner := @h.owner
  cases hstep <;> grind [update_apply, Mode.owns, Mode.pins]

lemma Inv.tag_step (h : Inv s) (hstep : Step s s') :
    (∀ {t old}, s'.mode t = .saved old → s'.slot.tag = old ∨ s'.slot.tag = none) ∧
      (∀ {t old}, s'.mode t = .poisoned old → s'.slot.tag = none) ∧
      ∀ {t}, s'.mode t = .copying → s'.slot.tag = none := by
  have howner := @h.owner
  have hsaved := @h.saved
  have hpoisoned := @h.poisoned
  have hcopying := @h.copying
  cases hstep <;> grind [update_apply, Mode.owns]

lemma Inv.held_step (h : Inv s) (hstep : Step s s') : (∀ {t b d}, s'.mode t = .holding b d →
      s'.slot.data = d ∧ (s'.slot.tag = some b ∨ s'.slot.tag = none)) ∧
    (∀ {t u b d old}, s'.mode t = .holding b d →
      (s'.mode u = .saved old ∨ s'.mode u = .poisoned old) → old = some b ∨ old = none) ∧
    ∀ {t u b d}, s'.mode t = .holding b d → s'.mode u ≠ .copying := by
  have hheld := @h.held
  have hheld_saved := @h.held_saved
  have hheld_copying := @h.held_copying
  cases hstep with
  | hit t b ht htag =>
    -- the tag is on, so the writer at work is none, or one that has saved this tag
    have hsaved := @h.saved
    have hpoisoned := @h.poisoned
    have hcopying := @h.copying
    grind [update_apply]
  | claim t old ht hpin =>
    have hnone := h.no_reader hpin
    grind [update_apply, Mode.pins]
  | restore t old ht =>
    have hback : ∀ {u b d}, s.mode u = .holding b d → old = some b ∨ old = none := fun hu =>
      h.held_saved hu (.inr ht)
    grind [update_apply]
  | _ => grind [update_apply]

/-- **Every step keeps the invariant.** -/
theorem Inv.step (h : Inv s) (hstep : Step s s') : Inv s' :=
  have ⟨hlocked, howner⟩ := h.locked_step hstep
  have ⟨hsaved, hpoisoned, hcopying⟩ := h.tag_step hstep
  have ⟨hheld, hheld_saved, hheld_copying⟩ := h.held_step hstep
  ⟨h.pins_step hstep, hlocked, howner, hsaved, hpoisoned, hcopying, hheld, hheld_saved,
    hheld_copying⟩

end Step

end Makaos.PinnedSlot
