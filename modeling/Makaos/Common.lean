import Mathlib.Tactic

/-!
The constants and the address arithmetic of `common.h` that every subsystem shares.

Addresses are natural numbers below `2^64`; `wrap` is the reduction an unsigned 64-bit operation
ends with, written out where a sum can pass `2^64`.
-/

namespace Makaos

open Nat
variable {addr : ℕ}

/-- `PAGE_SHIFT`. -/
def pageShift : ℕ := 12

/-- `PAGE_SIZE`. -/
def pageSize : ℕ := 4096

/-- The reduction of an unsigned 64-bit operation. -/
def wrap (x : ℕ) : ℕ := x % 2 ^ 64

/-- `addr & ~PAGE_MASK`: the page an address lies on. -/
def alignDown (addr : ℕ) : ℕ := addr / pageSize * pageSize

/-- `(addr + PAGE_MASK) & ~PAGE_MASK`, the sum taken in 64 bits. -/
def alignUp (addr : ℕ) : ℕ := alignDown (wrap (addr + (pageSize - 1)))

/-- `addr & PAGE_MASK` is zero. -/
def PageAligned (addr : ℕ) : Prop := addr % pageSize = 0

instance : DecidablePred PageAligned := fun addr => inferInstanceAs (Decidable (addr % pageSize = 0))

lemma pageSize_pos : 0 < pageSize := by decide

lemma two_pow_pageShift : 2 ^ pageShift = pageSize := rfl

lemma shiftRight_pageShift (addr : ℕ) : addr >>> pageShift = addr / pageSize :=
  shiftRight_eq_div_pow addr pageShift

lemma wrap_eq_of_lt {x : ℕ} (h : x < 2 ^ 64) : wrap x = x := mod_eq_of_lt h

lemma wrap_lt (x : ℕ) : wrap x < 2 ^ 64 := mod_lt x (by norm_num)

lemma alignDown_le (addr : ℕ) : alignDown addr ≤ addr := div_mul_le_self addr pageSize

lemma pageAligned_alignDown (addr : ℕ) : PageAligned (alignDown addr) :=
  mul_mod_left _ _

lemma alignDown_eq_self (h : PageAligned addr) : alignDown addr = addr :=
  Nat.div_mul_cancel (Nat.dvd_of_mod_eq_zero h)

lemma pageAligned_alignUp (addr : ℕ) : PageAligned (alignUp addr) := pageAligned_alignDown _

lemma alignDown_shiftRight (addr : ℕ) : alignDown addr >>> pageShift = addr / pageSize := by
  rw [shiftRight_pageShift, alignDown, Nat.mul_div_cancel _ pageSize_pos]

lemma alignUp_eq (h : addr ≤ 2 ^ 64 - pageSize := by simp only [pageSize]; omega) :
    alignUp addr = (addr + (pageSize - 1)) / pageSize * pageSize := by
  rw [alignUp, wrap_eq_of_lt, alignDown]
  simp only [pageSize] at h ⊢
  omega

lemma alignUp_shiftRight (h : addr ≤ 2 ^ 64 - pageSize) :
    alignUp addr >>> pageShift = (addr + (pageSize - 1)) / pageSize := by
  rw [shiftRight_pageShift, alignUp_eq h, Nat.mul_div_cancel _ pageSize_pos]

end Makaos
