import Mathlib.Tactic
import Mathlib.Data.BitVec

/-!
Indices that count up in a machine word and wrap around, compared by their signed difference.

* `toInt_ahead`, `toInt_behind`: **the signed difference of two indices is their distance**, wherever
  the wrap-around is, as long as they are closer than half the range.
* `index_inj`: indices closer than the range are told apart.
-/

namespace Makaos.WrapIndex

open BitVec

variable {w : ℕ}
variable {n : ℕ}

/-- The word of index number `n`. -/
def index (w n : ℕ) : BitVec w := BitVec.ofNat w n

lemma index_add (a n : ℕ) : index w (a + n) = index w a + index w n := BitVec.ofNat_add a n

lemma index_succ (a : ℕ) : index w (a + 1) = index w a + 1 := BitVec.ofNat_add a 1

lemma toInt_index (hn : 2 * n < 2 ^ w) : (index w n).toInt = n := by
  have hnat : (index w n).toNat = n := by
    rw [index, BitVec.toNat_ofNat, Nat.mod_eq_of_lt (by omega)]
  rw [toInt_eq_toNat_of_lt (by rw [hnat]; exact hn), hnat]

/-- **An index that is `n` further on.** -/
theorem toInt_ahead (a : ℕ) (hn : 2 * n < 2 ^ w) : (index w (a + n) - index w a).toInt = n := by
  rw [index_add, add_comm, add_sub_cancel, toInt_index hn]

/-- **An index that is `n` behind.** -/
theorem toInt_behind (a : ℕ) (hn : 2 * n < 2 ^ w) : (index w a - index w (a + n)).toInt = -n := by
  have hneg : index w a - index w (a + n) = -index w n := by
    rw [index_add]
    exact sub_add_cancel_left _ _
  have hn' : 2 * (n : ℤ) < (2 ^ w : ℕ) := by exact_mod_cast hn
  rw [hneg, toInt_neg, toInt_index hn]
  exact Int.bmod_eq_of_le (by omega) (by omega)

/-- **Indices closer than the range are told apart.** -/
theorem index_inj {a b : ℕ} (hab : a ≤ b) (hlt : b < a + 2 ^ w) (h : index w a = index w b) :
    a = b := by
  have hmod : b % 2 ^ w = a % 2 ^ w := by
    simpa [index, BitVec.toNat_ofNat] using (congrArg BitVec.toNat h).symm
  have hzero : (b - a) % 2 ^ w = 0 := Nat.sub_mod_eq_zero_of_mod_eq hmod
  rw [Nat.mod_eq_of_lt (by omega)] at hzero
  omega

end Makaos.WrapIndex
