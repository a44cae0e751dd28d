import Mathlib.Tactic

/-!
Bitmaps kept in arrays of 64-bit words: the bit of index `i` is bit `i % 64` of word `i / 64`.

* `test`, `toggle`: the masked read and the masked exclusive or.
* `test_toggle`: a toggle flips its own bit and no other.
-/

namespace WordBitmap

open BitVec Nat Function

/-- The word a bit lives in. -/
def wordIndex (i : ℕ) : ℕ := i >>> 6

/-- The mask that selects a bit inside its word. -/
def bitMask (i : ℕ) : BitVec 64 := 1#64 <<< (i &&& 63)

/-- Read a bit. -/
def test (words : ℕ → BitVec 64) (i : ℕ) : Bool := (words (wordIndex i) &&& bitMask i) != 0#64

/-- Flip a bit. -/
def toggle (words : ℕ → BitVec 64) (i : ℕ) : ℕ → BitVec 64 :=
  update words (wordIndex i) (words (wordIndex i) ^^^ bitMask i)

lemma and_sixtyThree (i : ℕ) : i &&& 63 = i % 64 := and_two_pow_sub_one_eq_mod i 6

lemma bitMask_eq (i : ℕ) : bitMask i = twoPow 64 (i % 64) := by
  rw [bitMask, and_sixtyThree, twoPow]

/-- The masked read is the bit of the word. -/
lemma test_eq_getLsbD (words : ℕ → BitVec 64) (i : ℕ) :
    test words i = (words (i / 64)).getLsbD (i % 64) := by
  have hlt : i % 64 < 64 := mod_lt i (by norm_num)
  have hword : wordIndex i = i / 64 := shiftRight_eq_div_pow i 6
  rw [test, bitMask_eq, and_twoPow, hword]
  cases h : (words (i / 64)).getLsbD (i % 64) with
  | false => simp
  | true =>
    have hne : twoPow 64 (i % 64) ≠ 0#64 := by
      intro h0
      have hbit := congrArg (fun x => x.getLsbD (i % 64)) h0
      simp [hlt] at hbit
    simp [hne]

lemma getLsbD_bitMask {i k : ℕ} (hk : k < 64) : (bitMask i).getLsbD k = decide (i % 64 = k) := by
  rw [bitMask_eq, getLsbD_twoPow]
  simp only [Bool.and_eq_right_iff_imp, decide_eq_true_eq]
  omega

/-- **A toggle** flips its own bit and no other. -/
lemma test_toggle (words : ℕ → BitVec 64) (i j : ℕ) :
    test (toggle words i) j = if j = i then !test words i else test words j := by
  have hj : j % 64 < 64 := mod_lt j (by norm_num)
  have hword : wordIndex i = i / 64 := shiftRight_eq_div_pow i 6
  rw [test_eq_getLsbD, test_eq_getLsbD, test_eq_getLsbD, toggle, hword]
  by_cases hw : j / 64 = i / 64
  · rw [hw, update_self, getLsbD_xor, getLsbD_bitMask hj]
    by_cases hij : j = i
    · subst hij
      simp
    · have hmod : i % 64 ≠ j % 64 := by omega
      simp [hij, hmod]
  · have hij : j ≠ i := fun h => hw (by rw [h])
    rw [update_of_ne hw, if_neg hij]

end WordBitmap
