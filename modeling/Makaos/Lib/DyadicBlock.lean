import Mathlib.Tactic
import Mathlib.Order.CompletePartialOrder
import Mathlib.Data.Nat.Bitwise

/-!
Dyadic blocks of natural numbers: `⟨o, i⟩` is the interval `[i·2^o, (i+1)·2^o)`.

* `parent`, `buddy`, `left`, `right`: the binary tree the blocks form, and `frames_parent`, the
  one equation the splitting and the merging of blocks rest on.
* `disjoint_of_order_eq`, `frames_subset_of_mem`: distinct blocks of one order are disjoint, and of
  two blocks that meet the smaller one is part of the other.
-/

/-- A dyadic block: the `index`-th interval of length `2^order`. -/
structure DyadicBlock where
  order : ℕ
  index : ℕ
  deriving DecidableEq

namespace DyadicBlock

open Nat

/-- The first number of a block. -/
def first (b : DyadicBlock) : ℕ := b.index * 2 ^ b.order

/-- The first number past a block. -/
def last (b : DyadicBlock) : ℕ := (b.index + 1) * 2 ^ b.order

/-- The numbers a block covers. -/
def frames (b : DyadicBlock) : Set ℕ := Set.Ico b.first b.last

/-- The block of the next order that contains a block. -/
def parent (b : DyadicBlock) : DyadicBlock := ⟨b.order + 1, b.index / 2⟩

/-- The other half of the parent. -/
def buddy (b : DyadicBlock) : DyadicBlock := ⟨b.order, b.index ^^^ 1⟩

/-- The left half of the block `⟨o + 1, i⟩`. -/
def left (o i : ℕ) : DyadicBlock := ⟨o, 2 * i⟩

/-- The right half of the block `⟨o + 1, i⟩`. -/
def right (o i : ℕ) : DyadicBlock := ⟨o, 2 * i + 1⟩

lemma mem_frames {b : DyadicBlock} {f : ℕ} : f ∈ b.frames ↔ f / 2 ^ b.order = b.index := by
  have hpos : 0 < 2 ^ b.order := Nat.two_pow_pos _
  rw [frames, first, last, Set.mem_Ico, Nat.div_eq_iff hpos]
  have hmul : (b.index + 1) * 2 ^ b.order = b.index * 2 ^ b.order + 2 ^ b.order := by ring
  omega

lemma first_mem_frames (b : DyadicBlock) : b.first ∈ b.frames := by
  rw [mem_frames, first, Nat.mul_div_cancel _ (Nat.two_pow_pos _)]

lemma first_lt_last (b : DyadicBlock) : b.first < b.last :=
  Nat.mul_lt_mul_of_pos_right (Nat.lt_succ_self _) (Nat.two_pow_pos _)

lemma last_eq (b : DyadicBlock) : b.last = b.first + 2 ^ b.order := by
  rw [last, first, add_mul, one_mul]

/-! ### Nesting -/

variable {b c : DyadicBlock}

lemma eq_of_mem {f : ℕ} (ho : b.order = c.order) (hb : f ∈ b.frames) (hc : f ∈ c.frames) :
    b = c := by
  rw [mem_frames] at hb hc
  rw [ho, hc] at hb
  cases b; cases c
  simp_all

lemma disjoint_of_order_eq (ho : b.order = c.order) (hne : b ≠ c) : Disjoint b.frames c.frames :=
  Set.disjoint_left.mpr fun _ hb hc => hne (eq_of_mem ho hb hc)

lemma frames_subset_of_mem {f : ℕ} (hb : f ∈ b.frames) (hc : f ∈ c.frames)
    (ho : b.order ≤ c.order) : b.frames ⊆ c.frames := by
  intro x hx
  rw [mem_frames] at *
  rw [← Nat.add_sub_cancel' ho, Nat.pow_add, ← Nat.div_div_eq_div_mul] at hc ⊢
  rw [hx, ← hb, hc]

lemma eq_of_first_eq (ho : b.order = c.order) (hf : b.first = c.first) : b = c :=
  eq_of_mem ho b.first_mem_frames (hf ▸ c.first_mem_frames)

/-! ### Buddies -/

lemma xor_one_eq (n : ℕ) : n ^^^ 1 = if n % 2 = 0 then n + 1 else n - 1 := by
  split_ifs with h
  · exact xor_one_of_even (even_iff.mpr h)
  · exact xor_one_of_odd (odd_iff.mpr (by omega))

@[simp] lemma buddy_order (b : DyadicBlock) : b.buddy.order = b.order := rfl

@[simp] lemma buddy_buddy (b : DyadicBlock) : b.buddy.buddy = b := by
  simp [buddy]

lemma buddy_ne (b : DyadicBlock) : b.buddy ≠ b := by
  intro h
  have hi := congrArg DyadicBlock.index h
  simp only [buddy, xor_one_eq] at hi
  split_ifs at hi <;> omega

lemma buddy_left (o i : ℕ) : (left o i).buddy = right o i := by
  simp only [buddy, left, right, xor_one_eq]
  rw [if_pos (by omega)]

lemma buddy_right (o i : ℕ) : (right o i).buddy = left o i := by
  rw [← buddy_left, buddy_buddy]

/-- Both halves of a pair: a block is the left or the right child of its parent. -/
lemma eq_left_or_right (b : DyadicBlock) :
    b = left b.order (b.index / 2) ∨ b = right b.order (b.index / 2) := by
  rcases mod_two_eq_zero_or_one b.index with h | h
  · left
    cases b; simp only [left, mk.injEq, true_and] at *; omega
  · right
    cases b; simp only [right, mk.injEq, true_and] at *; omega

lemma buddy_index_div_two (b : DyadicBlock) : b.buddy.index / 2 = b.index / 2 := by
  simp only [buddy, xor_one_eq]
  split_ifs <;> omega

/-- **The halves of a block** cover it. -/
lemma frames_halves (o i : ℕ) :
    (⟨o + 1, i⟩ : DyadicBlock).frames = (left o i).frames ∪ (right o i).frames := by
  ext f
  simp only [Set.mem_union, mem_frames, left, right]
  rw [Nat.pow_succ, ← Nat.div_div_eq_div_mul]
  omega

/-- **A block and its buddy** cover their parent. -/
lemma frames_parent (b : DyadicBlock) : b.parent.frames = b.frames ∪ b.buddy.frames := by
  rw [parent, frames_halves]
  rcases eq_left_or_right b with h | h
  · have hb : b.buddy = right b.order (b.index / 2) := by
      conv_lhs => rw [h]
      exact buddy_left _ _
    rw [hb, ← h]
  · have hb : b.buddy = left b.order (b.index / 2) := by
      conv_lhs => rw [h]
      exact buddy_right _ _
    rw [hb, ← h, Set.union_comm]

lemma disjoint_buddy (b : DyadicBlock) : Disjoint b.frames b.buddy.frames :=
  disjoint_of_order_eq rfl b.buddy_ne.symm

lemma parent_last_le {n : ℕ} (hb : b.last ≤ n) (hc : b.buddy.last ≤ n) : b.parent.last ≤ n := by
  have hpos : 0 < 2 ^ b.order := Nat.two_pow_pos _
  simp only [last, buddy, xor_one_eq, parent] at *
  rw [Nat.pow_succ]
  split_ifs at hc with h
  · have hi : (b.index / 2 + 1) * (2 ^ b.order * 2) = (b.index + 1 + 1) * 2 ^ b.order := by
      obtain ⟨k, hk⟩ : ∃ k, b.index = 2 * k := ⟨b.index / 2, by omega⟩
      rw [hk, Nat.mul_div_cancel_left _ (by norm_num)]
      ring
    omega
  · have hi : (b.index / 2 + 1) * (2 ^ b.order * 2) = (b.index + 1) * 2 ^ b.order := by
      obtain ⟨k, hk⟩ : ∃ k, b.index = 2 * k + 1 := ⟨b.index / 2, by omega⟩
      rw [hk, show (2 * k + 1) / 2 = k by omega]
      ring
    omega

lemma left_last_le (o i : ℕ) : (left o i).last ≤ (⟨o + 1, i⟩ : DyadicBlock).last := by
  simp only [last, left, Nat.pow_succ]
  nlinarith [Nat.two_pow_pos o]

lemma right_last (o i : ℕ) : (right o i).last = (⟨o + 1, i⟩ : DyadicBlock).last := by
  simp only [last, right, Nat.pow_succ]
  ring

lemma left_first (o i : ℕ) : (left o i).first = (⟨o + 1, i⟩ : DyadicBlock).first := by
  simp only [first, left, Nat.pow_succ]
  ring

end DyadicBlock
