import Mathlib.Tactic

/-!
A memory of words at 64-bit byte addresses, eight bytes apart.

* `store`: words are written one after the other from a base address on.
* `load`: words are read back.
* `load_store`: **what has been stored is loaded.**
-/

namespace WordMemory

open Function

variable {α : Type*} {mem mem' : BitVec 64 → α} {base a : BitVec 64} {ws : List α}

/-- The address of word `k` from a base address on. -/
def wordAt (base : BitVec 64) (k : ℕ) : BitVec 64 := base + BitVec.ofNat 64 (8 * k)

@[simp] lemma wordAt_zero (base : BitVec 64) : wordAt base 0 = base := by simp [wordAt]

lemma wordAt_succ (base : BitVec 64) (k : ℕ) : wordAt (base + 8) k = wordAt base (k + 1) := by
  rw [wordAt, wordAt, Nat.mul_succ, Nat.add_comm, BitVec.ofNat_add, BitVec.add_assoc]
  rfl

/-- Less than `2 ^ 61` words do not come round to the base. -/
lemma wordAt_ne_base {k : ℕ} (h0 : 0 < k) (hk : k < 2 ^ 61) : wordAt base k ≠ base := by
  intro h
  have hnat := congrArg BitVec.toNat h
  have hbase := base.isLt
  rw [wordAt, BitVec.toNat_add, BitVec.toNat_ofNat] at hnat
  omega

/-- Words written one after the other. -/
def store (mem : BitVec 64 → α) (base : BitVec 64) : List α → BitVec 64 → α
  | [] => mem
  | w :: ws => store (update mem base w) (base + 8) ws

/-- Words read one after the other. -/
def load (mem : BitVec 64 → α) (base : BitVec 64) : ℕ → List α
  | 0 => []
  | n + 1 => mem base :: load mem (base + 8) n

lemma store_apply_of_ne (h : ∀ k < ws.length, a ≠ wordAt base k) : store mem base ws a = mem a := by
  induction ws generalizing mem base with
  | nil => rfl
  | cons w ws ih =>
    rw [store, ih]
    · refine update_of_ne ?_ _ _
      simpa using h 0 (by simp)
    · intro k hk
      rw [wordAt_succ]
      exact h (k + 1) (by simpa using hk)

/-- **What has been stored is loaded.** -/
theorem load_store (hlen : ws.length < 2 ^ 61) : load (store mem base ws) base ws.length = ws := by
  induction ws generalizing mem base with
  | nil => rfl
  | cons w ws ih =>
    rw [List.length_cons] at hlen
    rw [List.length_cons, load, store, ih (by omega)]
    refine congrArg (· :: ws) ?_
    rw [store_apply_of_ne]
    · exact update_self ..
    · intro k hk
      rw [wordAt_succ]
      exact (wordAt_ne_base (Nat.succ_pos k) (by omega)).symm

lemma load_congr {n : ℕ} (h : ∀ k < n, mem' (wordAt base k) = mem (wordAt base k)) :
    load mem' base n = load mem base n := by
  induction n generalizing base with
  | zero => rfl
  | succ n ih =>
    rw [load, load, ih]
    · exact congrArg (· :: load mem (base + 8) n) (by simpa using h 0 (Nat.succ_pos n))
    · intro k hk
      rw [wordAt_succ]
      exact h (k + 1) (by omega)

end WordMemory
