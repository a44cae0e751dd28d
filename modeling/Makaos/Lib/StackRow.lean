import Mathlib.Tactic

/-!
A row of stacks emptied from left to right, each put in front of what was taken before: the order in
which the elements come out.

* `chains p i m`: the stacks `p i, …, p (i + m - 1)` in that order, the last one first.
* `chains_update`: **one stack changes**, and the rest of the order stays.
* `Before`: one element comes out before another.
-/

namespace Makaos.StackRow

open Function List Nat
variable {α : Type*}
variable {p : ℕ → List α} {i m c : ℕ} {x y : α} {l : List α} {r : List α}

/-- The stacks `p i, …, p (i + m - 1)`, the last one first. -/
def chains (p : ℕ → List α) (i : ℕ) : ℕ → List α
  | 0 => []
  | m + 1 => p (i + m) ++ chains p i m

lemma chains_add (p : ℕ → List α) (i m k : ℕ) :
    chains p i (m + k) = chains p (i + m) k ++ chains p i m := by
  induction k with
  | zero => rfl
  | succ k ih => rw [← add_assoc, chains, chains, ih, append_assoc, add_assoc]

lemma chains_succ (p : ℕ → List α) (i m : ℕ) : chains p i (m + 1) = chains p (i + 1) m ++ p i := by
  rw [add_comm, chains_add]
  simp [chains]

lemma mem_chains : x ∈ chains p i m ↔ ∃ c, i ≤ c ∧ c < i + m ∧ x ∈ p c := by
  induction m with
  | zero => simp [chains]; omega
  | succ m ih =>
    rw [chains, mem_append, ih]
    constructor
    · rintro (h | ⟨c, h1, h2, h3⟩)
      · exact ⟨i + m, by omega, by omega, h⟩
      · exact ⟨c, h1, by omega, h3⟩
    · rintro ⟨c, h1, h2, h3⟩
      obtain rfl | hne := eq_or_ne c (i + m)
      · exact .inl h3
      · exact .inr ⟨c, h1, by omega, h3⟩

lemma chains_congr {q : ℕ → List α} (h : ∀ c, i ≤ c → c < i + m → p c = q c) :
    chains p i m = chains q i m := by
  induction m with
  | zero => rfl
  | succ m ih =>
    rw [chains, chains, h (i + m) (by omega) (by omega), ih fun c h1 h2 => h c h1 (by omega)]

lemma chains_update_of_not_mem (h : c < i ∨ i + m ≤ c) : chains (update p c l) i m = chains p i m :=
  chains_congr fun d _ _ => update_of_ne (by omega) _ _

/-- **One stack of the row changes.** -/
lemma chains_update (l : List α) (hi : i ≤ c) (hm : c < i + m) : chains (update p c l) i m
      = chains p (c + 1) (i + m - (c + 1)) ++ l ++ chains p i (c - i) := by
  obtain ⟨a, rfl⟩ := Nat.exists_eq_add_of_le hi
  obtain ⟨b, hb⟩ := Nat.exists_eq_add_of_lt hm
  obtain rfl : m = a + (b + 1) := by omega
  rw [chains_add, chains_succ, chains_update_of_not_mem (.inl (lt_succ_self _)),
    chains_update_of_not_mem (.inr le_rfl), update_self]
  congr 4 <;> omega

lemma chains_eq_append (hi : i ≤ c) (hm : c < i + m) :
    chains p i m = chains p (c + 1) (i + m - (c + 1)) ++ p c ++ chains p i (c - i) := by
  rw [← chains_update (p c) hi hm, update_eq_self]

/-- `x` comes out before `y`. -/
def Before (l : List α) (x y : α) : Prop := [x, y].Sublist l

lemma Before.insert {z : α} (h : Before (l ++ r) x y) : Before (l ++ z :: r) x y :=
  h.trans ((sublist_cons_self z r).append_left l)

/-- What is in front of the place of an insertion comes out before what is inserted. -/
lemma before_inserted (h : x ∈ l) : Before (l ++ y :: r) x y := by
  have h1 : [x].Sublist l := singleton_sublist.2 h
  have h2 : [y].Sublist (y :: r) := singleton_sublist.2 mem_cons_self
  exact h1.append h2

/-- When the first element comes out, it was `x`, or `x` still comes out before `y`. -/
lemma Before.tail {z : α} (h : Before (z :: l) x y) : x = z ∨ Before l x y := by
  cases h with
  | cons _ h => exact .inr h
  | cons_cons _ _ => exact .inl rfl

lemma Before.mem_right (h : Before l x y) : y ∈ l :=
  h.subset (by simp)

end Makaos.StackRow
