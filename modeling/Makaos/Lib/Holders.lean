import Mathlib.Tactic
import Mathlib.Data.Fintype.Card

/-!
How many threads hold a thing, each thread holding one thing at most.

* `holders f b`: the number of threads `t` with `f t = some b`.
* `sum_update`, `holders_update`: **one thread takes or gives back**, and the numbers follow.
-/

namespace Makaos.Holders

open Function Finset
variable {ι β : Type*} [Fintype ι] [DecidableEq β]
variable {b : β} {f : ι → Option β}

/-- The number of threads that hold `b`. -/
def holders (f : ι → Option β) (b : β) : ℕ := (Finset.univ.filter fun t => f t = some b).card

/-- One for a holder of `b`. -/
def one (x : Option β) (b : β) : ℕ := if x = some b then 1 else 0

@[simp] lemma one_none (b : β) : one (none : Option β) b = 0 := rfl

@[simp] lemma one_self (b : β) : one (some b) b = 1 := if_pos rfl

lemma one_of_ne {c : β} (h : b ≠ c) : one (some b) c = 0 := if_neg fun he => h (Option.some.inj he)

omit [DecidableEq β] in
/-- **One thread goes on**, and a sum over all threads follows. -/
theorem sum_update {γ M : Type*} [AddCommGroup M] [DecidableEq ι] (g : ι → γ → M) (f : ι → γ) (t : ι)
    (x : γ) : ∑ u, g u (update f t x u) = ∑ u, g u (f u) - g t (f t) + g t x := by
  have hrest : ∑ u ∈ univ.erase t, g u (update f t x u) =
      ∑ u ∈ univ.erase t, g u (f u) := by
    refine sum_congr rfl fun u hu => ?_
    rw [update_of_ne (ne_of_mem_erase hu)]
  have hnew := sum_erase_add univ (fun u => g u (update f t x u)) (mem_univ t)
  have hold := sum_erase_add univ (fun u => g u (f u)) (mem_univ t)
  rw [← hnew, ← hold, hrest, update_self]
  abel

lemma holders_eq_sum (f : ι → Option β) (b : β) : holders f b = ∑ t, one (f t) b := by
  simp only [holders, one, card_filter]

/-- **One thread takes or gives back.** -/
theorem holders_update [DecidableEq ι] (f : ι → Option β) (t : ι) (x : Option β) (b : β) :
    holders (update f t x) b + one (f t) b = holders f b + one x b := by
  have hsum := sum_update (fun _ y => (one y b : ℤ)) f t x
  rw [holders_eq_sum, holders_eq_sum]
  zify
  linarith

lemma holders_pos {t : ι} (h : f t = some b) : 0 < holders f b :=
  card_pos.2 ⟨t, by simp [h]⟩

lemma exists_of_holders_pos (h : 0 < holders f b) : ∃ t, f t = some b := by
  obtain ⟨t, ht⟩ := card_pos.1 h
  exact ⟨t, (mem_filter.1 ht).2⟩

lemma holders_none (b : β) : holders (fun _ : ι => (none : Option β)) b = 0 := by
  simp [holders]

end Makaos.Holders
