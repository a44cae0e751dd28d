import Mathlib.Tactic

/-!
The filled part of a ring of `n` cells, read from its first cell on.

* `window_put`: a value stored in the first free cell is the last one of the window.
-/

namespace Makaos.RingWindow

open Function Nat
variable {β : Type*} {n : ℕ} {buf : ℕ → β} {b : β}

/-- The `c` cells from cell `h` on. -/
def window (n : ℕ) (buf : ℕ → β) : ℕ → ℕ → List β
  | _, 0 => []
  | h, c + 1 => buf h :: window n buf ((h + 1) % n) c

lemma window_succ (h c : ℕ) : window n buf h (c + 1) = buf h :: window n buf ((h + 1) % n) c := rfl

lemma window_update_of_outside {h c x : ℕ} (hh : h < n) (hout : ∀ i < c, (h + i) % n ≠ x) :
    window n (update buf x b) h c = window n buf h c := by
  induction c generalizing h with
  | zero => rfl
  | succ c ih =>
    have hne : h ≠ x := by
      have := hout 0 (succ_pos c)
      rwa [add_zero, mod_eq_of_lt hh] at this
    rw [window_succ, window_succ, update_of_ne hne, ih (mod_lt _ (zero_lt_of_lt hh))]
    intro i hi
    rw [mod_add_mod, add_assoc, add_comm 1 i]
    exact hout (i + 1) (succ_lt_succ hi)

lemma window_append (h c : ℕ) (hh : h < n) :
    window n buf h (c + 1) = window n buf h c ++ [buf ((h + c) % n)] := by
  induction c generalizing h with
  | zero => simp [window, mod_eq_of_lt hh]
  | succ c ih =>
    rw [window_succ, ih _ (mod_lt _ (zero_lt_of_lt hh)), window_succ, List.cons_append,
      mod_add_mod, add_assoc, add_comm 1 c]

/-- **A value stored in the first free cell** is the last one of the window. -/
lemma window_put {h c : ℕ} (hh : h < n) (hc : c < n) :
    window n (update buf ((h + c) % n) b) h (c + 1) = window n buf h c ++ [b] := by
  rw [window_append h c hh, update_self, window_update_of_outside hh]
  intro i hi heq
  -- two cells of the ring less than `n` apart are different
  have hmod : i % n = c % n := Nat.ModEq.add_left_cancel' h heq
  rw [mod_eq_of_lt (hi.trans hc), mod_eq_of_lt hc] at hmod
  exact absurd hmod hi.ne

end Makaos.RingWindow
