import Mathlib.Tactic
import Mathlib.Data.List.Basic

/-!
The values a variable has had, in order, and what can be said of a value that is not older than a
given one.

* `Seen log floor v`: `v` is one of the values from number `floor` on.
* `Steady log floor v`: it is the only one, and the present one.
* `Seen.append`, `Seen.mono`: **what was seen stays seen**; `Seen.eq`: and a steady value is all
  there is to see.
-/

namespace Makaos.History

open List

variable {α : Type*} {log : List α} {floor floor' : ℕ} {v w : α}

/-- One of the values from number `floor` on. -/
def Seen (log : List α) (floor : ℕ) (v : α) : Prop := ∃ k, floor ≤ k ∧ log[k]? = some v

/-- The present value, and the only one since number `floor`. -/
def Steady (log : List α) (floor : ℕ) (v : α) : Prop :=
  log.getLast? = some v ∧ ∀ w, Seen log floor w → w = v

lemma Seen.append (h : Seen log floor v) (l : List α) : Seen (log ++ l) floor v := by
  obtain ⟨k, hk, hv⟩ := h
  have hlt : k < log.length := by
    by_contra hge
    rw [getElem?_eq_none (not_lt.1 hge)] at hv
    cases hv
  exact ⟨k, hk, by rw [getElem?_append_left hlt, hv]⟩

lemma Seen.mono (h : Seen log floor v) (hf : floor' ≤ floor) : Seen log floor' v := by
  obtain ⟨k, hk, hv⟩ := h
  exact ⟨k, hf.trans hk, hv⟩

lemma seen_last (hv : log.getLast? = some v) (hf : floor < log.length) : Seen log floor v := by
  refine ⟨log.length - 1, by omega, ?_⟩
  rw [← hv, getLast?_eq_getElem?]

lemma steady_concat (l : List α) (v : α) : Steady (l ++ [v]) l.length v := by
  refine ⟨getLast?_concat, ?_⟩
  rintro w ⟨k, hk, hw⟩
  rw [getElem?_append_right hk] at hw
  exact mem_singleton.1 (mem_of_getElem? hw)

lemma Seen.eq (h : Seen log floor v) (hs : Steady log floor w) : v = w := hs.2 v h

end Makaos.History
