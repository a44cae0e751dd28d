import Mathlib.Tactic
import Mathlib.Data.List.Perm.Basic

/-!
The sequential bounded deque: one end is pushed to and popped from, the other is stolen from.

* `Event`, `Step`: what its users see, and what each event needs and does; the newest element is the
  last one of the list.
* `Replay`: a list of events explained by the sequential deque.
* `Replay.accounted`: **every element that was pushed has been popped once, or stolen once, or is
  still there.**
* `Replay.order`: **elements are stolen in the order they were pushed.**
-/

namespace Makaos.SeqDeque

open List

variable {α : Type*}

/-- What the users of a deque see. -/
inductive Event (α : Type*) where
  | push (x : α)
  /-- A push was refused. -/
  | full
  | pop (x : α)
  /-- A pop found nothing. -/
  | empty
  | steal (x : α)
  deriving DecidableEq

/-- The sequential deque of capacity `cap`. -/
inductive Step (cap : ℕ) : List α → Event α → List α → Prop
  | push {l : List α} {x : α} : l.length < cap → Step cap l (.push x) (l ++ [x])
  | full {l : List α} : l.length = cap → Step cap l .full l
  | pop {l : List α} {x : α} : Step cap (l ++ [x]) (.pop x) l
  | empty : Step cap [] .empty []
  | steal {l : List α} {x : α} : Step cap (x :: l) (.steal x) l

section

variable {cap : ℕ} {l l' : List α} {x : α}

lemma Step.push_inv (h : Step cap l (.push x) l') : l' = l ++ [x] := by
  cases h with
  | push _ => rfl

lemma Step.pop_inv (h : Step cap l (.pop x) l') : l = l' ++ [x] := by
  cases h with
  | pop => rfl

lemma Step.empty_inv (h : Step cap l .empty l') : l' = l := by
  cases h with
  | empty => rfl

lemma Step.steal_inv (h : Step cap l (.steal x) l') : l = x :: l' := by
  cases h with
  | steal => rfl

end

/-- The events, in this order, lead from the empty deque to `l`. -/
inductive Replay (cap : ℕ) : List (Event α) → List α → Prop
  | nil : Replay cap [] []
  | snoc {log : List (Event α)} {l l' : List α} {e : Event α} :
      Replay cap log l → Step cap l e l' → Replay cap (log ++ [e]) l'

/-- The elements pushed, in order. -/
def pushes (log : List (Event α)) : List α :=
  log.filterMap fun
    | .push x => some x
    | _ => none

/-- The elements popped, in order. -/
def pops (log : List (Event α)) : List α :=
  log.filterMap fun
    | .pop x => some x
    | _ => none

/-- The elements stolen, in order. -/
def steals (log : List (Event α)) : List α :=
  log.filterMap fun
    | .steal x => some x
    | _ => none

section

variable {cap : ℕ} {log : List (Event α)} {l : List α}

/-- **Nothing is lost and nothing is given out twice.** -/
theorem Replay.accounted (h : Replay cap log l) :
    (pushes log).Perm (pops log ++ steals log ++ l) := by
  classical
  induction h with
  | nil => exact List.Perm.refl _
  | @snoc log l l' e _ hstep ih =>
    -- every element is as often on the one side as on the other
    refine perm_iff_count.mpr fun a => ?_
    have hcount := ih.count_eq a
    cases hstep with
    | push _ | full _ | pop | empty | steal =>
      simp [pushes, pops, steals, count_cons] at hcount ⊢
      omega

/-- **Elements are stolen in the order they were pushed**, before all those that are left. -/
theorem Replay.order (h : Replay cap log l) : (steals log ++ l).Sublist (pushes log) := by
  induction h with
  | nil => exact List.Sublist.refl _
  | @snoc log l l' e _ hstep ih =>
    cases hstep with
    | @push _ x _ =>
      have hpush : pushes (log ++ [.push x]) = pushes log ++ [x] := by simp [pushes]
      have hsteals : steals (log ++ [.push x]) = steals log := by simp [steals]
      rw [hpush, hsteals, ← append_assoc]
      exact ih.append (List.Sublist.refl _)
    | full _ | empty => simpa [pushes, steals] using ih
    | @pop _ x =>
      have hsteals : steals (log ++ [.pop x]) = steals log := by simp [steals]
      have hpush : pushes (log ++ [.pop x]) = pushes log := by simp [pushes]
      rw [hsteals, hpush]
      exact (List.Sublist.append_left (sublist_append_left l' [x]) _).trans ih
    | @steal _ x =>
      have hsteals : steals (log ++ [.steal x]) = steals log ++ [x] := by simp [steals]
      have hpush : pushes (log ++ [.steal x]) = pushes log := by simp [pushes]
      rw [hsteals, hpush]
      simpa using ih

end

end Makaos.SeqDeque
