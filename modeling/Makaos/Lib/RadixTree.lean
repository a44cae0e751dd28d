import Mathlib.Data.List.Induction
import Mathlib.Tactic.Common

/-!
Radix trees whose tables lie in one memory.

A table is a function from indices to entries, and an entry can lead to a further table.

* `walk`: the table at the end of a path.
* `IsTree`: the paths of a family lead to different tables.
* `walk_congr`: the walk depends on the entries it reads only; `IsTree.walk_leaf`: writing an entry
  from which no path of the family goes on leaves every walk.
* `IsTree.grow`: hanging an empty table under a free entry.
-/

namespace RadixTree

open Option List

variable {F I E : Type*} (child : E → Option F)

/-- The table at the end of a path from a table. -/
def walk (mem : F → I → E) : F → List I → Option F
  | r, [] => some r
  | r, i :: p => (child (mem r i)).bind fun f => walk mem f p

/-- The paths of the family lead to different tables. -/
structure IsTree (mem : F → I → E) (root : F) (P : List I → Prop) : Prop where
  inj : ∀ p q f, P p → P q → walk child mem root p = some f → walk child mem root q = some f → p = q

variable {child} {mem mem' : F → I → E} {root f g : F} {p q : List I} {i : I} {P : List I → Prop}

lemma walk_append (r : F) (p q : List I) :
    walk child mem r (p ++ q) = (walk child mem r p).bind fun f => walk child mem f q := by
  induction p generalizing r with
  | nil => rfl
  | cons i p ih =>
    simp only [cons_append, walk, bind_assoc]
    congr 1
    funext f
    exact ih f

lemma walk_snoc (r : F) (p : List I) (i : I) :
    walk child mem r (p ++ [i]) = (walk child mem r p).bind fun f => child (mem f i) := by
  rw [walk_append]
  congr 1
  funext f
  simp [walk]

/-- The walk depends on the entries it reads only. -/
lemma walk_congr (hP : ∀ p i, P (p ++ [i]) → P p)
    (hsame : ∀ p i f, P (p ++ [i]) → walk child mem root p = some f →
      child (mem' f i) = child (mem f i)) :
    ∀ p, P p → walk child mem' root p = walk child mem root p := by
  intro p
  induction p using reverseRecOn with
  | nil => exact fun _ => rfl
  | append_singleton p i ih =>
    intro hp
    rw [walk_snoc, walk_snoc, ih (hP p i hp)]
    cases hw : walk child mem root p with
    | none => rfl
    | some f => exact hsame p i f hp hw

namespace IsTree

variable (hP : ∀ p i, P (p ++ [i]) → P p) (h : IsTree child mem root P)

include hP h

/-- Writing an entry from which no path of the family goes on leaves every walk. -/
lemma walk_leaf (hp : P p) (hw : walk child mem root p = some f) (hleaf : ¬ P (p ++ [i]))
    (hsame : ∀ g j, ¬ (g = f ∧ j = i) → mem' g j = mem g j) :
    ∀ q, P q → walk child mem' root q = walk child mem root q := by
  refine walk_congr hP fun q j g hq hg => ?_
  rw [hsame g j]
  rintro ⟨rfl, rfl⟩
  rw [h.inj q p g (hP q j hq) hp hg hw] at hq
  exact hleaf hq

variable (hp : P p) (hw : walk child mem root p = some f) (hnone : child (mem f i) = none)
  (hfresh : ∀ q, P q → walk child mem root q ≠ some g) (hlink : child (mem' f i) = some g)
  (hempty : ∀ j, child (mem' g j) = none)
  (hsame : ∀ h j, h ≠ g → ¬ (h = f ∧ j = i) → mem' h j = mem h j)
include hp hw hnone hfresh hlink hempty hsame

/-- The walks after an empty table is hung under an entry that led nowhere. -/
lemma walk_grow [DecidableEq I] : ∀ q, P q →
    walk child mem' root q = if q = p ++ [i] then some g else walk child mem root q := by
  intro q
  induction q using reverseRecOn with
  | nil =>
    intro _
    rw [if_neg (by simp)]
    rfl
  | append_singleton q j ih =>
    intro hq
    rw [walk_snoc, walk_snoc, ih (hP q j hq)]
    split
    next heq =>
      -- below the new table there is nothing, before and after
      subst heq
      rw [if_neg fun hlen => by simpa using congrArg length hlen, walk_snoc, hw]
      simp [hnone, hempty]
    next hne =>
      cases hwq : walk child mem root q with
      | none =>
        rw [if_neg fun heq => ?_]
        · rfl
        · rw [(append_inj' heq rfl).1, hw] at hwq
          nomatch hwq
      | some h' =>
        have hg : h' ≠ g := fun heq => hfresh q (hP q j hq) (heq ▸ hwq)
        by_cases hslot : h' = f ∧ j = i
        · obtain ⟨rfl, rfl⟩ := hslot
          rwa [h.inj q p h' (hP q j hq) hp hwq hw, if_pos rfl]
        · rw [if_neg fun heq => ?_, bind_some, hsame h' j hg hslot]
          · rfl
          · obtain ⟨rfl, hji⟩ := append_inj' heq rfl
            exact hslot ⟨some.inj (hwq.symm.trans hw), by simpa using hji⟩

/-- **Growing the tree** by an empty table keeps it a tree. -/
lemma grow : IsTree child mem' root P := by
  classical
  have hwalk := h.walk_grow hP hp hw hnone hfresh hlink hempty hsame
  refine ⟨fun q r f' hq hr hwq hwr => ?_⟩
  rw [hwalk q hq] at hwq
  rw [hwalk r hr] at hwr
  split at hwq <;> split at hwr
  case isTrue.isTrue h1 h2 => rw [h1, h2]
  case isTrue.isFalse => exact absurd (hwq ▸ hwr) (hfresh r hr)
  case isFalse.isTrue => exact absurd (hwr ▸ hwq) (hfresh q hq)
  case isFalse.isFalse => exact h.inj q r f' hq hr hwq hwr

end IsTree

end RadixTree
