import Mathlib.Data.List.Flatten
import Mathlib.Order.Lattice
import Mathlib.Tactic.Common

/-!
Sorted lists of disjoint half-open intervals, read as maps from points to their elements.

* `Ordered`: the elements are nonempty and each ends before the next begins.
* `lookup`: the element that covers a point; `Ordered.lookup_eq_some_iff`.
* `Ordered.flatMap`, `lookup_flatMap`: every element is replaced by pieces of itself.
* `Ordered.insert`, `lookup_insert`: an element is put between those before and after it.
-/

namespace IntervalList

open List

variable {α β : Type*} [LinearOrder β] (lo hi : α → β)

/-- The interval of the element contains the point. -/
def Covers (x : α) (a : β) : Prop := lo x ≤ a ∧ a < hi x

instance (x : α) (a : β) : Decidable (Covers lo hi x a) := inferInstanceAs (Decidable (_ ∧ _))

/-- The intervals are nonempty, sorted and pairwise disjoint. -/
structure Ordered (l : List α) : Prop where
  nonempty : ∀ x ∈ l, lo x < hi x
  apart : l.Pairwise fun x y => hi x ≤ lo y

/-- The first element that covers the point. -/
def lookup (a : β) (l : List α) : Option α := l.find? fun x => decide (Covers lo hi x a)

variable {lo hi} {l : List α} {x y : α} {a : β} {l₁ l₂ : List α} {f : α → List α}

lemma lookup_eq_none_iff : lookup lo hi a l = none ↔ ∀ x ∈ l, ¬ Covers lo hi x a := by
  simp [lookup]

lemma of_lookup_eq_some (h : lookup lo hi a l = some x) : x ∈ l ∧ Covers lo hi x a :=
  ⟨mem_of_find?_eq_some h, by simpa using find?_some h⟩

lemma ordered_nil : Ordered lo hi [] := ⟨by simp, Pairwise.nil⟩

lemma ordered_singleton (h : lo x < hi x) : Ordered lo hi [x] :=
  ⟨by simpa using h, pairwise_singleton _ _⟩

namespace Ordered

lemma sublist {l' : List α} (h : Ordered lo hi l) (hsub : l'.Sublist l) : Ordered lo hi l' :=
  ⟨fun x hx => h.nonempty x (hsub.subset hx), h.apart.sublist hsub⟩

lemma tail (h : Ordered lo hi (x :: l)) : Ordered lo hi l := h.sublist (sublist_cons_self x l)

lemma head_le (h : Ordered lo hi (x :: l)) (hy : y ∈ l) : hi x ≤ lo y :=
  (pairwise_cons.mp h.apart).1 y hy

lemma unique (h : Ordered lo hi l) (hx : x ∈ l) (hy : y ∈ l) (hxa : Covers lo hi x a)
    (hya : Covers lo hi y a) : x = y := by
  induction l with
  | nil => exact absurd hx not_mem_nil
  | cons z l ih =>
    rcases mem_cons.mp hx with rfl | hx' <;> rcases mem_cons.mp hy with rfl | hy'
    · rfl
    · exact absurd (hxa.2.trans_le ((h.head_le hy').trans hya.1)) (lt_irrefl a)
    · exact absurd (hya.2.trans_le ((h.head_le hx').trans hxa.1)) (lt_irrefl a)
    · exact ih h.tail hx' hy'

lemma lookup_eq_some_iff (h : Ordered lo hi l) :
    lookup lo hi a l = some x ↔ x ∈ l ∧ Covers lo hi x a := by
  refine ⟨of_lookup_eq_some, fun ⟨hx, hxa⟩ => ?_⟩
  cases hl : lookup lo hi a l with
  | none => exact absurd hxa (lookup_eq_none_iff.mp hl x hx)
  | some y =>
    obtain ⟨hy, hya⟩ := of_lookup_eq_some hl
    rw [h.unique hx hy hxa hya]

lemma apart_of_ne (h : Ordered lo hi l) (hx : x ∈ l) (hy : y ∈ l) (hne : x ≠ y) :
    hi x ≤ lo y ∨ hi y ≤ lo x := by
  rcases le_total (lo x) (lo y) with hle | hle
  · refine .inl (not_lt.mp fun hlt => hne ?_)
    exact h.unique hx hy ⟨hle, hlt⟩ ⟨le_rfl, h.nonempty y hy⟩
  · refine .inr (not_lt.mp fun hlt => hne ?_)
    exact h.unique hx hy ⟨le_rfl, h.nonempty x hx⟩ ⟨hle, hlt⟩

/-- Every element is replaced by an ordered list of pieces inside it. -/
lemma flatMap (h : Ordered lo hi l) (hf : ∀ x ∈ l, Ordered lo hi (f x))
    (hin : ∀ x ∈ l, ∀ y ∈ f x, lo x ≤ lo y ∧ hi y ≤ hi x) : Ordered lo hi (l.flatMap f) := by
  refine ⟨fun y hy => ?_, pairwise_flatMap.mpr ⟨fun x hx => (hf x hx).apart, ?_⟩⟩
  · obtain ⟨x, hx, hyx⟩ := mem_flatMap.mp hy
    exact (hf x hx).nonempty y hyx
  · refine h.apart.imp_of_mem fun {x x'} hx hx' hle y hy y' hy' => ?_
    exact (hin x hx y hy).2.trans (hle.trans (hin x' hx' y' hy').1)

/-- An element is put between those that end before it and those that begin after it. -/
lemma insert (h : Ordered lo hi (l₁ ++ l₂)) (hx : lo x < hi x)
    (h1 : ∀ y ∈ l₁, hi y ≤ lo x) (h2 : ∀ y ∈ l₂, hi x ≤ lo y) : Ordered lo hi (l₁ ++ x :: l₂) := by
  obtain ⟨hp1, hp2, hp12⟩ := pairwise_append.mp h.apart
  refine ⟨fun y hy => ?_, pairwise_append.mpr ⟨hp1, pairwise_cons.mpr ⟨h2, hp2⟩, ?_⟩⟩
  · rcases mem_append.mp hy with hy | hy
    · exact h.nonempty y (mem_append_left _ hy)
    · rcases mem_cons.mp hy with rfl | hy
      · exact hx
      · exact h.nonempty y (mem_append_right _ hy)
  · intro y hy z hz
    rcases mem_cons.mp hz with rfl | hz
    · exact h1 y hy
    · exact hp12 y hy z hz

end Ordered

lemma lookup_flatMap (h : Ordered lo hi l) (hf : ∀ x ∈ l, Ordered lo hi (f x))
    (hin : ∀ x ∈ l, ∀ y ∈ f x, lo x ≤ lo y ∧ hi y ≤ hi x) :
    lookup lo hi a (l.flatMap f) = (lookup lo hi a l).bind fun x => lookup lo hi a (f x) := by
  ext y
  rw [(h.flatMap hf hin).lookup_eq_some_iff, Option.bind_eq_some_iff]
  constructor
  · rintro ⟨hy, hya⟩
    obtain ⟨x, hx, hyx⟩ := mem_flatMap.mp hy
    obtain ⟨hlo, hhi⟩ := hin x hx y hyx
    exact ⟨x, h.lookup_eq_some_iff.mpr ⟨hx, hlo.trans hya.1, hya.2.trans_le hhi⟩,
      (hf x hx).lookup_eq_some_iff.mpr ⟨hyx, hya⟩⟩
  · rintro ⟨x, hx, hy⟩
    obtain ⟨hmem, _⟩ := of_lookup_eq_some hx
    obtain ⟨hyx, hya⟩ := of_lookup_eq_some hy
    exact ⟨mem_flatMap.mpr ⟨x, hmem, hyx⟩, hya⟩

/-- The inserted element covers its interval, and the rest is as before. -/
lemma lookup_insert (h : Ordered lo hi (l₁ ++ x :: l₂)) : lookup lo hi a (l₁ ++ x :: l₂) =
      if Covers lo hi x a then some x else lookup lo hi a (l₁ ++ l₂) := by
  have hrest : Ordered lo hi (l₁ ++ l₂) := h.sublist ((sublist_cons_self x l₂).append_left l₁)
  split_ifs with hxa
  · exact h.lookup_eq_some_iff.mpr ⟨by simp, hxa⟩
  · ext y
    rw [h.lookup_eq_some_iff, hrest.lookup_eq_some_iff]
    simp only [mem_append, mem_cons]
    refine and_congr_left fun hya => or_congr_right ⟨fun hy => ?_, .inr⟩
    exact hy.resolve_left fun heq => hxa (heq ▸ hya)

end IntervalList
