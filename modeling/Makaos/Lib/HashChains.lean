import Mathlib.Tactic
import Mathlib.Logic.Function.Basic

/-!
A hash table with chains: an array of lists, each element in the list its hash selects.

`place a cap` is the number of the list of `a` in a table of `cap` lists.

* `Table.push`, `Table.unlink`, `Table.rehash`: at the head of a chain, out of a chain, and into a
  new array.
* `Placed`: every element stands once, in its own chain.
* `linked_push`, `Placed.push`, `Placed.mem_unlink`, `Placed.unlink`, `Placed.rehash`: **what is
  linked after each of them**, with `Placed` kept.
-/

namespace Makaos.HashChains

open Function List
/-- The chains; only those below `cap` are in use. -/
structure Table (α : Type*) where
  cap : ℕ
  buckets : ℕ → List α

namespace Table

variable {α : Type*}

/-- No element at all. -/
def empty (cap : ℕ) : Table α := ⟨cap, fun _ => []⟩

/-- `a` in front of its chain. -/
def push (place : α → ℕ → ℕ) (t : Table α) (a : α) : Table α :=
  { t with
    buckets := update t.buckets (place a t.cap) (a :: t.buckets (place a t.cap)) }

/-- `a` out of its chain. -/
def unlink [DecidableEq α] (place : α → ℕ → ℕ) (t : Table α) (a : α) : Table α :=
  { t with
    buckets := update t.buckets (place a t.cap) ((t.buckets (place a t.cap)).erase a) }

/-- All elements, chain by chain. -/
def elems (t : Table α) : List α := (List.range t.cap).flatMap t.buckets

/-- Every element into a table of another size, one after the other. -/
def rehash (place : α → ℕ → ℕ) (t : Table α) (cap : ℕ) : Table α :=
  t.elems.foldl (push place) (empty cap)

/-- `a` stands in its chain. -/
def Linked (place : α → ℕ → ℕ) (t : Table α) (a : α) : Prop := a ∈ t.buckets (place a t.cap)

instance [DecidableEq α] (place : α → ℕ → ℕ) (t : Table α) (a : α) :
    Decidable (t.Linked place a) :=
  inferInstanceAs (Decidable (a ∈ t.buckets (place a t.cap)))

/-- Every element stands once, in its own chain. -/
structure Placed (place : α → ℕ → ℕ) (t : Table α) : Prop where
  nodup : ∀ b, (t.buckets b).Nodup
  place_eq : ∀ b, ∀ a ∈ t.buckets b, place a t.cap = b

variable {place : α → ℕ → ℕ} {t : Table α} {a e : α}

/-! ### One element more -/

lemma mem_push (b : ℕ) :
    e ∈ (t.push place a).buckets b ↔ (e = a ∧ b = place a t.cap) ∨ e ∈ t.buckets b := by
  by_cases hb : b = place a t.cap
  · subst hb
    simp [push]
  · simp [push, hb]

lemma linked_push : (t.push place a).Linked place e ↔ e = a ∨ t.Linked place e := by
  unfold Linked
  rw [mem_push]
  constructor
  · rintro (⟨rfl, -⟩ | h)
    · exact .inl rfl
    · exact .inr h
  · rintro (rfl | h)
    · exact .inl ⟨rfl, rfl⟩
    · exact .inr h

lemma Placed.push (h : t.Placed place) (ha : ¬ t.Linked place a) : (t.push place a).Placed place where
  nodup b := by
    by_cases hb : b = place a t.cap
    · subst hb
      simpa [Table.push] using ⟨ha, h.nodup _⟩
    · simpa [Table.push, update_of_ne hb] using h.nodup b
  place_eq b e he := by
    rcases (mem_push b).1 he with ⟨rfl, rfl⟩ | he
    · rfl
    · exact h.place_eq b e he

lemma Placed.empty (cap : ℕ) : (empty cap : Table α).Placed place where
  nodup _ := nodup_nil
  place_eq _ _ he := absurd he not_mem_nil

/-! ### One element less -/

section

variable [DecidableEq α]

lemma Placed.mem_unlink (h : t.Placed place) (b : ℕ) :
    e ∈ (t.unlink place a).buckets b ↔ e ∈ t.buckets b ∧ e ≠ a := by
  by_cases hb : b = place a t.cap
  · subst hb
    simp only [unlink, update_self]
    rw [(h.nodup _).mem_erase_iff, and_comm]
  · simp only [unlink, update_of_ne hb]
    -- `a` itself stands in no other chain
    refine ⟨fun he => ⟨he, ?_⟩, And.left⟩
    rintro rfl
    exact hb (h.place_eq b e he).symm

lemma Placed.unlink (h : t.Placed place) : (t.unlink place a).Placed place where
  nodup b := by
    by_cases hb : b = place a t.cap
    · subst hb
      simpa [Table.unlink] using (h.nodup _).erase a
    · simpa [Table.unlink, update_of_ne hb] using h.nodup b
  place_eq b e he := h.place_eq b e ((h.mem_unlink b).1 he).1

end

/-! ### All elements -/

lemma Placed.mem_elems (h : t.Placed place) (hpos : ∀ a, place a t.cap < t.cap) :
    a ∈ t.elems ↔ t.Linked place a := by
  simp only [elems, mem_flatMap, mem_range, Linked]
  constructor
  · rintro ⟨b, -, hb⟩
    rwa [h.place_eq b a hb]
  · exact fun ha => ⟨_, hpos a, ha⟩

lemma Placed.nodup_elems (h : t.Placed place) : t.elems.Nodup := by
  rw [elems, nodup_flatMap]
  refine ⟨fun b _ => h.nodup b, ?_⟩
  refine nodup_range.imp ?_
  intro b c hbc e hb hc
  exact hbc ((h.place_eq b e hb).symm.trans (h.place_eq c e hc))

lemma Placed.foldl_push (l : List α) (h : t.Placed place) (hl : l.Nodup)
    (hdis : ∀ a ∈ l, ¬ t.Linked place a) : (l.foldl (Table.push place) t).Placed place ∧
      (l.foldl (Table.push place) t).cap = t.cap ∧
      ∀ e, (l.foldl (Table.push place) t).Linked place e ↔ e ∈ l ∨ t.Linked place e := by
  induction l generalizing t with
  | nil => exact ⟨h, rfl, fun e => by simp⟩
  | cons a l ih =>
    obtain ⟨hal, hl⟩ := nodup_cons.1 hl
    have hdis' : ∀ e ∈ l, ¬ (t.push place a).Linked place e := by
      intro e he hlink
      rcases linked_push.1 hlink with rfl | hlink
      · exact hal he
      · exact hdis e (mem_cons_of_mem _ he) hlink
    obtain ⟨hp, hcap, hlink⟩ := ih (h.push (hdis a mem_cons_self)) hl hdis'
    refine ⟨hp, hcap, fun e => ?_⟩
    calc (l.foldl (Table.push place) (t.push place a)).Linked place e
        ↔ e ∈ l ∨ (t.push place a).Linked place e := hlink e
      _ ↔ e ∈ l ∨ (e = a ∨ t.Linked place e) := or_congr_right linked_push
      _ ↔ e ∈ a :: l ∨ t.Linked place e := by rw [mem_cons]; tauto

/-- **A new array has the same elements.** -/
theorem Placed.rehash (h : t.Placed place) (hpos : ∀ a, place a t.cap < t.cap) (cap : ℕ) :
    (t.rehash place cap).Placed place ∧ (t.rehash place cap).cap = cap ∧
      ∀ e, (t.rehash place cap).Linked place e ↔ t.Linked place e := by
  obtain ⟨hp, hcap, hlink⟩ := (Placed.empty cap).foldl_push t.elems h.nodup_elems
    (fun a _ ha => absurd ha not_mem_nil)
  refine ⟨hp, hcap, fun e => ?_⟩
  calc (t.rehash place cap).Linked place e
      ↔ e ∈ t.elems ∨ (Table.empty cap).Linked place e := hlink e
    _ ↔ e ∈ t.elems := or_iff_left not_mem_nil
    _ ↔ t.Linked place e := h.mem_elems hpos

lemma Placed.congr {place' : α → ℕ → ℕ} (h : t.Placed place)
    (heq : ∀ b, ∀ a ∈ t.buckets b, place' a t.cap = place a t.cap) : t.Placed place' where
  nodup := h.nodup
  place_eq b a ha := (heq b a ha).trans (h.place_eq b a ha)

end Table

end Makaos.HashChains
