import Mathlib.Data.List.Nodup
import Mathlib.Data.List.Infix
import Mathlib.Logic.Function.Basic
import Mathlib.Logic.Function.Iterate
import Mathlib.Data.Fintype.Card
import Mathlib.Data.Fintype.Option

/-!
Singly linked chains in a shared memory of link words.

* `Chain`: the list of cells that hang off a head.
* `OnChain`: the cell is met when the links are followed from a head, whether or not they end; with
  finitely many cells this can be computed.
* `Chains`: a family of heads whose chains end and share no cell, with the head each cell hangs
  off; the moves of cells between the heads keep it.
* `tailOf`: the loop that walks to the last cell of a chain.
-/

namespace LinkChain

open Function List
variable {α ι : Type*} {link link' : α → Option α} {hd : Option α} {l l' : List α}
variable {a x t : α} {i : ι} {fuel n : ℕ}

/-! ### One chain -/

/-- The cells from a head on, in order, up to the null link. -/
inductive Chain (link : α → Option α) : Option α → List α → Prop
  | nil : Chain link none []
  | cons {a : α} {l : List α} : Chain link (link a) l → Chain link (some a) (a :: l)

/-- Following the links from the head meets the cell. -/
inductive OnChain (link : α → Option α) : Option α → α → Prop
  | head (a : α) : OnChain link (some a) a
  | tail {a x : α} : OnChain link (link a) x → OnChain link (some a) x

lemma OnChain.next {b : α} (h : OnChain link hd a) (hb : link a = some b) : OnChain link hd b := by
  induction h with
  | head a => exact .tail (hb ▸ .head b)
  | tail _ ih => exact .tail (ih hb)

namespace Chain

section

variable (h : Chain link hd l)
include h

lemma frame (hsame : ∀ a ∈ l, link' a = link a) : Chain link' hd l := by
  induction h with
  | nil => exact .nil
  | @cons a l _ ih =>
    refine .cons ?_
    rw [hsame a mem_cons_self]
    exact ih fun b hb => hsame b (mem_cons_of_mem _ hb)

lemma unique (h' : Chain link hd l') : l = l' := by
  induction h generalizing l' with
  | nil =>
    cases h'
    rfl
  | cons _ ih =>
    cases h' with
    | cons h' => rw [ih h']

lemma exists_suffix (ha : a ∈ l) :
    ∃ l', Chain link (some a) (a :: l') ∧ (a :: l').length ≤ l.length := by
  induction h with
  | nil => exact absurd ha not_mem_nil
  | @cons b l hb ih =>
    rcases mem_cons.mp ha with rfl | ha
    · exact ⟨l, .cons hb, le_rfl⟩
    · obtain ⟨l', hl', hlen⟩ := ih ha
      exact ⟨l', hl', hlen.trans (Nat.le_succ _)⟩

lemma nodup : l.Nodup := by
  induction h with
  | nil => exact nodup_nil
  | @cons a l hl ih =>
    refine nodup_cons.mpr ⟨fun ha => ?_, ih⟩
    obtain ⟨l', hl', hlen⟩ := hl.exists_suffix ha
    rw [hl'.unique (.cons hl)] at hlen
    exact absurd hlen (by simp)

lemma mem_iff_onChain : x ∈ l ↔ OnChain link hd x := by
  constructor
  · intro hx
    induction h with
    | nil => exact absurd hx not_mem_nil
    | cons _ ih =>
      rcases mem_cons.mp hx with rfl | hx
      · exact .head _
      · exact .tail (ih hx)
  · intro hx
    induction h with
    | nil => cases hx
    | cons _ ih =>
      cases hx with
      | head => exact mem_cons_self
      | tail hx => exact mem_cons_of_mem _ (ih hx)

end

lemma eq_nil (h : Chain link none l) : l = [] := h.unique .nil

/-- The last link of a chain set to the head of another one. -/
lemma append [DecidableEq α] {hd2 : Option α} {l1 l2 : List α} (h1 : Chain link hd (l1 ++ [t]))
    (h2 : Chain link hd2 l2) (hnot : ∀ b ∈ l1 ++ [t], b ∉ l2) :
    Chain (update link t hd2) hd (l1 ++ t :: l2) := by
  have hnd := h1.nodup
  have h2' : Chain (update link t hd2) hd2 l2 :=
    h2.frame fun b hb => update_of_ne (by rintro rfl; exact hnot b (by simp) hb) _ _
  clear h2 hnot
  induction l1 generalizing hd with
  | nil =>
    cases h1 with
    | cons _ =>
      refine .cons ?_
      rwa [update_self]
  | cons a l1 ih =>
    cases h1 with
    | cons h1 =>
      rw [cons_append, nodup_cons] at hnd
      have hne : a ≠ t := fun heq => hnd.1 (by simp [heq])
      refine .cons ?_
      rw [update_of_ne hne]
      exact ih h1 hnd.2

/-- A cell is taken out by the link that leads to it. -/
lemma unlink [DecidableEq α] {p : α} (h : Chain link hd l) (hp : p ∈ l) (hnext : link p = some a) :
    a ∈ l ∧ Chain (update link p (link a)) hd (l.erase a) := by
  induction h with
  | nil => exact absurd hp not_mem_nil
  | @cons x l hl ih =>
    have hnd := nodup_cons.mp (Chain.cons hl).nodup
    rcases mem_cons.mp hp with rfl | hp
    · -- the next cell is the first of the rest
      rw [hnext] at hl
      cases hl with
      | @cons _ l hl =>
        have hne : p ≠ a := fun heq => hnd.1 (heq ▸ mem_cons_self)
        refine ⟨by simp, ?_⟩
        rw [erase_cons_tail (by simpa using hne), erase_cons_head]
        refine .cons ?_
        rw [update_self]
        refine hl.frame fun b hb => update_of_ne ?_ _ _
        rintro rfl
        exact hnd.1 (mem_cons_of_mem _ hb)
    · obtain ⟨ha, hchain⟩ := ih hp
      have hxp : x ≠ p := fun heq => hnd.1 (heq ▸ hp)
      have hxa : x ≠ a := fun heq => hnd.1 (heq ▸ ha)
      refine ⟨mem_cons_of_mem _ ha, ?_⟩
      rw [erase_cons_tail (by simpa using hxa)]
      refine .cons ?_
      rwa [update_of_ne hxp]

end Chain

/-! ### Finitely many cells -/

lemma onChain_iff_iterate : OnChain link hd x ↔ ∃ n, (fun o => o.bind link)^[n] hd = some x := by
  constructor
  · intro h
    induction h with
    | head a => exact ⟨0, rfl⟩
    | tail _ ih =>
      obtain ⟨n, hn⟩ := ih
      exact ⟨n + 1, hn⟩
  · rintro ⟨n, hn⟩
    induction n generalizing hd with
    | zero =>
      obtain rfl : hd = some x := hn
      exact .head x
    | succ n ih =>
      have hon := ih hn
      cases hd with
      | none => cases hon
      | some a => exact .tail hon

/-- The first time a cell is met, no cell has been met twice. -/
lemma onChain_iff_bounded [Fintype α] : OnChain link hd x ↔
      ∃ n < Fintype.card α + 1, (fun o => o.bind link)^[n] hd = some x := by
  classical
  rw [onChain_iff_iterate]
  refine ⟨fun hex => ?_, fun ⟨n, _, hn⟩ => ⟨n, hn⟩⟩
  refine ⟨Nat.find hex, ?_, Nat.find_spec hex⟩
  set n := Nat.find hex with hn
  set f : Option α → Option α := fun o => o.bind link
  -- two equal places could be cut out
  have hcut : ∀ j k, j < k → k ≤ n → f^[j] hd ≠ f^[k] hd := by
    intro j k hjk hkn heq
    refine Nat.find_min hex (m := n - k + j) (by omega) ?_
    rw [iterate_add_apply, heq, ← iterate_add_apply, Nat.sub_add_cancel hkn]
    exact Nat.find_spec hex
  have hinj : Injective fun k : Fin (n + 1) => f^[k.val] hd := by
    intro j k heq
    rcases lt_trichotomy j.val k.val with h | h | h
    · exact absurd heq (hcut _ _ h (Nat.lt_succ_iff.mp k.isLt))
    · exact Fin.ext h
    · exact absurd heq.symm (hcut _ _ h (Nat.lt_succ_iff.mp j.isLt))
  refine Nat.lt_succ_of_le ?_
  simpa [Fintype.card_option] using Fintype.card_le_of_injective _ hinj

instance [Fintype α] [DecidableEq α] (x : α) : Decidable (OnChain link hd x) :=
  decidable_of_iff _ onChain_iff_bounded.symm

/-! ### The walk to the tail -/

/-- The loop `while (*tail) tail = *tail` with its counter, for at most `fuel` rounds. -/
def tailOf (link : α → Option α) : ℕ → α → ℕ → Option (α × ℕ)
  | 0, _, _ => none
  | fuel + 1, tail, n =>
    match link tail with
    | none => some (tail, n)
    | some next => tailOf link fuel next (n + 1)

lemma tailOf_spec {m : ℕ} (h : Chain link (some a) l) (hw : tailOf link fuel a n = some (t, m)) :
    ∃ l1, l = l1 ++ [t] := by
  induction fuel generalizing a n l with
  | zero => exact absurd hw (by simp [tailOf])
  | succ fuel ih =>
    cases h with
    | @cons _ l hl =>
      rw [tailOf] at hw
      cases hnext : link a with
      | none =>
        rw [hnext] at hw hl
        obtain rfl := hl.eq_nil
        simp only [Option.some.injEq, Prod.mk.injEq] at hw
        exact ⟨[], by rw [hw.1]; rfl⟩
      | some b =>
        rw [hnext] at hw hl
        obtain ⟨l1, hl1⟩ := ih hl hw
        exact ⟨a :: l1, by rw [hl1]; rfl⟩

/-- A walk over a chain that ends is done after as many rounds as the chain has cells. -/
lemma tailOf_isSome (h : Chain link (some a) l) (hlen : l.length ≤ fuel) :
    (tailOf link fuel a n).isSome := by
  induction fuel generalizing a n l with
  | zero =>
    cases h
    nomatch hlen
  | succ fuel ih =>
    cases h with
    | @cons _ l hl =>
      rw [tailOf]
      cases hnext : link a with
      | none => rfl
      | some b =>
        rw [hnext] at hl
        exact ih hl (Nat.le_of_succ_le_succ hlen)

/-! ### Families of chains -/

/-- The chain of every head ends, and a cell is on the chain of `i` iff it is located at `i`. -/
def Chains (link : α → Option α) (head : ι → Option α) (loc : α → Option ι) : Prop :=
  ∀ i, ∃ l, Chain link (head i) l ∧ ∀ a, a ∈ l ↔ loc a = some i

namespace Chains

variable {head : ι → Option α} {loc : α → Option ι}

section

variable (h : Chains link head loc)
include h

lemma onChain_iff : OnChain link (head i) a ↔ loc a = some i := by
  obtain ⟨l, hl, hloc⟩ := h i
  rw [← hl.mem_iff_onChain, hloc]

lemma loc_head (ha : head i = some a) : loc a = some i := h.onChain_iff.mp (ha ▸ .head a)

lemma loc_ne_of_empty (hi : head i = none) (a : α) : loc a ≠ some i := by
  intro ha
  have hon := h.onChain_iff.mpr ha
  rw [hi] at hon
  cases hon

lemma loc_link {b : α} (ha : loc a = some i) (hb : link a = some b) : loc b = some i := by
  rw [← h.onChain_iff] at ha ⊢
  exact ha.next hb

lemma frame (hsame : ∀ a, loc a ≠ none → link' a = link a) : Chains link' head loc := by
  intro i
  obtain ⟨l, hl, hloc⟩ := h i
  refine ⟨l, hl.frame fun a ha => hsame a ?_, hloc⟩
  rw [(hloc a).mp ha]
  exact Option.some_ne_none i

lemma onChain_frame (hsame : ∀ a, loc a = some i → link' a = link a) {p : Option α}
    (hp : ∀ a, p = some a → loc a = some i) (hon : OnChain link p x) : OnChain link' p x := by
  induction hon with
  | head a => exact .head a
  | @tail a x _ ih =>
    have ha := hp a rfl
    refine .tail ?_
    rw [hsame a ha]
    exact ih fun b hb => h.loc_link ha hb

end

variable [DecidableEq ι]

/-- The locations with the cells at `i` moved to `w`. -/
def relocate (loc : α → Option ι) (i : ι) (w : Option ι) : α → Option ι :=
  fun a => if loc a = some i then w else loc a

/-- One head is overwritten: the chains of the others stay as they are if their cells keep their
links and no cell joins or leaves them. -/
lemma overwrite (h : Chains link head loc) {loc' : α → Option ι} (hl : Chain link' hd l)
    (hmem : ∀ b, b ∈ l ↔ loc' b = some i)
    (hother : ∀ j ≠ i, ∀ b, (loc' b = some j ↔ loc b = some j) ∧
      (loc b = some j → link' b = link b)) :
    Chains link' (update head i hd) loc' := by
  intro j
  by_cases hj : j = i
  · subst hj
    exact ⟨l, by rwa [update_self], hmem⟩
  · obtain ⟨l2, hl2, hloc⟩ := h j
    refine ⟨l2, ?_, fun b => (hloc b).trans (hother j hj b).1.symm⟩
    rw [update_of_ne hj]
    exact hl2.frame fun b hb => (hother j hj b).2 ((hloc b).mp hb)

/-- The head of a chain is overwritten: its cells are on no chain any more. -/
lemma drop (h : Chains link head loc) (i : ι) :
    Chains link (update head i none) (relocate loc i none) := by
  refine h.overwrite .nil (fun b => ?_) fun j hj b => ⟨?_, fun _ => rfl⟩
  · by_cases hb : loc b = some i <;> simp [relocate, hb]
  · by_cases hb : loc b = some i <;> simp [relocate, hb, Ne.symm hj]

/-- A whole chain goes to a head that was null. -/
lemma move (h : Chains link head loc) {j : ι} (hij : i ≠ j) (hj : head j = none) :
    Chains link (update (update head j (head i)) i none) (relocate loc i (some j)) := by
  obtain ⟨l, hl, hloc⟩ := h i
  rw [update_comm hij.symm]
  refine (h.drop i).overwrite hl (fun b => ?_) fun k hk b => ⟨?_, fun _ => rfl⟩
  · have hb := h.loc_ne_of_empty hj b
    by_cases hbi : loc b = some i <;> simp [relocate, hloc, hbi, hb]
  · by_cases hb : loc b = some i <;> simp [relocate, hb, Ne.symm hk]

variable [DecidableEq α]

section

variable (h : Chains link head loc)
include h

lemma pop (ha : head i = some a) : Chains link (update head i (link a)) (update loc a none) := by
  obtain ⟨l, hl, hloc⟩ := h i
  rw [ha] at hl
  cases hl with
  | @cons _ l hl =>
    have hnot := (nodup_cons.mp (Chain.cons hl).nodup).1
    refine h.overwrite hl (fun b => ?_) fun j hj b => ⟨?_, fun _ => rfl⟩ <;>
      obtain rfl | hb := eq_or_ne b a
    · simp [hnot]
    · rw [update_of_ne hb, ← hloc b]
      simp [hb]
    · simp [h.loc_head ha, Ne.symm hj]
    · rw [update_of_ne hb]

/-- A cell whose link leads to the head of a chain is put in front of it. -/
lemma push (ha : loc a = none) (hlink : link a = head i) :
    Chains link (update head i (some a)) (update loc a (some i)) := by
  obtain ⟨l, hl, hloc⟩ := h i
  refine h.overwrite (.cons (hlink ▸ hl)) (fun b => ?_) fun j hj b => ⟨?_, fun _ => rfl⟩ <;>
    obtain rfl | hb := eq_or_ne b a
  · simp
  · rw [update_of_ne hb, ← hloc b]
    simp [hb]
  · simp [ha, Ne.symm hj]
  · rw [update_of_ne hb]

/-- A cell is taken out of its chain by the link that leads to it. -/
lemma unlink {p : α} (hp : loc p = some i) (hnext : link p = some a) :
    Chains (update link p (link a)) head (update loc a none) := by
  have ha := h.loc_link hp hnext
  obtain ⟨l, hl, hloc⟩ := h i
  rw [← update_eq_self i head]
  refine h.overwrite (hl.unlink ((hloc p).mpr hp) hnext).2 (fun b => ?_) fun j hj b => ⟨?_, ?_⟩
  · rw [hl.nodup.mem_erase_iff, hloc]
    by_cases hb : b = a <;> simp [hb]
  · by_cases hb : b = a <;> simp [hb, ha, Ne.symm hj]
  · intro hb
    refine update_of_ne ?_ _ _
    rintro rfl
    exact hj (Option.some.inj (hb.symm.trans hp))

/-- A whole chain is put in front of another one. -/
lemma splice {j : ι} (hij : i ≠ j) {m : ℕ} (ha : head i = some a)
    (hw : tailOf link fuel a n = some (t, m)) : loc t = some i ∧ Chains (update link t (head j))
      (update (update head j (some a)) i none) (relocate loc i (some j)) := by
  obtain ⟨l, hl, hloc⟩ := h i
  obtain ⟨l2, hl2, hloc2⟩ := h j
  rw [ha] at hl
  obtain ⟨l1, rfl⟩ := tailOf_spec hl hw
  have ht : loc t = some i := (hloc t).mp (by simp)
  have hapart : ∀ b ∈ l1 ++ [t], b ∉ l2 := by
    intro b hb hb2
    rw [hloc] at hb
    rw [hloc2, hb] at hb2
    exact hij (Option.some.inj hb2)
  rw [update_comm hij.symm]
  refine ⟨ht, (h.drop i).overwrite (hl.append hl2 hapart) (fun b => ?_) fun k hk b => ⟨?_, ?_⟩⟩
  · have hsplit : b ∈ l1 ++ t :: l2 ↔ b ∈ l1 ++ [t] ∨ b ∈ l2 := by simp [or_assoc]
    rw [hsplit, hloc, hloc2]
    by_cases hb : loc b = some i <;> simp [relocate, hb]
  · by_cases hb : loc b = some i <;> simp [relocate, hb, Ne.symm hk]
  · intro hb
    refine update_of_ne ?_ _ _
    rintro rfl
    simp [relocate, ht] at hb

/-- Cells that were on no chain, linked in order, become the chain of a head that was null. -/
lemma fresh (hi : head i = none)
    (hnew : ∀ a ∈ l, loc a = none) (hsame : ∀ a, a ∉ l → link' a = link a) (hl : Chain link' hd l) :
    Chains link' (update head i hd) (fun a => if a ∈ l then some i else loc a) := by
  refine h.overwrite hl (fun b => ?_) fun j hj b => ⟨?_, fun hb => hsame b fun hmem => ?_⟩
  · by_cases hmem : b ∈ l <;> simp [hmem, h.loc_ne_of_empty hi b]
  · by_cases hmem : b ∈ l <;> simp [hmem, hnew, Ne.symm hj]
  · rw [hnew b hmem] at hb
    nomatch hb

end

end Chains

end LinkChain
