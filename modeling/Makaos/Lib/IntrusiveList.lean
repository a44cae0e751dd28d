import Mathlib.Tactic
import Mathlib.Data.List.Nodup

/-!
Doubly linked intrusive lists.

A node is an address of an arbitrary type, and a memory `α → Links α` holds the two link words
of every node.  The list head lives outside the nodes.

* `push`, `remove`, `pop`: the three operations, word by word.
* `IsDList mem head l`: the memory holds the list `l` behind `head`.
* `IsDList.push`, `IsDList.remove`, `IsDList.pop`: what the operations do to `l`.
* `IsDList.frame`: a list is not disturbed by writes to other nodes; together with
  `push_apply_of_notMem` and `remove_apply_of_notMem` this carries every other list that lives
  in the same memory through an operation.
-/

namespace IntrusiveList

open Function List Option
variable {α : Type*}
variable {l : List α} {head p : Option α} {a b : α}

/-- The two link words of a node, `none` for the null pointer. -/
structure Links (α : Type*) where
  next : Option α
  prev : Option α
  deriving DecidableEq

/-! ### The representation -/

/-- The links of `l` are those of a list whose first node has predecessor `p`. -/
def LinkedFrom (mem : α → Links α) : Option α → List α → Prop
  | _, [] => True
  | p, a :: l => mem a = ⟨l.head?, p⟩ ∧ LinkedFrom mem (some a) l

/-- The memory holds the list `l` behind `head`. -/
structure IsDList (mem : α → Links α) (head : Option α) (l : List α) : Prop where
  head_eq : head = l.head?
  nodup : l.Nodup
  linked : LinkedFrom mem none l

lemma LinkedFrom.frame {mem mem' : α → Links α} :
    ∀ {l : List α} {p : Option α}, LinkedFrom mem p l → (∀ a ∈ l, mem' a = mem a) →
      LinkedFrom mem' p l
  | [], _, _, _ => trivial
  | a :: l, _, h, hfr =>
    ⟨(hfr a (by simp)).trans h.1, h.2.frame fun b hb => hfr b (by simp [hb])⟩

lemma IsDList.frame {mem mem' : α → Links α} (h : IsDList mem head l)
    (hfr : ∀ a ∈ l, mem' a = mem a) : IsDList mem' head l :=
  ⟨h.head_eq, h.nodup, h.linked.frame hfr⟩

variable {mem : α → Links α}

lemma LinkedFrom.next_mem :
    ∀ {l : List α} {p : Option α}, LinkedFrom mem p l → ∀ {a b : α}, a ∈ l →
      (mem a).next = some b → b ∈ l
  | [], _, _, _, _, ha, _ => by simp at ha
  | c :: l, _, h, a, b, ha, hb => by
      rcases mem_cons.mp ha with rfl | ha
      · rw [h.1] at hb
        exact mem_cons_of_mem _ (mem_of_mem_head? hb)
      · exact mem_cons_of_mem _ (h.2.next_mem ha hb)

/-- The predecessor of a node of the list is on the list, or is the one the list starts from. -/
lemma LinkedFrom.prev_mem :
    ∀ {l : List α} {p : Option α}, LinkedFrom mem p l → ∀ {a b : α}, a ∈ l →
      (mem a).prev = some b → p = some b ∨ b ∈ l
  | [], _, _, _, _, ha, _ => by simp at ha
  | c :: l, p, h, a, b, ha, hb => by
      rcases mem_cons.mp ha with rfl | ha
      · rw [h.1] at hb
        exact .inl hb
      · rcases h.2.prev_mem ha hb with hc | hbl
        · exact .inr (by simp [some.inj hc])
        · exact .inr (mem_cons_of_mem _ hbl)

lemma IsDList.next_mem (h : IsDList mem head l) (ha : a ∈ l) (hb : (mem a).next = some b) : b ∈ l :=
  h.linked.next_mem ha hb

lemma IsDList.prev_mem (h : IsDList mem head l) (ha : a ∈ l)
    (hb : (mem a).prev = some b) : b ∈ l := by
  rcases h.linked.prev_mem ha hb with h0 | hbl
  · nomatch h0
  · exact hbl

lemma LinkedFrom.prev_isSome :
    ∀ {l : List α} {c : α}, LinkedFrom mem (some c) l → a ∈ l → (mem a).prev.isSome
  | d :: l, c, h, ha => by
      rcases mem_cons.mp ha with rfl | ha
      · simp [h.1]
      · exact h.2.prev_isSome ha

/-! ### The operations -/

variable [DecidableEq α] {v : Option α}

/-- Store to the `prev` word of the node a pointer names, if it names one. -/
def setPrev (mem : α → Links α) (p : Option α) (v : Option α) : α → Links α :=
  match p with
  | none => mem
  | some a => update mem a { mem a with prev := v }

/-- Store to the `next` word of the node a pointer names, if it names one. -/
def setNext (mem : α → Links α) (p : Option α) (v : Option α) : α → Links α :=
  match p with
  | none => mem
  | some a => update mem a { mem a with next := v }

/-- Link `a` in front of the head. -/
def push (mem : α → Links α) (head : Option α) (a : α) : (α → Links α) × Option α :=
  (setPrev (update mem a ⟨head, none⟩) head (some a), some a)

/-- Unlink `a` from the list it is on: the predecessor, or the head if there is none, takes over
its `next`, the successor its `prev`, and its own words are cleared. -/
def remove (mem : α → Links α) (head : Option α) (a : α) : (α → Links α) × Option α :=
  let n := (mem a).next
  let p := (mem a).prev
  let head' := if p.isSome then head else n
  (update (setPrev (setNext mem p n) n p) a ⟨none, none⟩, head')

/-- Unlink the first node `a`: the head takes over its `next`, whose `prev` becomes null. -/
def pop (mem : α → Links α) (a : α) : (α → Links α) × Option α :=
  let n := (mem a).next
  (update (setPrev mem n none) a ⟨none, none⟩, n)

lemma setPrev_apply_of_ne (h : p ≠ some b) : setPrev mem p v b = mem b := by
  cases p with
  | none => rfl
  | some a =>
    have hba : b ≠ a := fun hb => h (by rw [hb])
    simp [setPrev, update_of_ne hba]

lemma setNext_apply_of_ne (h : p ≠ some b) : setNext mem p v b = mem b := by
  cases p with
  | none => rfl
  | some a =>
    have hba : b ≠ a := fun hb => h (by rw [hb])
    simp [setNext, update_of_ne hba]

/-! ### Push -/

/-- A push writes to the pushed node and to nodes of its own list only. -/
lemma push_apply_of_notMem (h : IsDList mem head l) (hba : b ≠ a) (hbl : b ∉ l) :
    (push mem head a).1 b = mem b := by
  have hhead : head ≠ some b := by
    rw [h.head_eq]
    exact fun hb => hbl (mem_of_mem_head? hb)
  simp only [push]
  rw [setPrev_apply_of_ne hhead, update_of_ne hba]

/-- The links of a list once a new node `p` stands before it. -/
lemma LinkedFrom.reprev {q : Option α} (h : LinkedFrom mem p l) (hnd : l.Nodup) :
    LinkedFrom (setPrev mem l.head? q) q l := by
  cases l with
  | nil => trivial
  | cons a l =>
    have hal : a ∉ l := (nodup_cons.mp hnd).1
    refine ⟨?_, h.2.frame fun b hb => ?_⟩
    · simp [setPrev, h.1]
    · have hba : some a ≠ some b := fun hab => hal (by rwa [some.inj hab])
      exact setPrev_apply_of_ne hba

/-- **Push** puts a node that is not on the list in front of it. -/
lemma IsDList.push (h : IsDList mem head l) (ha : a ∉ l) :
    IsDList (push mem head a).1 (push mem head a).2 (a :: l) := by
  have hupd : LinkedFrom (update mem a ⟨head, none⟩) none l :=
    h.linked.frame fun b hb =>
      update_of_ne (fun hba : b = a => ha (hba ▸ hb)) _ _
  refine ⟨rfl, nodup_cons.mpr ⟨ha, h.nodup⟩, ?_, ?_⟩
  · have hhead : head ≠ some a := by
      rw [h.head_eq]
      exact fun hb => ha (mem_of_mem_head? hb)
    simp only [IntrusiveList.push]
    rw [setPrev_apply_of_ne hhead, update_self, h.head_eq]
  · have hre := hupd.reprev h.nodup (q := some a)
    rwa [← h.head_eq] at hre

/-! ### Remove and pop -/

lemma remove_apply_of_notMem (h : IsDList mem head l) (ha : a ∈ l) (hbl : b ∉ l) :
    (remove mem head a).1 b = mem b := by
  have hba : b ≠ a := fun hb => hbl (hb ▸ ha)
  have hn : (mem a).next ≠ some b := fun hb => hbl (h.next_mem ha hb)
  have hp : (mem a).prev ≠ some b := fun hb => hbl (h.prev_mem ha hb)
  simp only [remove]
  rw [update_of_ne hba, setPrev_apply_of_ne hn, setNext_apply_of_ne hp]

lemma pop_eq_remove (h : IsDList mem head (a :: l)) : pop mem a = remove mem head a := by
  have hp : (mem a).prev = none := by rw [h.linked.1]
  simp [pop, remove, hp, setNext]

/-- The removal of `a` from behind `p`, on the links alone. -/
lemma LinkedFrom.remove_aux :
    ∀ {l : List α} {p : Option α}, LinkedFrom mem p l → l.Nodup → a ∈ l →
      (∀ b, p = some b → b ∉ l) →
      LinkedFrom (update
        (setPrev (setNext mem (mem a).prev (mem a).next) (mem a).next (mem a).prev) a ⟨none, none⟩)
        p (l.erase a)
  | [], _, _, _, ha, _ => by simp at ha
  | c :: l, p, h, hnd, ha, hpl => by
      obtain ⟨hcl, hndl⟩ := nodup_cons.mp hnd
      by_cases hca : c = a
      · -- `a` is the first node: only its successor is rewritten
        subst hca
        have hmem : mem c = ⟨l.head?, p⟩ := h.1
        have hp : ∀ b ∈ l, p ≠ some b := fun b hb hpb =>
          hpl b hpb (mem_cons_of_mem _ hb)
        rw [erase_cons_head, hmem]
        refine ((h.2.reprev hndl (q := p))).frame fun b hb => ?_
        have hbc : b ≠ c := fun hbc => hcl (hbc ▸ hb)
        rw [update_of_ne hbc]
        by_cases hhd : l.head? = some b
        · simp only [hhd, setPrev, update_self]
          rw [setNext_apply_of_ne (hp b hb)]
        · rw [setPrev_apply_of_ne hhd, setPrev_apply_of_ne hhd, setNext_apply_of_ne (hp b hb)]
      · have hal : a ∈ l := (mem_cons.mp ha).resolve_left fun hac => hca hac.symm
        have hne : (c :: l).erase a = c :: l.erase a := erase_cons_tail (by simpa using hca)
        have hpc : ∀ b, some c = some b → b ∉ l := fun b hb => by
          rw [← some.inj hb]; exact hcl
        rw [hne]
        refine ⟨?_, h.2.remove_aux hndl hal hpc⟩
        have hnc : (mem a).next ≠ some c := fun hb => hcl (h.2.next_mem hal hb)
        rw [update_of_ne hca, setPrev_apply_of_ne hnc]
        cases l with
        | nil => simp at hal
        | cons d l =>
          by_cases hda : d = a
          · -- `c` is the predecessor of `a`
            subst hda
            have hd : mem d = ⟨l.head?, some c⟩ := h.2.1
            simp [hd, setNext, h.1]
          · have hprev : (mem a).prev ≠ some c := by
              have hal' : a ∈ l := (mem_cons.mp hal).resolve_left fun hac => hda hac.symm
              intro hb
              rcases h.2.2.prev_mem hal' hb with hdc | hcl'
              · exact hcl (by simp [some.inj hdc])
              · exact hcl (mem_cons_of_mem _ hcl')
            rw [setNext_apply_of_ne hprev, h.1, erase_cons_tail (by simpa using hda)]
            rfl

/-- **Remove** takes a node off the list it is on. -/
lemma IsDList.remove (h : IsDList mem head l) (ha : a ∈ l) :
    IsDList (remove mem head a).1 (remove mem head a).2 (l.erase a) := by
  refine ⟨?_, h.nodup.erase a, ?_⟩
  · cases l with
    | nil => simp at ha
    | cons c l =>
      by_cases hca : c = a
      · subst hca
        simp [IntrusiveList.remove, h.linked.1]
      · have hal : a ∈ l := (mem_cons.mp ha).resolve_left fun hac => hca hac.symm
        have hsome := h.linked.2.prev_isSome hal
        rw [erase_cons_tail (by simpa using hca)]
        simp [IntrusiveList.remove, hsome, h.head_eq]
  · exact h.linked.remove_aux h.nodup ha (nofun)

end IntrusiveList
