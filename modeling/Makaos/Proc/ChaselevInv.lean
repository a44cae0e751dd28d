import Makaos.Proc.Chaselev

/-!
The invariant of a work-stealing deque with one owner, for whoever the owner and the thieves are.

* `OwnerOk`, `ThiefOk`: what the calls under way know.
* `Inv`: the elements `l` in the slots, and the one in the owner's `hand`.
* `Inv.owner_next`, `Inv.owner_done`, `Inv.thief_next`, `Inv.thief_done`: **every memory access keeps
  the invariant, and every return is an event of the sequential deque.**
-/

namespace Makaos.Chaselev

open Function Deque List Option Nat
open SeqDeque WrapIndex

variable {α ι : Type*} {q q' : Deque α} {l : List α} {hand : Option α} {o : Option (OwnerPc α)}
  {th : ι → Option (ThiefPc α)} {p p' : OwnerPc α} {i : ι} {r : OwnerRet α} {t : BitVec 64}
  {b : BitVec 64} {l' : List α}

/-! ### Indices and slots -/

lemma slotOf_index (n : ℕ) : slotOf (index 64 n) = n % cap := by
  have hmask : (511#64).toNat = 2 ^ 9 - 1 := rfl
  rw [slotOf, mask, BitVec.toNat_and, hmask, and_two_pow_sub_one_eq_mod, index,
    BitVec.toNat_ofNat]
  exact mod_mod_of_dvd n (by decide : 2 ^ 9 ∣ 2 ^ 64)

/-- The index behind the newest element. -/
def Deque.ending (q : Deque α) (l : List α) : BitVec 64 := index 64 (q.advances + l.length)

/-- What the owner knows. -/
def OwnerOk (q : Deque α) (l : List α) (hand : Option α) : Option (OwnerPc α) → Prop
  | none | some (.pushLoadBottom _) | some .popLoadBottom => q.bottom = q.ending l ∧ hand = none
  | some (.pushLoadTop _ b) => q.bottom = q.ending l ∧ b = q.ending l ∧ hand = none
  | some (.pushStoreSlot _ b) =>
    q.bottom = q.ending l ∧ b = q.ending l ∧ hand = none ∧ l.length < cap
  | some (.pushStoreBottom v b) =>
    q.bottom = q.ending l ∧ b = q.ending l ∧ hand = none ∧ l.length < cap ∧
      q.slots ((q.advances + l.length) % cap) = some v
  | some (.popStoreBottom b) => q.bottom = q.ending l ∧ b + 1 = q.ending l ∧ hand = none
  | some (.popLoadTop b) => q.bottom = b ∧ b + 1 = q.ending l ∧ hand = none
  | some (.popLoadSlot b t) =>
    if t = b then
      -- the last element, unless a thief has taken it in the meantime
      q.bottom = b ∧ b + 1 = q.ending l ∧ hand = none ∧
        (l.length = 1 ∧ q.top = t ∨ l = [] ∧ q.top ≠ t)
    else q.bottom = b ∧ b = q.ending l ∧ hand ≠ none ∧ q.slots (slotOf b) = hand
  | some (.popCas b t v) =>
    q.bottom = b ∧ b + 1 = q.ending l ∧ hand = none ∧
      ((∃ x, l = [x] ∧ v = some x) ∧ q.top = t ∨ l = [] ∧ q.top ≠ t)
  | some (.popRestore b v) => q.bottom = b ∧ b + 1 = q.ending l ∧ l = [] ∧ hand = v

/-- What a thief knows: if nobody has taken the oldest element since it looked, there is one, and it
has read it. -/
def ThiefOk (q : Deque α) (l : List α) : ThiefPc α → Prop
  | .loadTop => True
  | .loadBottom t seen => seen ≤ q.advances ∧ t = index 64 seen
  | .loadSlot t seen =>
    seen ≤ q.advances ∧ t = index 64 seen ∧ (seen = q.advances → l ≠ [])
  | .cas t v seen =>
    seen ≤ q.advances ∧ t = index 64 seen ∧ (seen = q.advances → v ≠ none ∧ l.head? = v)

/-- The invariant of a deque with elements `l`. -/
structure Inv (q : Deque α) (o : Option (OwnerPc α)) (th : ι → Option (ThiefPc α)) (l : List α)
    (hand : Option α) : Prop where
  top : q.top = index 64 q.advances
  length_le : l.length ≤ cap
  slots : ∀ k x, l[k]? = some x → q.slots ((q.advances + k) % cap) = some x
  owner : OwnerOk q l hand o
  thieves : ∀ i p, th i = some p → ThiefOk q l p

/-- The deque is empty at first. -/
lemma Inv.init (h : ∀ i, th i = none) : Inv ⟨0, 0, fun _ => none, 0⟩ none th ([] : List α) none where
  top := rfl
  length_le := zero_le _
  slots k x h := by simp at h
  owner := ⟨rfl, rfl⟩
  thieves i p hp := by simp [h] at hp

/-! ### What follows from it -/

lemma two_mul_lt {n : ℕ} (h : n ≤ cap) : 2 * n < 2 ^ 64 := by
  unfold cap at h
  omega

lemma OwnerOk.bottom (h : OwnerOk q l hand o) :
    q.bottom = q.ending l ∨ q.bottom + 1 = q.ending l := by
  cases o with
  | none => exact .inl h.1
  | some p =>
    cases p with
    | pushLoadBottom v | popLoadBottom => exact .inl h.1
    | pushLoadTop v b | pushStoreSlot v b | pushStoreBottom v b | popStoreBottom b =>
      exact .inl h.1
    | popLoadTop b =>
      rw [h.1]
      exact .inr h.2.1
    | popLoadSlot b t =>
      simp only [OwnerOk] at h
      split at h
      · rw [h.1]
        exact .inr h.2.1
      · rw [h.1]
        exact .inl h.2.1
    | popCas b t v | popRestore b v =>
      rw [h.1]
      exact .inr h.2.1

lemma ThiefOk.of_head {p : ThiefPc α} (h : ThiefOk q l p)
    (hadv : q'.advances = q.advances) (hhead : l ≠ [] → l'.head? = l.head?) : ThiefOk q' l' p := by
  have hne : l ≠ [] → l' ≠ [] := by
    rintro hl rfl
    have := hhead hl
    cases l with
    | nil => exact hl rfl
    | cons x l => cases this
  cases p with
  | loadTop => trivial
  | loadBottom t seen =>
    simp only [ThiefOk, hadv]
    exact h
  | loadSlot t seen =>
    simp only [ThiefOk, hadv]
    exact ⟨h.1, h.2.1, fun heq => hne (h.2.2 heq)⟩
  | cas t v seen =>
    simp only [ThiefOk, hadv]
    refine ⟨h.1, h.2.1, fun heq => ?_⟩
    obtain ⟨hv, hl⟩ := h.2.2 heq
    refine ⟨hv, (hhead ?_).trans hl⟩
    rintro rfl
    exact hv hl.symm

/-- Once the oldest element is taken, what the thieves have read does not matter any more. -/
lemma ThiefOk.of_advance {p : ThiefPc α} (h : ThiefOk q l p) : ThiefOk (q.advance t) l' p := by
  have hadv : (q.advance t).advances = q.advances + 1 := rfl
  cases p with
  | loadTop => trivial
  | loadBottom t seen => exact ⟨h.1.trans (le_succ _), h.2⟩
  | loadSlot t seen | cas t v seen =>
    refine ⟨h.1.trans (le_succ _), h.2.1, fun heq => ?_⟩
    have := h.1
    omega

/-- A thief takes the oldest element: an owner that was after the same one will see it. -/
lemma OwnerOk.advance {x : α} (h : OwnerOk q (x :: l) hand o) (ht : q.top = t) :
    OwnerOk (q.advance t) l hand o := by
  have hend : (q.advance t).ending l = q.ending (x :: l) := by
    simp only [Deque.ending, Deque.advance, length_cons]
    congr 1
    omega
  have hmoved : (q.advance t).top ≠ t := by
    show t + 1 ≠ t
    simp
  cases o with
  | none => exact ⟨by rw [hend]; exact h.1, h.2⟩
  | some p =>
    cases p with
    | pushLoadBottom v | popLoadBottom => exact ⟨by rw [hend]; exact h.1, h.2⟩
    | pushLoadTop v b | popStoreBottom b =>
      exact ⟨by rw [hend]; exact h.1, by rw [hend]; exact h.2.1, h.2.2⟩
    | pushStoreSlot v b =>
      exact ⟨by rw [hend]; exact h.1, by rw [hend]; exact h.2.1, h.2.2.1,
        (lt_succ_self _).trans h.2.2.2⟩
    | pushStoreBottom v b =>
      obtain ⟨hb, hbe, hhand, hlt, hslot⟩ := h
      refine ⟨by rw [hend]; exact hb, by rw [hend]; exact hbe, hhand,
        (lt_succ_self _).trans hlt, ?_⟩
      show q.slots ((q.advances + 1 + l.length) % cap) = some v
      rwa [add_assoc, add_comm 1]
    | popLoadTop b => exact ⟨h.1, by rw [hend]; exact h.2.1, h.2.2⟩
    | popLoadSlot b t' =>
      simp only [OwnerOk] at h ⊢
      split_ifs with hbt
      · rw [if_pos hbt] at h
        obtain ⟨hb, hbe, hhand, hlast⟩ := h
        refine ⟨hb, by rw [hend]; exact hbe, hhand, ?_⟩
        rcases hlast with ⟨hlen, htop⟩ | ⟨hnil, -⟩
        · refine .inr ⟨length_eq_zero_iff.1 (succ.inj hlen), ?_⟩
          rwa [← htop, ht]
        · cases hnil
      · rw [if_neg hbt] at h
        exact ⟨h.1, by rw [hend]; exact h.2.1, h.2.2⟩
    | popCas b t' v =>
      obtain ⟨hb, hbe, hhand, hlast⟩ := h
      refine ⟨hb, by rw [hend]; exact hbe, hhand, ?_⟩
      rcases hlast with ⟨⟨y, hy, -⟩, htop⟩ | ⟨hnil, -⟩
      · refine .inr ⟨(cons.inj hy).2, ?_⟩
        rwa [← htop, ht]
      · cases hnil
    | popRestore b v =>
      cases h.2.2.1

lemma Inv.setOwner {o' : Option (OwnerPc α)} (h : Inv q o th l hand)
    (ho : OwnerOk { q with bottom := b } l hand o') : Inv { q with bottom := b } o' th l hand :=
  { h with
    owner := ho
    thieves := fun i p hp => (h.thieves i p hp).of_head rfl fun _ => rfl }

/-- With no call of the owner under way, the slots have the elements. -/
lemma contents_eq (h : Inv q none th l hand) : q.contents = l.map some := by
  have hlen : (q.bottom - q.top).toNat = l.length := by
    have hle := two_mul_lt h.length_le
    rw [h.top, h.owner.1, ending, index_add, BitVec.add_comm, BitVec.add_sub_cancel, index,
      BitVec.toNat_ofNat, mod_eq_of_lt (by omega)]
  refine ext_getElem? fun k => ?_
  rw [contents, hlen, getElem?_map, getElem?_map]
  by_cases hk : k < l.length
  · have hslot := h.slots k l[k] (getElem?_eq_getElem hk)
    rw [getElem?_range hk, getElem?_eq_getElem hk, map_some, map_some, h.top]
    show some (q.slots (slotOf (index 64 q.advances + index 64 k))) = _
    rw [← index_add, slotOf_index, hslot]
  · rw [getElem?_eq_none (by simpa using hk), getElem?_eq_none (not_lt.1 hk)]
    rfl

lemma Inv.start (h : Inv q none th l hand) (hp : p.begun = false) : Inv q (some p) th l hand := by
  cases p with
  | pushLoadBottom v | popLoadBottom => exact { h with owner := h.owner }
  | _ => cases hp

/-- After a memory access that is not the last one, the call has begun and pushes what it did. -/
lemma ownerRun_next (hrun : ownerRun q p = (q', .inl p')) :
    p'.begun = true ∧ p'.pushing = p.pushing := by
  cases p with
  | pushLoadBottom v | pushStoreSlot v b | popLoadBottom | popStoreBottom b =>
    cases hrun
    exact ⟨rfl, rfl⟩
  | pushLoadTop v b | popLoadTop b | popLoadSlot b t | popCas b t v =>
    simp only [ownerRun] at hrun
    split at hrun <;> cases hrun <;> exact ⟨rfl, rfl⟩
  | pushStoreBottom v b | popRestore b v => cases hrun

/-- A push returns the element it was called with, and a pop was not a push. -/
lemma ownerRun_done (hrun : ownerRun q p = (q', .inr r)) :
    (∀ v, r = .pushed v → p.pushing = some v) ∧ (∀ v, r = .popped v → p.pushing = none) := by
  cases p with
  | pushLoadBottom v | pushStoreSlot v b | popLoadBottom | popStoreBottom b => cases hrun
  | pushLoadTop v b =>
    simp only [ownerRun] at hrun
    split at hrun <;> cases hrun
    exact ⟨nofun, nofun⟩
  | popLoadTop b | popCas b t v =>
    simp only [ownerRun] at hrun
    split at hrun <;> cases hrun
  | popLoadSlot b t =>
    simp only [ownerRun] at hrun
    split at hrun <;> cases hrun
    exact ⟨nofun, fun _ _ => rfl⟩
  | pushStoreBottom v b =>
    cases hrun
    refine ⟨?_, nofun⟩
    rintro _ ⟨⟩
    rfl
  | popRestore b v =>
    cases hrun
    exact ⟨nofun, fun _ _ => rfl⟩

/-! ### The owner -/

/-- `pop` has read `top`: if there is more than one element, the last one is now in the owner's
hand. -/
lemma Inv.popLoadTop (h : Inv q (some (.popLoadTop b)) th l hand)
    (hrun : ownerRun q (.popLoadTop b) = (q', .inl p')) :
    ∃ l' hand', Inv q' (some p') th l' hand' ∧ l' ++ hand'.toList = l ++ hand.toList := by
  obtain ⟨hb, hend, rfl⟩ := h.owner
  simp only [ownerRun] at hrun
  rcases eq_nil_or_concat l with rfl | ⟨l', x, rfl⟩
  · -- nothing there: `top` is one ahead of `b`
    have hpos : ¬ (q.top - b).toInt ≤ 0 := by
      rw [h.top, show index 64 q.advances = b + 1 from hend.symm, BitVec.add_comm,
        BitVec.add_sub_cancel]
      decide
    rw [if_neg hpos] at hrun
    cases hrun
    exact ⟨[], none, h.setOwner ⟨hb, hend, rfl, rfl⟩, rfl⟩
  · have hlen := h.length_le
    rw [concat_eq_append] at *
    rw [length_append, length_singleton] at hlen
    have hbq : b = index 64 (q.advances + l'.length) := by
      rw [ending, length_append, length_singleton, ← add_assoc, index_succ] at hend
      exact add_right_cancel hend
    have hneg : (q.top - b).toInt ≤ 0 := by
      rw [h.top, hbq, toInt_behind _ (two_mul_lt (by omega))]
      omega
    rw [if_pos hneg] at hrun
    cases hrun
    by_cases hzero : l'.length = 0
    · -- the last element
      obtain rfl := length_eq_zero_iff.1 hzero
      refine ⟨[x], none, h.setOwner ?_, rfl⟩
      have htop : q.top = b := by rw [h.top, hbq]; rfl
      simp only [OwnerOk, htop, if_true]
      exact ⟨hb, hend, trivial, .inl ⟨rfl, trivial⟩⟩
    · have htop : q.top ≠ b := by
        rw [h.top, hbq]
        intro heq
        have := index_inj (by omega) (by unfold cap at hlen; omega) heq
        omega
      have hlast : q.slots (slotOf b) = some x := by
        rw [hbq, slotOf_index]
        exact h.slots l'.length x (by simp)
      refine ⟨l', some x, ?_, by simp⟩
      constructor
      case top => exact h.top
      case length_le => omega
      case slots =>
        intro k y hk
        have hlt : k < l'.length := (List.getElem?_eq_some_iff.1 hk).1
        exact h.slots k y (by rw [List.getElem?_append_left hlt, hk])
      case owner =>
        simp only [OwnerOk, if_neg htop]
        exact ⟨hb, hbq, some_ne_none x, hlast⟩
      case thieves =>
        refine fun i p hp => (h.thieves i p hp).of_head rfl fun _ => ?_
        cases l' with
        | nil => exact absurd rfl hzero
        | cons y l' => rfl

lemma Inv.owner_next (h : Inv q (some p) th l hand) (hrun : ownerRun q p = (q', .inl p')) :
    ∃ l' hand', Inv q' (some p') th l' hand' ∧ l' ++ hand'.toList = l ++ hand.toList := by
  have ho := h.owner
  cases p with
  | pushLoadBottom v =>
    cases hrun
    exact ⟨l, hand, h.setOwner ⟨ho.1, ho.1, ho.2⟩, rfl⟩
  | pushLoadTop v b =>
    simp only [ownerRun] at hrun
    split_ifs at hrun with hlt
    · cases hrun
    · cases hrun
      refine ⟨l, hand, h.setOwner ⟨ho.1, ho.2.1, ho.2.2, ?_⟩, rfl⟩
      rw [ho.2.1, ending, h.top, toInt_ahead _ (two_mul_lt h.length_le)] at hlt
      omega
  | pushStoreSlot v b =>
    cases hrun
    obtain ⟨hb, rfl, hhand, hlt⟩ := ho
    have hslot : slotOf (q.ending l) = (q.advances + l.length) % cap := slotOf_index _
    refine ⟨l, hand, { h with slots := ?slots, owner := ?owner, thieves := ?thieves }, rfl⟩
    case slots =>
      intro k x hk
      have hlen : k < l.length := (List.getElem?_eq_some_iff.1 hk).1
      -- the ring is not full, so the slot is not one of those in use
      have hne : (q.advances + k) % cap ≠ (q.advances + l.length) % cap := by
        unfold cap at hlt ⊢
        omega
      show update q.slots _ _ _ = _
      rw [hslot, update_of_ne hne]
      exact h.slots k x hk
    case owner =>
      refine ⟨hb, rfl, hhand, hlt, ?_⟩
      show update q.slots _ _ _ = _
      rw [hslot]
      exact update_self _ _ _
    case thieves => exact fun i p hp => (h.thieves i p hp).of_head rfl fun _ => rfl
  | pushStoreBottom v b => cases hrun
  | popLoadBottom =>
    cases hrun
    refine ⟨l, hand, h.setOwner ⟨ho.1, ?_, ho.2⟩, rfl⟩
    show q.bottom - 1 + 1 = q.ending l
    rw [BitVec.sub_add_cancel, ho.1]
  | popStoreBottom b =>
    cases hrun
    exact ⟨l, hand, h.setOwner ⟨rfl, ho.2.1, ho.2.2⟩, rfl⟩
  | popLoadTop b => exact h.popLoadTop hrun
  | popLoadSlot b t =>
    simp only [ownerRun] at hrun
    split at hrun
    case isFalse => cases hrun
    case isTrue ht =>
      cases hrun
      subst ht
      simp only [OwnerOk, if_true] at ho
      obtain ⟨hb, hend, rfl, hlast⟩ := ho
      refine ⟨l, none, h.setOwner ⟨hb, hend, rfl, ?_⟩, rfl⟩
      rcases hlast with ⟨hlen, htop⟩ | hgone
      · obtain ⟨x, rfl⟩ := length_eq_one_iff.1 hlen
        have hslot := h.slots 0 x rfl
        refine .inl ⟨⟨x, rfl, ?_⟩, htop⟩
        rwa [← htop, h.top, slotOf_index]
      · exact .inr hgone
  | popCas b t v =>
    obtain ⟨hb, hend, rfl, hlast⟩ := ho
    simp only [ownerRun] at hrun
    split_ifs at hrun with htop
    · cases hrun
      rcases hlast with ⟨⟨x, rfl, rfl⟩, -⟩ | ⟨-, hne⟩
      · have hnew : Inv (q.advance t) (some (.popRestore b (some x))) th [] (some x) := by
          constructor
          case top =>
            show t + 1 = index 64 (q.advances + 1)
            rw [← htop, h.top, index_succ]
          case length_le => exact zero_le _
          case slots => exact fun k y hk => by simp at hk
          case owner => exact ⟨hb, hend, rfl, rfl⟩
          case thieves => exact fun i p hp => (h.thieves i p hp).of_advance
        exact ⟨[], some x, hnew, rfl⟩
      · exact absurd htop hne
    · cases hrun
      rcases hlast with ⟨-, heq⟩ | ⟨rfl, -⟩
      · exact absurd heq htop
      · exact ⟨[], none, h.setOwner ⟨hb, hend, rfl, rfl⟩, rfl⟩
  | popRestore b v => cases hrun

lemma Inv.owner_done (h : Inv q (some p) th l hand) (hrun : ownerRun q p = (q', .inr r)) :
    ∃ l', Inv q' none th l' none ∧ Step cap (l ++ hand.toList) r.event l' := by
  have ho := h.owner
  cases p with
  | pushLoadBottom v | pushStoreSlot v b | popLoadBottom | popStoreBottom b => cases hrun
  | pushLoadTop v b =>
    simp only [ownerRun] at hrun
    split_ifs at hrun with hge
    · cases hrun
      obtain ⟨hb, rfl, rfl⟩ := ho
      rw [ending, h.top, toInt_ahead _ (two_mul_lt h.length_le)] at hge
      have hle := h.length_le
      refine ⟨l, h.setOwner ⟨hb, rfl⟩, ?_⟩
      rw [toList_none, append_nil]
      exact .full (by omega)
    · cases hrun
  | pushStoreBottom v b =>
    cases hrun
    obtain ⟨hb, rfl, rfl, hlt, hslot⟩ := ho
    have hlen : (l ++ [v]).length = l.length + 1 := by simp
    refine ⟨l ++ [v], ?_, ?_⟩
    · constructor
      case top => exact h.top
      case length_le =>
        rwa [hlen]
      case slots =>
        intro k x hk
        by_cases hkl : k < l.length
        · rw [getElem?_append_left hkl] at hk
          exact h.slots k x hk
        · rw [List.getElem?_append_right (not_lt.1 hkl)] at hk
          obtain ⟨hzero, hx⟩ := List.getElem?_eq_some_iff.1 hk
          have hk : k = l.length := by
            rw [List.length_singleton] at hzero
            omega
          subst hk
          simp only [Nat.sub_self, getElem_cons_zero] at hx
          rwa [← hx]
      case owner =>
        refine ⟨?_, rfl⟩
        show q.ending l + 1 = index 64 (q.advances + (l ++ [v]).length)
        rw [hlen, ← add_assoc, index_succ]
        rfl
      case thieves =>
        refine fun i p hp => (h.thieves i p hp).of_head rfl fun hne => ?_
        cases l with
        | nil => exact absurd rfl hne
        | cons x l => rfl
    · rw [toList_none, append_nil]
      exact .push hlt
  | popLoadTop b | popCas b t v =>
    simp only [ownerRun] at hrun
    split at hrun <;> cases hrun
  | popLoadSlot b t =>
    simp only [ownerRun] at hrun
    split_ifs at hrun with hne
    · cases hrun
    · cases hrun
      simp only [OwnerOk, if_neg hne] at ho
      obtain ⟨hb, hend, hhand, hslot⟩ := ho
      obtain ⟨x, rfl⟩ := ne_none_iff_exists'.1 hhand
      refine ⟨l, { h with owner := ⟨?_, rfl⟩ }, ?_⟩
      · rw [hb, hend]
      · rw [hslot]
        exact .pop
  | popRestore b v =>
    cases hrun
    obtain ⟨hb, hend, rfl, rfl⟩ := ho
    have hnew : Inv { q with bottom := b + 1 } none th [] none :=
      { h with
        owner := ⟨hend, rfl⟩
        thieves := fun i p hp => (h.thieves i p hp).of_head rfl fun _ => rfl }
    refine ⟨[], hnew, ?_⟩
    cases hand with
    | none => exact .empty
    | some x => exact .pop (l := [])

/-! ### The thieves -/

section

variable [DecidableEq ι] {p p' : ThiefPc α}

lemma Inv.setThief {x : Option (ThiefPc α)} (h : Inv q o th l hand)
    (hx : ∀ p, x = some p → ThiefOk q l p) : Inv q o (update th i x) l hand := by
  refine { h with thieves := ?_ }
  exact (forall_update_iff th fun _ x => ∀ p, x = some p → ThiefOk q l p).mpr
    ⟨hx, fun j _ => h.thieves j⟩

lemma Inv.thief_next (h : Inv q o th l hand) (hp : th i = some p)
    (hrun : thiefRun q p = (q', .inl p')) : q' = q ∧ Inv q o (update th i (some p')) l hand := by
  have hok := h.thieves i p hp
  cases p with
  | loadTop =>
    cases hrun
    refine ⟨rfl, h.setThief ?_⟩
    rintro _ ⟨⟩
    exact ⟨le_rfl, h.top⟩
  | loadBottom t seen =>
    simp only [thiefRun] at hrun
    split_ifs at hrun with hlt
    · cases hrun
    · cases hrun
      refine ⟨rfl, h.setThief ?_⟩
      rintro _ ⟨⟩
      refine ⟨hok.1, hok.2, ?_⟩
      rintro rfl rfl
      -- the deque is empty: `bottom` is not ahead of `top`
      have hend : q.ending ([] : List α) = t := by rw [hok.2]; rfl
      rcases h.owner.bottom with hb | hb
      · rw [hb, hend, BitVec.sub_self] at hlt
        exact hlt (by decide)
      · rw [← hend, ← hb, BitVec.add_comm, BitVec.add_sub_cancel] at hlt
        exact hlt (by decide)
  | loadSlot t seen =>
    cases hrun
    refine ⟨rfl, h.setThief ?_⟩
    rintro _ ⟨⟩
    refine ⟨hok.1, hok.2.1, ?_⟩
    rintro rfl
    obtain ⟨x, l, rfl⟩ := exists_cons_of_ne_nil (hok.2.2 rfl)
    have hslot := h.slots 0 x rfl
    rw [hok.2.1, slotOf_index]
    rw [add_zero] at hslot
    rw [hslot]
    exact ⟨some_ne_none x, rfl⟩
  | cas t v seen =>
    simp only [thiefRun] at hrun
    split at hrun <;> cases hrun

/-- The last memory access of a steal, if the indices have not gone around in the meantime. -/
lemma Inv.thief_done {r : ThiefRet α} (h : Inv q o th l hand) (hp : th i = some p)
    (hfresh : ∀ t v seen, p = .cas t v seen → q.advances < seen + 2 ^ 64)
    (hrun : thiefRun q p = (q', .inr r)) :
    ∃ l', Inv q' o (update th i none) l' hand ∧
      match r.event? with
      | none => l' = l
      | some e => Step cap (l ++ hand.toList) e (l' ++ hand.toList) := by
  have hok := h.thieves i p hp
  cases p with
  | loadTop | loadSlot t seen => cases hrun
  | loadBottom t seen =>
    simp only [thiefRun] at hrun
    split at hrun
    · cases hrun
      exact ⟨l, h.setThief nofun, rfl⟩
    · cases hrun
  | cas t v seen =>
    simp only [thiefRun] at hrun
    split at hrun
    case isFalse =>
      cases hrun
      exact ⟨l, h.setThief nofun, rfl⟩
    case isTrue htop =>
      cases hrun
      -- `top` has the value it was read with, so it has not moved
      have hseen : seen = q.advances := by
        refine index_inj hok.1 (hfresh t v seen rfl) ?_
        rw [← hok.2.1, ← htop, h.top]
      obtain ⟨hv, hhead⟩ := hok.2.2 hseen
      obtain ⟨x, rfl⟩ := ne_none_iff_exists'.1 hv
      obtain ⟨l', rfl⟩ : ∃ l', l = x :: l' := by
        cases l with
        | nil => cases hhead
        | cons y l' => exact ⟨l', by rw [some.inj hhead]⟩
      refine ⟨l', ?_, .steal⟩
      constructor
      case top =>
        show t + 1 = index 64 (q.advances + 1)
        rw [← htop, h.top, index_succ]
      case length_le => exact (le_succ _).trans h.length_le
      case slots =>
        intro k y hk
        show q.slots ((q.advances + 1 + k) % cap) = some y
        rw [add_assoc, add_comm 1 k]
        exact h.slots (k + 1) y hk
      case owner => exact h.owner.advance htop
      case thieves =>
        exact fun j p hj => (h.thieves j p (Transition.of_update hj nofun)).of_advance

end

end Makaos.Chaselev
