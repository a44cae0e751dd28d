import Makaos.Lib.LinkRing
import Makaos.Lib.Transition

/-!
The structure of the page cache (mm/pcache.c): the hash table and the CLOCK ring, under the sections
of `pcache_insert`, `pcache_evict_inode` and `pcache_evict_one`. `pcache_get` changes neither.

* `pcacheStep`: the sections of any number of calls, on the links and the hand of the ring, with a
  book of its entries and of those freed.
* `Apart`, `pcache_good`: **when ring and table agree, the hand points into the ring, and every entry
  is freed once.**
* `evict_inode_between`: an entry that is in the table only.
-/

namespace Makaos.PageCache

open Function Transition List Option
open LinkRing (Links IsRing)

/-- The entries by number: those in the chains of the table, the links and the hand of the ring, and
the entries in the hands of the calls. -/
structure Sys where
  /-- The inode and the page of an entry. -/
  key : ℕ → UInt32 × UInt32
  next : ℕ
  chain : List ℕ
  /-- `clock_next`, `clock_prev` and `g_clock_hand`. -/
  clock : Links ℕ
  /-- For the specification only: the entries in the ring, from the hand on. -/
  ring : List ℕ
  /-- `pcache_insert` has put it into the table. -/
  inserting : List ℕ
  /-- `pcache_evict_one` has taken it out of the ring. -/
  evicting : List ℕ
  /-- `pcache_evict_inode` has taken it out of the table, under the bucket lock it keeps. -/
  dropping : List ℕ
  /-- For the specification only. -/
  frees : List ℕ

inductive Act where
  | insert (key : UInt32 × UInt32)
  | clockInsert (e : ℕ)
  /-- The hand of `pcache_evict_one` passes `n` entries; `found`: the next is the victim. -/
  | sweep (n : ℕ) (found : Bool)
  | evictOne (e : ℕ)
  | evictInode (e : ℕ)
  | clockRemove (e : ℕ)

/-- The hand passes `n` entries. -/
def advances : ℕ → Links ℕ → Option (Links ℕ)
  | 0, r => some r
  | n + 1, r => r.advance.bind (advances n)

/-- **The sections.** -/
def pcacheStep (s : Sys) : Act → Option Sys
  | .insert key =>
    if key ∈ s.chain.map s.key then none
    else some { s with
      key := update s.key s.next key, next := s.next + 1
      chain := s.next :: s.chain, inserting := s.next :: s.inserting }
  | .clockInsert e =>
    if e ∈ s.inserting then do
      let clock ← s.clock.insert e
      some { s with clock := clock, ring := s.ring ++ [e], inserting := s.inserting.erase e }
    else none
  | .sweep n found => do
    let clock ← advances n s.clock
    if found then
      let e ← clock.hand
      -- the hand is past the victim before this is linked out
      let clock ← clock.advance
      let clock ← clock.remove e
      some { s with clock := clock, ring := (s.ring.rotate n).tail, evicting := e :: s.evicting }
    else some { s with clock := clock, ring := s.ring.rotate n }
  | .evictOne e =>
    if e ∈ s.evicting then
      some { s with
        chain := s.chain.erase e, evicting := s.evicting.erase e, frees := e :: s.frees }
    else none
  | .evictInode e =>
    if e ∈ s.chain then some { s with chain := s.chain.erase e, dropping := e :: s.dropping }
    else none
  | .clockRemove e =>
    if e ∈ s.dropping then do
      let clock ← s.clock.remove e
      some { s with
        clock := clock
        ring := s.ring.erase e, dropping := s.dropping.erase e, frees := e :: s.frees }
    else none

def boot : Sys :=
  ⟨fun _ => (0, 0), 0, [], ⟨fun _ => none, fun _ => none, none⟩, [], [], [], [], []⟩

/-- `pcache_evict_inode` takes only entries in the ring, and `pcache_evict_one` none that it has in
hand. -/
def Apart (s : Sys) : Act → Prop
  | .evictInode e => e ∈ s.ring
  | .sweep n true => ∀ e ∈ (s.ring.rotate n).head?, e ∉ s.dropping
  | _ => True

instance : DecidableRel Apart
  | _, .evictInode _ => inferInstanceAs (Decidable (_ ∈ _))
  | _, .sweep _ true => inferInstanceAs (Decidable (∀ _ ∈ _, _))
  | _, .sweep _ false | _, .insert _ | _, .clockInsert _ | _, .evictOne _ | _, .clockRemove _ =>
    isTrue trivial

/-- No call is between two of its sections. -/
def Sys.Idle (s : Sys) : Prop := s.inserting = [] ∧ s.evicting = [] ∧ s.dropping = []

/-- What is to be taken out of the ring is in it and what is to be put into it has not been freed, a
page has one entry, an entry is freed once and is then in neither structure, and between the calls
the ring has the entries of the table once each and all others have been freed. -/
structure Good (s : Sys) : Prop where
  sound : s.dropping ⊆ s.ring ∧ ∀ e ∈ s.inserting, e ∉ s.frees
  keys : (s.chain.map s.key).Nodup
  freed : s.frees.Nodup ∧ ∀ e ∈ s.frees, e ∉ s.chain ∧ e ∉ s.ring
  /-- The links are those of the ring, and the hand points to its first entry. -/
  linked : IsRing s.clock s.ring
  agree : s.Idle → s.ring.Nodup ∧ s.ring.Perm s.chain ∧ ∀ e < s.next, e ∈ s.ring ∨ e ∈ s.frees

/-- An entry is at one place with respect to the table and at one with respect to the ring, and the
calls that will take it out of the other structure find it there. -/
structure Placed (s : Sys) (e : ℕ) : Prop where
  table : s.chain.count e + s.dropping.count e + s.frees.count e = if e < s.next then 1 else 0
  clock : s.ring.count e + s.inserting.count e + s.evicting.count e + s.frees.count e =
    if e < s.next then 1 else 0
  dropping : s.dropping.count e ≤ s.ring.count e
  evicting : s.evicting.count e ≤ s.chain.count e

structure Inv (s : Sys) : Prop where
  placed : ∀ e, Placed s e
  keys : (s.chain.map s.key).Nodup
  linked : IsRing s.clock s.ring

variable {s s' : Sys} {a : Act} {e : ℕ}

/-- An entry is at one place at most. -/
lemma Placed.unique (h : Placed s e) : s.chain.count e + s.dropping.count e + s.frees.count e ≤ 1 ∧
    s.ring.count e + s.inserting.count e + s.evicting.count e + s.frees.count e ≤ 1 := by
  obtain ⟨htable, hclock, -, -⟩ := h
  split_ifs at htable hclock <;> omega

/-- The hand goes round the ring. -/
lemma isRing_advances {r r' : Links ℕ} {l : List ℕ} {n : ℕ} (h : IsRing r l)
    (hr : advances n r = some r') : IsRing r' (l.rotate n) := by
  induction n generalizing r l with
  | zero =>
    obtain rfl := some.inj hr
    rwa [rotate_zero]
  | succ n ih =>
    obtain ⟨t, ht, hr⟩ := bind_eq_some_iff.mp hr
    cases l with
    | nil =>
      rw [Links.advance, h.hand_eq] at ht
      cases ht
    | cons a l =>
      obtain ⟨_, hadvance, hlinked⟩ := h.advance
      obtain rfl := some.inj (hadvance.symm.trans ht)
      rw [rotate_cons_succ]
      exact ih hlinked hr

namespace Inv

lemma good (h : Inv s) : Good s where
  sound := by
    refine ⟨fun e he => ?_, fun e he => ?_⟩
    · exact count_pos_iff.mp ((count_pos_iff.mpr he).trans_le (h.placed e).dropping)
    · have := (h.placed e).unique
      rw [← count_pos_iff] at he
      exact count_eq_zero.mp (by omega)
  keys := h.keys
  freed := by
    refine ⟨nodup_iff_count_le_one.mpr fun e => ?_, fun e he => ?_⟩
    · have := (h.placed e).unique
      omega
    · have := (h.placed e).unique
      rw [← count_pos_iff] at he
      rw [← count_eq_zero, ← count_eq_zero]
      omega
  linked := h.linked
  agree := by
    rintro ⟨hi, he, hd⟩
    have hclock := fun e => (h.placed e).clock
    have htable := fun e => (h.placed e).table
    simp only [hi, he, hd, count_nil, add_zero] at htable hclock
    refine ⟨nodup_iff_count_le_one.mpr fun e => ?_, perm_iff_count.mpr fun e => ?_, fun e hlt => ?_⟩
    · have := (h.placed e).unique
      omega
    · exact Nat.add_right_cancel ((hclock e).trans (htable e).symm)
    · have := hclock e
      rw [if_pos hlt] at this
      rw [← count_pos_iff, ← count_pos_iff]
      omega

lemma insert {key : UInt32 × UInt32} (h : Inv s) (hnew : key ∉ s.chain.map s.key) :
    Inv { s with
      key := update s.key s.next key, next := s.next + 1
      chain := s.next :: s.chain, inserting := s.next :: s.inserting } := by
  have hold : ∀ e ∈ s.chain, e ≠ s.next := by
    rintro e he rfl
    have := (h.placed s.next).table
    rw [if_neg (lt_irrefl _)] at this
    have := count_pos_iff.mpr he
    omega
  refine ⟨fun e => ?_, ?_, h.linked⟩
  · obtain ⟨htable, hclock, hdrop, hevict⟩ := h.placed e
    constructor <;> grind
  · show (update s.key s.next key s.next :: s.chain.map (update s.key s.next key)).Nodup
    rw [update_self, map_congr_left fun e he => update_of_ne (hold e he) key s.key]
    exact nodup_cons.mpr ⟨hnew, h.keys⟩

lemma step (h : Inv s) (hok : Apart s a) (hs : pcacheStep s a = some s') : Inv s' := by
  cases a with
  | insert key =>
    obtain ⟨hnew, ⟨⟩⟩ := ite_none_left_eq_some.mp hs
    exact h.insert hnew
  | clockInsert e =>
    obtain ⟨he, hs⟩ := ite_none_right_eq_some.mp hs
    obtain ⟨clock, hclock, hs⟩ := bind_eq_some_iff.mp hs
    obtain rfl := some.inj hs
    have hnew := (h.placed e).unique
    rw [← count_pos_iff] at he
    obtain ⟨_, hinsert, hlinked⟩ := h.linked.insert (e := e) (count_eq_zero.mp (by omega))
    obtain rfl := some.inj (hinsert.symm.trans hclock)
    refine ⟨fun d => ?_, h.keys, hlinked⟩
    obtain ⟨htable, hclock, hdrop, hevict⟩ := h.placed d
    constructor <;> grind
  | clockRemove e =>
    obtain ⟨he, hs⟩ := ite_none_right_eq_some.mp hs
    obtain ⟨clock, hclock, hs⟩ := bind_eq_some_iff.mp hs
    obtain rfl := some.inj hs
    rw [← count_pos_iff] at he
    have hmem : e ∈ s.ring := count_pos_iff.mp (he.trans_le (h.placed e).dropping)
    obtain ⟨l, m, -, hring, herase⟩ := exists_erase_eq hmem
    obtain ⟨_, hremove, hlinked⟩ := (hring ▸ h.linked).remove
    obtain rfl := some.inj (hremove.symm.trans hclock)
    refine ⟨fun d => ?_, h.keys, herase ▸ hlinked⟩
    obtain ⟨htable, hclock, hdrop, hevict⟩ := h.placed d
    constructor <;> grind
  | sweep n found =>
    obtain ⟨clock, hclock, hs⟩ := bind_eq_some_iff.mp hs
    have hlinked := isRing_advances h.linked hclock
    have hcount := fun d => (s.ring.rotate_perm n).count_eq d
    cases found with
    | false =>
      obtain rfl := some.inj hs
      refine ⟨fun d => ?_, h.keys, hlinked⟩
      obtain ⟨htable, hclock, hdrop, hevict⟩ := h.placed d
      exact ⟨htable, hcount d ▸ hclock, hcount d ▸ hdrop, hevict⟩
    | true =>
      obtain ⟨e, he, hs⟩ := bind_eq_some_iff.mp hs
      obtain ⟨past, hpast, hs⟩ := bind_eq_some_iff.mp hs
      obtain ⟨out, hout, hs⟩ := bind_eq_some_iff.mp hs
      obtain rfl := some.inj hs
      obtain ⟨ring, hring⟩ : ∃ ring, s.ring.rotate n = e :: ring :=
        head?_eq_some_iff.mp (hlinked.hand_eq ▸ he)
      rw [hring] at hlinked
      simp only [hring] at hcount
      -- the victim is the last entry once the hand is past it
      obtain ⟨_, hadvance, hlast⟩ := hlinked.advance
      obtain rfl := some.inj (hadvance.symm.trans hpast)
      obtain ⟨_, hremove, hleft⟩ := hlast.remove
      obtain rfl := some.inj (hremove.symm.trans hout)
      rw [append_nil] at hleft
      have hdrop : s.dropping.count e = 0 := count_eq_zero.mpr (hok e (by rw [hring]; rfl))
      have hone := (h.placed e).unique
      refine ⟨fun d => ?_, h.keys, by rw [hring]; exact hleft⟩
      obtain ⟨htable, hclock, hdrop, hevict⟩ := h.placed d
      have := hcount d
      constructor <;> grind
  | evictOne e =>
    obtain ⟨he, rfl⟩ := ite_some_none_eq_some.mp hs
    rw [← count_pos_iff] at he
    refine ⟨fun d => ?_, h.keys.sublist (erase_sublist.map _), h.linked⟩
    obtain ⟨htable, hclock, hdrop, hevict⟩ := h.placed d
    constructor <;> grind
  | evictInode e =>
    obtain ⟨he, rfl⟩ := ite_some_none_eq_some.mp hs
    have hring : 0 < s.ring.count e := count_pos_iff.mpr hok
    rw [← count_pos_iff] at he
    refine ⟨fun d => ?_, h.keys.sublist (erase_sublist.map _), h.linked⟩
    obtain ⟨htable, hclock, hdrop, hevict⟩ := h.placed d
    constructor <;> grind

end Inv

/-- **Ring and table agree**: after any sections of any number of calls of which each meets the
condition. -/
theorem pcache_good {acts : List Act} (hrun : exec pcacheStep boot acts = some s)
    (hok : Meets pcacheStep Apart boot acts) : Good s := by
  have h0 : Inv boot := ⟨fun _ => ⟨rfl, rfl, le_rfl, le_rfl⟩, nodup_nil, rfl⟩
  exact (exec_invariant Inv.step hrun hok h0).good

/-- One of two entries is evicted by the hand and the other with its inode. -/
theorem pcache_good_two :
    ∃ s, exec pcacheStep boot [.insert (5, 0), .clockInsert 0, .insert (6, 0), .clockInsert 1,
        .sweep 1 true, .evictOne 1, .evictInode 0, .clockRemove 0] = some s ∧
      s.frees = [0, 1] ∧ Good s :=
  exists_run fun _ hrun _ => pcache_good hrun (by decide)

/-- `pcache_evict_inode` between the two sections of `pcache_insert`: its `clock_remove` gets an entry
that is not in the ring, and follows a null pointer. -/
theorem evict_inode_between :
    ∃ s, exec pcacheStep boot [.insert (5, 0), .evictInode 0] = some s ∧ s.dropping = [0] ∧
      s.ring = [] ∧ (s.clock.remove 0).isNone ∧ ¬ Good s :=
  ⟨_, rfl, rfl, rfl, rfl, fun hgood => absurd (hgood.sound.1 mem_cons_self) not_mem_nil⟩

end Makaos.PageCache
