import Makaos.Fs.InodeCache

/-!
The inode cache over every run.

* `Sys.Ok`: what a thread knows at each point of `inode_lock`, `inode_unlock` and `irtree_shrink`.
* `Inv`: the slots, the counters and the contents of the leaves.
* `Inv.step`: **every step keeps the invariant**, as long as the thread is undisturbed.
* `inode_cache_good`: **`inode_lock` returns the right leaf, there is one for an inode, and it stays
  while it is in use.**
* `inode_aliased`: two inodes whose numbers agree in the low 16 bits share a leaf.
-/

namespace Makaos.Irtree

open Function Transition Sys Holders Option Nat Bool
open Holders (holders one holders_update holders_pos exists_of_holders_pos)

variable {ι α : Type*} {s s' : Sys ι α} {l l' ino : ℕ} {t u : ι}
variable {pc : Pc α} {x : Leaf ι α}

/-! ### The invariant -/

/-- The leaf is the one of `ino` in the tree. -/
def Sys.At (s : Sys ι α) (ino l : ℕ) : Prop := (s.leaf l).ino = ino ∧ s.slot (slotOf ino) = some l

/-- What thread `t` knows. -/
def Sys.Ok (s : Sys ι α) (t : ι) : Pc α → Prop
  | .found ino l => (s.leaf l).ino = ino ∧ l < s.next
  | .check ino l | .load ino l | .release ino l => s.At ino l
  | .publish ino l tmp => s.At ino l ∧ ((s.leaf l).valid = false → tmp = s.disk ino)
  | .lockWait ino l => s.At ino l ∧ (s.leaf l).valid = true
  | .holding ino l => s.At ino l ∧ (s.leaf l).valid = true ∧ (s.leaf l).writer = some t ∧
      (s.leaf l).inode = s.disk ino
  | .dirty ino l => s.At ino l ∧ (s.leaf l).valid = true ∧ (s.leaf l).writer = some t
  | .handoff _ l _ => l < s.next ∧ ∀ i, s.slot i ≠ some l
  | _ => True

/-- The invariant of the cache. -/
structure Inv [Fintype ι] (s : Sys ι α) : Prop where
  slot : ∀ i l, s.slot i = some l →
    l < s.next ∧ slotOf (s.leaf l).ino = i ∧ (s.leaf l).freed = false
  queued : ∀ l ∈ s.rcuQueue, l < s.next ∧ ∀ i, s.slot i ≠ some l
  count : ∀ l, (s.leaf l).refcount = holders (fun t => (s.pc t).held) l
  clean : ∀ i l, s.slot i = some l → (s.leaf l).valid = true → (s.leaf l).writer = none →
    (s.leaf l).inode = s.disk (s.leaf l).ino
  ok : ∀ t, s.Ok t (s.pc t)

lemma Sys.Ok.at (h : s.Ok t pc) (hr : pc.ref = some (ino, l)) : s.At ino l := by
  cases pc <;> simp only [Pc.ref, some.injEq, Prod.mk.injEq, reduceCtorEq] at hr
  all_goals
    obtain ⟨rfl, rfl⟩ := hr
    first
      | exact h
      | exact h.1

lemma Pc.held_eq (h : pc.held = some l) : ∃ ino, pc.ref = some (ino, l) := by
  obtain ⟨⟨ino, k⟩, hr, rfl⟩ := map_eq_some_iff.1 h
  exact ⟨ino, hr⟩

lemma Sys.forall_setLeaf {P : ℕ → Leaf ι α → Prop} (hl : P l x)
    (h : ∀ k, k ≠ l → P k (s.leaf k)) (k : ℕ) : P k ((s.setLeaf l x).leaf k) :=
  (forall_update_iff s.leaf P).mpr ⟨hl, h⟩ k

/-- A change of one leaf that is not the thread's own, or that it does not mind. -/
lemma Sys.Ok.setLeaf (h : s.Ok u pc) (hino : x.ino = (s.leaf l).ino)
    (hvalid : (s.leaf l).valid = true → x.valid = true)
    (hwriter : (s.leaf l).writer = some u → x.writer = some u ∧ x.inode = (s.leaf l).inode) :
    (s.setLeaf l x).Ok u pc := by
  have hleaf := s.forall_setLeaf (P := fun k y => y.ino = (s.leaf k).ino ∧
    ((s.leaf k).valid = true → y.valid = true) ∧
    ((s.leaf k).writer = some u → y.writer = some u ∧ y.inode = (s.leaf k).inode))
    ⟨hino, hvalid, hwriter⟩ fun k _ => ⟨rfl, id, fun h => ⟨h, rfl⟩⟩
  have hino' := fun k => (hleaf k).1
  have hvalid' := fun k => (hleaf k).2.1
  have hwriter' := fun k => (hleaf k).2.2
  have hat : ∀ ino k, s.At ino k → (s.setLeaf l x).At ino k :=
    fun ino k h => ⟨(hino' k).trans h.1, h.2⟩
  cases pc with
  | found ino k => exact ⟨(hino' k).trans h.1, h.2⟩
  | check ino k | load ino k | release ino k => exact hat ino k h
  | publish ino k tmp =>
    refine ⟨hat ino k h.1, fun hinv => h.2 ?_⟩
    by_contra hv
    exact false_ne_true (hinv.symm.trans (hvalid' k (eq_true_of_not_eq_false hv)))
  | lockWait ino k => exact ⟨hat ino k h.1, hvalid' k h.2⟩
  | holding ino k =>
    obtain ⟨ha, hv, hw, hi⟩ := h
    exact ⟨hat ino k ha, hvalid' k hv, (hwriter' k hw).1, (hwriter' k hw).2.trans hi⟩
  | dirty ino k =>
    obtain ⟨ha, hv, hw⟩ := h
    exact ⟨hat ino k ha, hvalid' k hv, (hwriter' k hw).1⟩
  | handoff i k left => exact h
  | _ => trivial

/-! ### One step of one thread -/

section

variable [Fintype ι]

lemma Inv.ok_at (hs : Inv s) (hpc : s.pc t = pc) : s.Ok t pc := hpc ▸ hs.ok t

lemma Inv.at (hs : Inv s) (hr : (s.pc t).ref = some (ino, l)) : s.At ino l := (hs.ok t).at hr

lemma Inv.used (hs : Inv s) (h : 0 < (s.leaf l).refcount) : s.At (s.leaf l).ino l := by
  rw [hs.count l] at h
  obtain ⟨t, ht⟩ := exists_of_holders_pos h
  obtain ⟨ino, hr⟩ := Pc.held_eq ht
  have hat := hs.at hr
  rwa [hat.1]

lemma Inv.slot_inj (hs : Inv s) {i j : ℕ × ℕ} (h : s.slot i = some l) (h' : s.slot j = some l')
    (hino : (s.leaf l).ino = (s.leaf l').ino) : l = l' := by
  obtain ⟨-, hi, -⟩ := hs.slot i l h
  obtain ⟨-, hj, -⟩ := hs.slot j l' h'
  have hij : i = j := by rw [← hi, ← hj, hino]
  rw [hij, h'] at h
  exact (some.inj h).symm

variable [DecidableEq ι]

section

variable (hs : Inv s)
include hs

lemma Inv.move {s1 : Sys ι α} (hpc : s1.pc = s.pc)
    (hslot : ∀ i l, s1.slot i = some l →
      l < s1.next ∧ slotOf (s1.leaf l).ino = i ∧ (s1.leaf l).freed = false)
    (hqueued : ∀ l ∈ s1.rcuQueue, l < s1.next ∧ ∀ i, s1.slot i ≠ some l)
    (hcount : ∀ l, (s1.leaf l).refcount + one (s.pc t).held l = (s.leaf l).refcount + one pc.held l)
    (hclean : ∀ i l, s1.slot i = some l → (s1.leaf l).valid = true → (s1.leaf l).writer = none →
      (s1.leaf l).inode = s1.disk (s1.leaf l).ino)
    (hothers : ∀ u, u ≠ t → s1.Ok u (s.pc u)) (hmine : s1.Ok t pc) : Inv (s1.goto t pc) := by
  refine ⟨hslot, hqueued, fun l => ?_, hclean, ?_⟩
  · have hheld : (fun u => ((s1.goto t pc).pc u).held) =
        update (fun u => (s.pc u).held) t pc.held := by
      rw [goto, hpc]
      exact funext (apply_update (fun _ => Pc.held) s.pc t pc)
    have hup := holders_update (fun u => (s.pc u).held) t pc.held l
    have hl := hcount l
    have hold := hs.count l
    rw [hheld]
    show (s1.leaf l).refcount = _
    omega
  · show ∀ u, s1.Ok u (update s1.pc t pc u)
    rw [hpc]
    exact (forall_update_iff s.pc s1.Ok).mpr ⟨hmine, hothers⟩

lemma Inv.goto {old : Pc α} (hpc : s.pc t = old) (hmine : s.Ok t pc := by trivial)
    (hheld : pc.held = old.held := by rfl) : Inv (s.goto t pc) :=
  hs.move rfl hs.slot hs.queued (fun l => by rw [hpc, hheld]) hs.clean (fun u _ => hs.ok u) hmine

section

variable (hino : x.ino = (s.leaf l).ino) (hfreed : x.freed = (s.leaf l).freed)
  (hvalid : (s.leaf l).valid = true → x.valid = true)
  (hwriter : ∀ u, u ≠ t → (s.leaf l).writer = some u → x.writer = some u ∧ x.inode = (s.leaf l).inode)
include hino hfreed hvalid hwriter

/-- A leaf changes, and its thread moves on with it. -/
lemma Inv.changeLeaf
    (hcount : x.refcount + one (s.pc t).held l = (s.leaf l).refcount + one pc.held l)
    (hother : ∀ k, k ≠ l → one (s.pc t).held k = one pc.held k)
    (hclean : ∀ i, s.slot i = some l → x.valid = true → x.writer = none → x.inode = s.disk x.ino)
    (hmine : (s.setLeaf l x).Ok t pc) : Inv ((s.setLeaf l x).goto t pc) := by
  refine hs.move rfl (fun i k => ?_) hs.queued ?_ (fun i k => ?_) ?_ hmine
  · refine s.forall_setLeaf (P := fun k y => s.slot i = some k → k < s.next ∧ slotOf y.ino = i ∧
      y.freed = false) ?_ (fun k _ => hs.slot i k) k
    rw [hino, hfreed]
    exact hs.slot i l
  · exact s.forall_setLeaf (P := fun k y => y.refcount + one (s.pc t).held k =
      (s.leaf k).refcount + one pc.held k) hcount fun k hk => by rw [hother k hk]
  · exact s.forall_setLeaf (P := fun k y => s.slot i = some k → y.valid = true → y.writer = none →
      y.inode = s.disk y.ino) (hclean i) (fun k _ => hs.clean i k) k
  · exact fun u hu => (hs.ok u).setLeaf hino hvalid (hwriter u hu)

/-- A leaf changes in its contents or its lock. -/
lemma Inv.setLeaf {old : Pc α} (hcount : x.refcount = (s.leaf l).refcount) (hpc : s.pc t = old)
    (hheld : pc.held = old.held)
    (hclean : x.valid = true → x.writer = none → x.inode = s.disk x.ino)
    (hmine : (s.setLeaf l x).Ok t pc) : Inv ((s.setLeaf l x).goto t pc) :=
  hs.changeLeaf hino hfreed hvalid hwriter (by rw [hcount, hpc, hheld])
    (fun k _ => by rw [hpc, hheld]) (fun _ _ => hclean) hmine

end

lemma Inv.setRefcount (n : ℕ)
    (hcount : n + one (s.pc t).held l = (s.leaf l).refcount + one pc.held l)
    (hother : ∀ k, k ≠ l → one (s.pc t).held k = one pc.held k) (hmine : s.Ok t pc) :
    Inv ((s.setLeaf l { s.leaf l with refcount := n }).goto t pc) :=
  hs.changeLeaf rfl rfl id (fun _ _ h => ⟨h, rfl⟩) hcount hother (fun i => hs.clean i l)
    (hmine.setLeaf rfl id fun h => ⟨h, rfl⟩)

/-- A thread without a leaf takes a reference on the leaf of its inode. -/
lemma Inv.addRef (hheld : (s.pc t).held = none) (hat : s.At ino l) :
    Inv ((s.addRef l).goto t (.check ino l)) := by
  refine hs.setRefcount _ ?_ ?_ hat
  · rw [hheld]
    simp [Pc.held, Pc.ref]
  · intro k hk
    rw [hheld, Pc.held, Pc.ref, map_some, one_of_ne hk.symm, one_none]

lemma Inv.subRef (hpc : s.pc t = .release ino l) : Inv ((s.subRef l).goto t .idle) := by
  have hheld : (s.pc t).held = some l := by rw [hpc]; rfl
  have hpos : 0 < (s.leaf l).refcount := by
    rw [hs.count l]
    exact holders_pos hheld
  refine hs.setRefcount _ ?_ ?_ trivial
  · rw [hheld]
    simp only [Pc.held, Pc.ref, map_none, one_self, one_none]
    omega
  · intro k hk
    rw [hheld, one_of_ne hk.symm]
    rfl

/-- What was loaded is published, once. -/
lemma Inv.publish {tmp : α} (hpc : s.pc t = .publish ino l tmp) (hw : (s.leaf l).writer = none) :
    Inv ((s.publish ino l tmp).goto t (.lockWait ino l)) := by
  obtain ⟨hat, htmp⟩ := hs.ok_at hpc
  unfold Sys.publish
  split_ifs with hv
  · exact hs.goto hpc ⟨hat, hv⟩
  · have hv : (s.leaf l).valid = false := eq_false_of_not_eq_true hv
    refine hs.setLeaf hat.1.symm rfl (fun _ => rfl) ?_ rfl hpc rfl (fun _ _ => htmp hv) ?_
    · intro u _ hu
      rw [hw] at hu
      cases hu
    · refine ⟨⟨?_, hat.2⟩, ?_⟩
      · simp [Sys.setLeaf]
      · simp [Sys.setLeaf]

/-- `seq_write_begin`: **the leaf is returned as it was written back last.** -/
lemma Inv.lock (hpc : s.pc t = .lockWait ino l) (hw : (s.leaf l).writer = none) :
    Inv ((s.setLeaf l { s.leaf l with writer := some t }).goto t (.holding ino l)) := by
  obtain ⟨hat, hv⟩ := hs.ok_at hpc
  have hclean := hs.clean _ l hat.2 hv hw
  refine hs.setLeaf rfl rfl id ?_ rfl hpc rfl nofun ?_
  · intro u _ hu
    rw [hw] at hu
    cases hu
  · refine ⟨⟨?_, hat.2⟩, ?_, ?_, ?_⟩
    · simpa [Sys.setLeaf] using hat.1
    · simpa [Sys.setLeaf] using hv
    · simp [Sys.setLeaf]
    · simpa [Sys.setLeaf, hat.1] using hclean

lemma Inv.store (hpc : s.pc t = .holding ino l) (v : α) :
    Inv ((s.setLeaf l { s.leaf l with inode := v }).goto t (.dirty ino l)) := by
  obtain ⟨hat, hv, hw, -⟩ := hs.ok_at hpc
  refine hs.setLeaf rfl rfl id ?_ rfl hpc rfl ?_ ?_
  · intro u hu huw
    exact absurd (some.inj (huw.symm.trans hw)) hu
  · intro _ hn
    have hn : (s.leaf l).writer = none := hn
    rw [hw] at hn
    cases hn
  · refine ⟨⟨?_, hat.2⟩, ?_, ?_⟩
    · simpa [Sys.setLeaf] using hat.1
    · simpa [Sys.setLeaf] using hv
    · simpa [Sys.setLeaf] using hw

/-- `seq_write_end` in `inode_unlock`. -/
lemma Inv.unlock (hpc : s.pc t = .holding ino l) :
    Inv ((s.setLeaf l { s.leaf l with writer := none }).goto t (.release ino l)) := by
  obtain ⟨hat, hv, hw, hd⟩ := hs.ok_at hpc
  refine hs.setLeaf rfl rfl id ?_ rfl hpc rfl ?_ ⟨?_, hat.2⟩
  · intro u hu huw
    exact absurd (some.inj (huw.symm.trans hw)) hu
  · intro _ _
    show (s.leaf l).inode = s.disk (s.leaf l).ino
    rw [hat.1, hd]
  · simpa [Sys.setLeaf] using hat.1

/-- `inode_writeback`: no other leaf is about the same inode. -/
lemma Inv.writeback (hpc : s.pc t = .dirty ino l) :
    Inv ({ s with disk := update s.disk (s.leaf l).ino (s.leaf l).inode }.goto t
      (.holding ino l)) := by
  obtain ⟨hat, hv, hw⟩ := hs.ok_at hpc
  have hdisk : ∀ k i, s.slot i = some k → k ≠ l →
      update s.disk (s.leaf l).ino (s.leaf l).inode (s.leaf k).ino = s.disk (s.leaf k).ino := by
    intro k i hk hkl
    exact update_of_ne (fun heq => hkl (hs.slot_inj hk hat.2 heq)) _ _
  refine hs.move rfl hs.slot hs.queued (fun k => by rw [hpc]; rfl) ?_ ?_ ?_
  · intro i k hk hkv hkw
    have hkl : k ≠ l := by
      rintro rfl
      exact absurd (hkw.symm.trans hw) (by simp)
    exact (hs.clean i k hk hkv hkw).trans (hdisk k i hk hkl).symm
  · -- a thread that knows something about this inode of the disk would be at this leaf
    intro u hu
    have hoku := hs.ok u
    generalize hpu : s.pc u = pc at hoku
    cases pc with
    | publish ino' k tmp =>
      obtain ⟨hatk, htmp⟩ := hoku
      refine ⟨hatk, fun hinv => ?_⟩
      have hkl : k ≠ l := by
        rintro rfl
        exact false_ne_true (hinv.symm.trans hv)
      have hsame := hdisk k _ hatk.2 hkl
      rw [hatk.1] at hsame
      exact (htmp hinv).trans hsame.symm
    | holding ino' k =>
      obtain ⟨hatk, hvk, hwk, hdk⟩ := hoku
      have hkl : k ≠ l := by
        rintro rfl
        exact hu (some.inj (hwk.symm.trans hw))
      have hsame := hdisk k _ hatk.2 hkl
      rw [hatk.1] at hsame
      exact ⟨hatk, hvk, hwk, hdk.trans hsame.symm⟩
    | _ =>
      exact hoku
  · refine ⟨hat, hv, hw, ?_⟩
    show (s.leaf l).inode = update s.disk (s.leaf l).ino (s.leaf l).inode ino
    rw [← hat.1, update_self]

/-! ### The tree -/

/-- A fresh leaf in an empty slot. -/
lemma Inv.newLeaf [Inhabited α] (hheld : (s.pc t).held = none)
    (hempty : s.slot (slotOf ino) = none) : Inv ((s.newLeaf ino).goto t (.check ino s.next)) := by
  have hleaf : ∀ k, k < s.next → (s.newLeaf ino).leaf k = s.leaf k := by
    intro k hk
    simp [Sys.newLeaf, hk.ne]
  have hslot : ∀ i k, (s.newLeaf ino).slot i = some k →
      (i = slotOf ino ∧ k = s.next) ∨ s.slot i = some k := by
    intro i k hk
    by_cases hi : i = slotOf ino
    · subst hi
      simp only [Sys.newLeaf, update_self, Option.some.injEq] at hk
      exact .inl ⟨rfl, hk.symm⟩
    · simp only [Sys.newLeaf, update_of_ne hi] at hk
      exact .inr hk
  have hkeep : ∀ i k, s.slot i = some k → (s.newLeaf ino).slot i = some k := by
    intro i k hk
    have hi : i ≠ slotOf ino := by
      rintro rfl
      rw [hempty] at hk
      cases hk
    simpa only [Sys.newLeaf, update_of_ne hi] using hk
  have hat : ∀ ino' k, s.At ino' k → (s.newLeaf ino).At ino' k := by
    intro ino' k h
    refine ⟨?_, hkeep _ k h.2⟩
    rw [hleaf k (hs.slot _ k h.2).1]
    exact h.1
  have hgone : ∀ k, k < s.next → (∀ i, s.slot i ≠ some k) → ∀ i, (s.newLeaf ino).slot i ≠ some k := by
    intro k hk hno i hi
    rcases hslot i k hi with ⟨-, rfl⟩ | hold
    · exact hk.false
    · exact hno i hold
  refine hs.move rfl ?_ ?_ ?_ ?_ ?_ ?_
  · intro i k hk
    rcases hslot i k hk with ⟨rfl, rfl⟩ | hold
    · simp [Sys.newLeaf]
    · obtain ⟨hlt, hrest⟩ := hs.slot i k hold
      rw [hleaf k hlt]
      exact ⟨hlt.trans (lt_succ_self _), hrest⟩
  · intro k hk
    obtain ⟨hlt, hno⟩ := hs.queued k hk
    exact ⟨hlt.trans (lt_succ_self _), hgone k hlt hno⟩
  · intro k
    rw [hheld]
    have hsucc : (Pc.check ino s.next : Pc α).held = some s.next := rfl
    rw [hsucc, one_none]
    by_cases hk : k = s.next
    · -- nobody was counted in at a leaf that did not exist
      have hzero : (s.leaf s.next).refcount = 0 := by
        by_contra hne
        exact (hs.slot _ _ (hs.used (pos_of_ne_zero hne)).2).1.false
      rw [hk, hzero, Holders.one_self]
      simp [Sys.newLeaf]
    · rw [Holders.one_of_ne (Ne.symm hk)]
      simp [Sys.newLeaf, hk]
  · intro i k hk hv
    rcases hslot i k hk with ⟨rfl, rfl⟩ | hold
    · simp [Sys.newLeaf] at hv
    · rw [hleaf k (hs.slot i k hold).1] at hv ⊢
      exact hs.clean i k hold hv
  · intro u _
    have hoku := hs.ok u
    generalize hpu : s.pc u = pc at hoku
    cases pc with
    | found ino' k =>
      refine ⟨?_, hoku.2.trans (lt_succ_self _)⟩
      rw [hleaf k hoku.2]
      exact hoku.1
    | check ino' k | load ino' k | release ino' k =>
      exact hat ino' k hoku
    | publish ino' k tmp | lockWait ino' k | holding ino' k | dirty ino' k =>
      refine ⟨hat ino' k hoku.1, ?_⟩
      rw [hleaf k (hs.slot _ k hoku.1.2).1]
      exact hoku.2
    | handoff i k left =>
      exact ⟨hoku.1.trans (lt_succ_self _), hgone k hoku.1 hoku.2⟩
    | _ => trivial
  · refine ⟨?_, ?_⟩
    · simp [Sys.newLeaf]
    · simp [Sys.newLeaf]

/-- `irtree_alloc_with_ref`, when the slot is empty or the inode's own. -/
lemma Inv.allocWithRef [Inhabited α] {ok : Bool} (hpc : s.pc t = .allocate ino)
    (hown : ∀ k ∈ s.slot (slotOf ino), (s.leaf k).ino = ino) : Inv (s.allocWithRef t ino ok) := by
  have hheld : (s.pc t).held = none := by rw [hpc]; rfl
  unfold Sys.allocWithRef
  split
  next k hk => exact hs.addRef hheld ⟨hown k hk, hk⟩
  next hempty =>
    split
    · exact hs.newLeaf hheld hempty
    · exact hs.goto hpc

/-- **A leaf without references leaves the tree**: nobody is at it. -/
lemma Inv.evict {i : ℕ × ℕ} {j left : ℕ} (hheld : (s.pc t).held = none)
    (hl : s.slot i = some l) (h0 : (s.leaf l).refcount = 0) :
    Inv ({ s with slot := update s.slot i none }.goto t (.handoff j l left)) := by
  have hslot : ∀ i' k, update s.slot i none i' = some k → s.slot i' = some k ∧ k ≠ l := by
    intro i' k hk
    rcases update_cases hk with ⟨-, ⟨⟩⟩ | ⟨hi, hk⟩
    refine ⟨hk, ?_⟩
    rintro rfl
    exact hi ((hs.slot i' k hk).2.1.symm.trans (hs.slot i k hl).2.1)
  have hkeep : ∀ i' k, s.slot i' = some k → k ≠ l → update s.slot i none i' = some k := by
    intro i' k hk hkl
    have hi : i' ≠ i := by
      rintro rfl
      exact hkl (some.inj (hk.symm.trans hl))
    rwa [update_of_ne hi]
  refine hs.move rfl ?_ ?_ (fun k => by rw [hheld]; rfl) ?_ ?_ ?_
  · exact fun i' k hk => hs.slot i' k (hslot i' k hk).1
  · intro k hk
    obtain ⟨hlt, hno⟩ := hs.queued k hk
    exact ⟨hlt, fun i' hi' => hno i' (hslot i' k hi').1⟩
  · exact fun i' k hk => hs.clean i' k (hslot i' k hk).1
  · intro u _
    have hoku := hs.ok u
    -- a thread at the leaf would have counted itself in
    have hat : ∀ ino' k, (s.pc u).ref = some (ino', k) → s.At ino' k →
        At { s with slot := update s.slot i none } ino' k := by
      intro ino' k hr h
      refine ⟨h.1, hkeep _ k h.2 ?_⟩
      rintro rfl
      have hpos : 0 < (s.leaf k).refcount := by
        rw [hs.count k]
        exact holders_pos (show (s.pc u).held = some k by rw [Pc.held, hr]; rfl)
      omega
    generalize hpu : s.pc u = pc at hoku hat
    cases pc with
    | found ino' k =>
      exact hoku
    | check ino' k | load ino' k | release ino' k =>
      exact hat ino' k rfl hoku
    | publish ino' k tmp | lockWait ino' k | holding ino' k | dirty ino' k =>
      exact ⟨hat ino' k rfl hoku.1, hoku.2⟩
    | handoff i' k left =>
      exact ⟨hoku.1, fun i'' h => hoku.2 i'' (hslot i'' k h).1⟩
    | _ => trivial
  · exact ⟨(hs.slot i l hl).1, fun i' h => (hslot i' l h).2 rfl⟩

/-- `call_rcu_head`. -/
lemma Inv.handoff {i left : ℕ} (hpc : s.pc t = .handoff i l left) :
    Inv ({ s with rcuQueue := s.rcuQueue ++ [l] }.goto t (.scan (i + 1) (left - 1))) := by
  have hok := hs.ok_at hpc
  refine hs.move rfl hs.slot ?_ (fun k => by rw [hpc]; rfl) hs.clean (fun u _ => hs.ok u) trivial
  intro k hk
  rcases List.mem_append.1 hk with hk | hk
  · exact hs.queued k hk
  · rwa [List.mem_singleton.1 hk]

end

omit [DecidableEq ι] in
/-- `irtree_leaf_free_cb`. -/
lemma Inv.free (hs : Inv s) (hl : l ∈ s.rcuQueue) :
    Inv ({ s with rcuQueue := s.rcuQueue.erase l }.setLeaf l { s.leaf l with freed := true }) := by
  obtain ⟨-, hno⟩ := hs.queued l hl
  have hs' : Inv { s with rcuQueue := s.rcuQueue.erase l } :=
    ⟨hs.slot, fun k hk => hs.queued k (List.mem_of_mem_erase hk), hs.count, hs.clean, hs.ok⟩
  refine ⟨fun i k hk => ?_, hs'.queued, ?_, fun i k => ?_, fun u => ?_⟩
  · exact forall_setLeaf (P := fun k y => s.slot i = some k → k < s.next ∧
      slotOf y.ino = i ∧ y.freed = false) (fun h => absurd h (hno i)) (fun k _ => hs.slot i k) k hk
  · exact forall_setLeaf (P := fun k y => y.refcount = holders _ k) (hs.count l)
      fun k _ => hs.count k
  · refine forall_setLeaf (P := fun k y => s.slot i = some k → y.valid = true →
      y.writer = none → y.inode = s.disk y.ino) ?_ (fun k _ => hs.clean i k) k
    exact hs.clean i l
  · exact (hs'.ok u).setLeaf rfl id fun h => ⟨h, rfl⟩

end

/-! ### Every run -/

lemma lookup_eq [DecidableEq ι] (h : s.lookup ino = some l) : s.At ino l := by
  unfold lookup at h
  split at h
  · cases h
  next k hk =>
    split at h
    · cases h
    next hino =>
      cases h
      exact ⟨not_not.1 hino, hk⟩

section

variable [Fintype ι] [DecidableEq ι] [Inhabited α]

lemma Inv.runStep {ok : Bool} (hs : Inv s) (hok : s.Undisturbed ok (s.pc t))
    (h : s.runStep t ok = some s') : Inv s' := by
  have hknow := hs.ok t
  unfold Sys.runStep at h
  split at h
  · cases h
  · cases h
  next ino l hpc =>
    rw [hpc] at hok hknow
    cases h
    exact hs.addRef (by rw [hpc]; rfl) ⟨hknow.1, hok⟩
  next ino hpc =>
    rw [hpc] at hok
    cases h
    exact hs.allocWithRef hpc hok
  next ino l hpc =>
    rw [hpc] at hknow
    cases h
    split_ifs with hv
    · exact hs.goto hpc ⟨hknow, hv⟩
    · exact hs.goto hpc hknow
  next ino l hpc =>
    rw [hpc] at hknow
    cases h
    split
    · exact hs.goto hpc ⟨hknow, fun _ => rfl⟩
    · exact hs.goto hpc hknow
  next ino l tmp hpc =>
    obtain ⟨hw, rfl⟩ := ite_some_none_eq_some.mp h
    exact hs.publish hpc hw
  next ino l hpc =>
    obtain ⟨hw, rfl⟩ := ite_some_none_eq_some.mp h
    exact hs.lock hpc hw
  next ino l hpc =>
    rw [hpc] at hok hknow
    split_ifs at h with hno
    · cases h
      exact hs.writeback hpc
    · exact absurd ⟨hok, hknow.2.1⟩ hno
  next ino l hpc =>
    cases h
    exact hs.subRef hpc
  next ino l hpc =>
    obtain ⟨-, rfl⟩ := ite_some_none_eq_some.mp h
    exact hs.goto hpc
  next hpc =>
    cases h
    exact hs.goto hpc
  next i left hpc =>
    split at h
    · cases h
      exact hs.goto hpc
    · split at h
      · cases h
        exact hs.goto hpc
      · split at h
        case isTrue | isFalse =>
          cases h
          exact hs.goto hpc
  next i l left hpc =>
    split_ifs at h with hno
    · cases h
      exact hs.goto hpc
    · obtain ⟨hl, h0⟩ := not_or.1 hno
      cases h
      exact hs.evict (by rw [hpc]; rfl) (not_not.1 hl) (not_not.1 h0)
  next i l left hpc =>
    cases h
    exact hs.handoff hpc

/-- **Every step keeps the invariant.** -/
theorem Inv.step {a : ι × Act α} (hs : Inv s) (hok : Undisturbed s a)
    (h : irtreeStep s a = some s') : Inv s' := by
  obtain ⟨t, a⟩ := a
  cases a with
  | run ok => exact hs.runStep hok h
  | writeback v =>
    simp only [irtreeStep] at h
    split at h
    next ino l hpc =>
      cases h
      exact hs.store hpc v
    · cases h
  | unlock =>
    simp only [irtreeStep] at h
    split at h
    next ino l hpc =>
      cases h
      exact hs.unlock hpc
    · cases h
  | free l =>
    obtain ⟨hl, rfl⟩ := ite_some_none_eq_some.mp h
    exact hs.free hl.1
  | lock ino =>
    simp only [irtreeStep] at h
    split at h
    next hpc =>
      split at h
      next l hl =>
        have hat := lookup_eq hl
        cases h
        exact hs.goto hpc ⟨hat.1, (hs.slot _ l hat.2).1⟩
      · cases h
        exact hs.goto hpc
    · cases h
  | get ino =>
    simp only [irtreeStep] at h
    split at h
    next hpc =>
      split at h
      case h_1 | h_2 =>
        cases h
        exact hs.goto hpc
    · cases h
  | shrink max =>
    simp only [irtreeStep] at h
    split at h
    next hpc =>
      cases h
      exact hs.goto hpc
    · cases h

omit [DecidableEq ι] in
lemma Inv.boot (disk : ℕ → α) : Inv (boot disk : Sys ι α) where
  slot i l h := by cases h
  queued l h := absurd h List.not_mem_nil
  count l := (holders_none l).symm
  clean i l h := by cases h
  ok t := trivial

omit [DecidableEq ι] [Inhabited α] in
lemma Inv.good (hs : Inv s) : CacheGood s := by
  constructor
  case right =>
    intro t ino l hpc
    have hok := hs.ok_at hpc
    exact ⟨hok.1.1, hok.2.2.2⟩
  case one =>
    have hlive : ∀ l, s.Live l → ∃ i, s.slot i = some l := by
      rintro l (hl | hl)
      · exact hl
      · exact ⟨_, (hs.used hl).2⟩
    intro l l' hl hl' hino
    obtain ⟨i, hi⟩ := hlive l hl
    obtain ⟨j, hj⟩ := hlive l' hl'
    exact hs.slot_inj hi hj hino
  case kept =>
    intro l hl
    have hat := hs.used hl
    exact ⟨hat.2, (hs.slot _ l hat.2).2.2⟩

/-- **The inode cache returns the right inode**: in every run in which no two inodes meet in a slot,
no leaf goes between lookup and reference and no writeback fails. -/
theorem inode_cache_good (disk : ℕ → α) (acts : List (ι × Act α))
    (hrun : exec irtreeStep (boot disk) acts = some s)
    (hok : Meets irtreeStep Undisturbed (boot disk) acts) : CacheGood s :=
  (exec_invariant Inv.step hrun hok (Inv.boot disk)).good

end

/-- Locks inode 7, changes it and unlocks it; another thread evicts the leaf, and locks the inode
again. -/
def lockTwice : List (Fin 2 × Act ℕ) :=
  [(0, .lock 7), (0, .run true), (0, .run true), (0, .run true), (0, .run true), (0, .run true),
    (0, .writeback 41), (0, .run true), (0, .unlock), (0, .run true)] ++
  [(1, .shrink 1)] ++ List.replicate 11 (1, .run true) ++
  [(1, .free 0), (1, .lock 7), (1, .run true), (1, .run true), (1, .run true), (1, .run true),
    (1, .run true)]

theorem inode_cache_good_lockTwice :
    ∃ s : Sys (Fin 2) ℕ, exec irtreeStep (boot fun _ => 0) lockTwice = some s ∧
      s.pc 1 = .holding 7 1 ∧ (s.leaf 1).inode = 41 ∧ CacheGood s := by
  have hok : Meets irtreeStep Undisturbed (boot fun _ => 0 : Sys (Fin 2) ℕ) lockTwice := by
    decide +kernel
  exact exists_of_run (fun s => s.pc 1 = .holding 7 1 ∧ (s.leaf 1).inode = 41)
    fun s hrun ⟨hpc, hin⟩ => ⟨hpc, hin, inode_cache_good _ lockTwice hrun hok⟩

/-- **Two inodes share a leaf**: after inode 1, `inode_lock(65537)` returns the leaf of inode 1. -/
theorem inode_aliased : ∃ (acts : List (Fin 1 × Act ℕ)) (s : Sys (Fin 1) ℕ),
      exec irtreeStep (boot fun ino => ino) acts = some s ∧ s.pc 0 = .holding 65537 0 ∧
        (s.leaf 0).ino = 1 ∧ (s.leaf 0).inode = 1 ∧ s.disk 65537 = 65537 := by
  let acts : List (Fin 1 × Act ℕ) :=
    [(0, .lock 1), (0, .run true), (0, .run true), (0, .run true), (0, .run true), (0, .run true),
      (0, .unlock), (0, .run true), (0, .lock 65537), (0, .run true), (0, .run true),
      (0, .run true)]
  exact ⟨acts, exists_of_any irtreeStep (boot fun ino => ino) acts _⟩

end Makaos.Irtree
