import Makaos.Mm.AddressSpace

/-!
The kernel half of an address space under operations on the user half.

* `Confined`: what is reached from the user half, and what is free, is none of the kernel's frames.
* `pteWalk_stays`, `vmmPageMap_stays`, `vmmPageUnmap_stays`: the operations on user pages leave the
  kernel's tables, and use none of its frames.
* `Cleared`: entries are removed only; `vmmPageUnmap_cleared`: at any address `vmm_page_unmap` does
  that, and nothing is mapped there afterwards.
-/

namespace Makaos

open RadixTree Pte Option PhysMem Finset
variable {f v i g : ℕ}

/-! ### The kernel's frames -/

/-- The paths to the tables of the kernel half. -/
def KernelPath (p : List ℕ) : Prop := p.length ≤ 3 ∧ ∀ i ∈ p.head?, 256 ≤ i

section Confined

variable (K : Set ℕ) (pml4 : ℕ)

/-- The frame is none of the kernel's. -/
def UserFrame (f : ℕ) : Prop := f ∉ K ∧ f ≠ pml4

/-- The entry is one of the user half. -/
def UserSlot (g i : ℕ) : Prop := if g = pml4 then i < 256 else g ∉ K

/-- **The kernel half is apart**: the kernel's frames hold its tables, and neither a free frame nor
a nonzero entry of the user half is one of them. -/
structure Confined (m : PhysMem) : Prop where
  root : pml4 ∉ K
  free : ∀ f ∈ m.free, UserFrame K pml4 f
  closed : ∀ g i, UserSlot K pml4 g i → m.tables g i ≠ Pte.empty →
    UserFrame K pml4 (m.tables g i).frame
  kernel : ∀ p f, KernelPath p → p ≠ [] → RadixTree.walk Pte.child m.tables pml4 p = some f → f ∈ K

/-- The kernel half stays as it is and apart. -/
structure Stays (m m' : PhysMem) : Prop where
  confined : Confined K pml4 m'
  same : ∀ g i, ¬ UserSlot K pml4 g i → m'.tables g i = m.tables g i

end Confined

variable {K : Set ℕ} {pml4 : ℕ} {m m' : PhysMem} {m₁ m₂ : PhysMem}

lemma UserFrame.slot (h : UserFrame K pml4 f) (i : ℕ) : UserSlot K pml4 f i := by
  rw [UserSlot, if_neg h.2]
  exact h.1

lemma userSlot_root : UserSlot K pml4 pml4 i ↔ i < 256 := by rw [UserSlot, if_pos rfl]

lemma kernelPath_snoc (p : List ℕ) (i : ℕ) (h : KernelPath (p ++ [i])) : KernelPath p :=
  path_snoc p i h

lemma kernelPath_tablePath (h : ¬ UserAddr v) : KernelPath (tablePath v) :=
  ⟨le_rfl, fun i hi => by
    obtain rfl : tableIndex v 39 = i := by simpa [tablePath] using hi
    exact Nat.not_lt.mp h⟩

section

variable (h : Confined K pml4 m)
include h

lemma Confined.not_slot (hf : f ∈ K) (i : ℕ) : ¬ UserSlot K pml4 f i := by
  have hne : f ≠ pml4 := fun heq => h.root (heq ▸ hf)
  rw [UserSlot, if_neg hne]
  exact not_not.mpr hf

lemma Confined.not_slot_of_walk {p : List ℕ} (hp : KernelPath (p ++ [i]))
    (hw : walk child m.tables pml4 p = some f) : ¬ UserSlot K pml4 f i := by
  cases p with
  | nil =>
    obtain rfl : pml4 = f := some.inj hw
    rw [userSlot_root]
    exact Nat.not_lt.mpr (hp.2 i rfl)
  | cons j p => exact h.not_slot (h.kernel _ f (kernelPath_snoc _ i hp) (by simp) hw) i

lemma Confined.walk_eq (hsame : ∀ g i, ¬ UserSlot K pml4 g i → m'.tables g i = m.tables g i) :
    ∀ p, KernelPath p → walk child m'.tables pml4 p = walk child m.tables pml4 p :=
  walk_congr kernelPath_snoc fun p i f hp hw => by
    rw [hsame f i (h.not_slot_of_walk hp hw)]

lemma Stays.mk' (hfree : ∀ f ∈ m'.free, UserFrame K pml4 f)
    (hclosed : ∀ g i, UserSlot K pml4 g i → m'.tables g i ≠ empty →
      UserFrame K pml4 (m'.tables g i).frame)
    (hsame : ∀ g i, ¬ UserSlot K pml4 g i → m'.tables g i = m.tables g i) : Stays K pml4 m m' :=
  ⟨⟨h.root, hfree, hclosed, fun p f hp hne hw =>
    h.kernel p f hp hne (by rw [← h.walk_eq hsame p hp]; exact hw)⟩, hsame⟩

lemma Stays.refl : Stays K pml4 m m := ⟨h, fun _ _ _ => rfl⟩

end

lemma Stays.trans (h1 : Stays K pml4 m m₁) (h2 : Stays K pml4 m₁ m₂) : Stays K pml4 m m₂ :=
  ⟨h2.confined, fun g i hs => (h2.same g i hs).trans (h1.same g i hs)⟩

/-- Memory with the same tables, whose new free frames are none of the kernel's. -/
lemma Stays.of_tables (h : Confined K pml4 m) (htables : m'.tables = m.tables)
    (hfree : ∀ f ∈ m'.free, UserFrame K pml4 f) : Stays K pml4 m m' :=
  .mk' h hfree (by rw [htables]; exact h.closed) fun g i _ => by rw [htables]

lemma Stays.pteAt_eq (h : Confined K pml4 m) (hst : Stays K pml4 m m') (hv : ¬ UserAddr v) :
    pteAt m' pml4 v = pteAt m pml4 v := by
  rw [pteAt, pteAt, h.walk_eq hst.same _ (kernelPath_tablePath hv)]
  cases hw : walk child m.tables pml4 (tablePath v) with
  | none => rfl
  | some t =>
    have ht := h.kernel _ t (kernelPath_tablePath hv) (by simp [tablePath]) hw
    exact hst.same t _ (h.not_slot ht _)

/-! ### What the operations on memory do -/

namespace Confined

section

variable (h : Confined K pml4 m)
include h

/-- A present entry of the user half leads to none of the kernel's frames. -/
lemma present (hs : UserSlot K pml4 g i)
    (hp : (m.tables g i).present = true) : UserFrame K pml4 (m.tables g i).frame :=
  h.closed g i hs fun heq => by rw [heq] at hp; nomatch hp

lemma setEntry {e : Pte} (hslot : UserSlot K pml4 g i)
    (he : e ≠ empty → UserFrame K pml4 e.frame) : Stays K pml4 m (m.setEntry g i e) := by
  refine .mk' h h.free (fun g' i' hs hne => ?_) fun g' i' hs => ?_
  · rw [setEntry_apply] at hne ⊢
    split_ifs at hne with hc
    · rw [if_pos hc]
      exact he hne
    · rw [if_neg hc]
      exact h.closed g' i' hs hne
  · rw [setEntry_apply, if_neg]
    rintro ⟨rfl, rfl⟩
    exact hs hslot

lemma zeroTable (hf : UserFrame K pml4 f) : Stays K pml4 m (m.zeroTable f) := by
  refine .mk' h h.free (fun g i hs hne => ?_) fun g i hs => ?_
  · rw [zeroTable_apply] at hne ⊢
    split_ifs at hne with hg
    · exact absurd rfl hne
    · rw [if_neg hg]
      exact h.closed g i hs hne
  · rw [zeroTable_apply, if_neg]
    rintro rfl
    exact hs (hf.slot i)

lemma buddyFree (hf : UserFrame K pml4 f) : Stays K pml4 m (m.buddyFree f) := by
  rw [PhysMem.buddyFree]
  split
  · exact .refl h
  · refine .of_tables h rfl fun g hg => ?_
    rcases mem_insert.mp hg with rfl | hg
    · exact hf
    · exact h.free g hg

lemma refDec (hf : UserFrame K pml4 f) : Stays K pml4 m (m.refDec f) := by
  obtain ⟨htables, -, -, hfree⟩ := refDec_spec m f
  refine .of_tables h htables fun g hg => ?_
  rcases hfree g hg with hg | ⟨rfl, -⟩
  · exact h.free g hg
  · exact hf

lemma alloc : Stays K pml4 m m.alloc.2 ∧ ∀ f, m.alloc.1 = some f → UserFrame K pml4 f := by
  rcases m.alloc_cases with hal | ⟨f, hf, hal⟩
  · rw [hal]
    exact ⟨.of_tables h rfl h.free, nofun⟩
  · rw [hal]
    refine ⟨.of_tables h rfl fun g hg => h.free g (mem_of_mem_erase hg), fun g hg => ?_⟩
    obtain rfl : f = g := some.inj hg
    exact h.free f hf

end

/-- **The walk** from an entry of the user half stays there. -/
lemma pteWalk_stays (create : Bool) (fl : BitVec 64) (path : List ℕ) : ∀ {cur : ℕ} {m : PhysMem},
    Confined K pml4 m → (∀ i ∈ path.head?, UserSlot K pml4 cur i) →
    (path = [] → UserFrame K pml4 cur) → Stays K pml4 m (pteWalk create fl path cur m).2 ∧
      ∀ t, (pteWalk create fl path cur m).1 = some t → UserFrame K pml4 t := by
  induction path with
  | nil =>
    intro cur m h _ hcur
    exact ⟨.refl h, fun t ht => some.inj ht ▸ hcur rfl⟩
  | cons i path ih =>
    intro cur m h hslot _
    have hcur := hslot i rfl
    -- from a frame that is none of the kernel's the rest of the walk goes on
    have hgo : ∀ {f : ℕ} {m₁ : PhysMem}, Stays K pml4 m m₁ → UserFrame K pml4 f →
        Stays K pml4 m (pteWalk create fl path f m₁).2 ∧
          ∀ t, (pteWalk create fl path f m₁).1 = some t → UserFrame K pml4 t := by
      intro f m₁ hst hf
      obtain ⟨hst', ht⟩ := ih hst.confined (fun j _ => hf.slot j) fun _ => hf
      exact ⟨hst.trans hst', ht⟩
    rw [pteWalk]
    split
    next hp => exact hgo (.refl h) (h.present hcur hp)
    next hp =>
      split
      · exact ⟨.refl h, by simp⟩
      · obtain ⟨hst, hf⟩ := h.alloc
        generalize m.alloc = r at hst hf
        obtain ⟨o, m₁⟩ := r
        cases o with
        | none => exact ⟨hst, by simp⟩
        | some f =>
          have hf := hf f rfl
          have hst := hst.trans (hst.confined.zeroTable hf)
          dsimp only
          split
          next => exact hgo (hst.trans (hst.confined.setEntry hcur fun _ => hf)) hf
          next hne =>
            exact hgo (hst.trans (hst.confined.buddyFree hf)) (hst.confined.closed cur i hcur hne)

lemma vmmPteGet_stays (h : Confined K pml4 m) (hv : UserAddr v) (create : Bool) (fl : BitVec 64) :
    Stays K pml4 m (vmmPteGet m pml4 v create fl).2 ∧
      ∀ t, (vmmPteGet m pml4 v create fl).1 = some t → UserFrame K pml4 t :=
  pteWalk_stays create fl (tablePath v) h (fun i hi => by
    obtain rfl : tableIndex v 39 = i := by simpa [tablePath] using hi
    exact userSlot_root.mpr hv) fun hnil => absurd hnil (by simp [tablePath])

lemma vmmPageMap_stays (h : Confined K pml4 m) {frame : ℕ} (hv : UserAddr v)
    (hf : UserFrame K pml4 frame) (fl : BitVec 64) :
    Stays K pml4 m (vmmPageMap m pml4 v frame fl).2 := by
  obtain ⟨hst, ht⟩ := h.vmmPteGet_stays hv true
    (pagePresent ||| pageWritable ||| if fl &&& pageUser != 0#64 then pageUser else 0#64)
  rw [vmmPageMap]
  generalize vmmPteGet m pml4 v true _ = r at hst ht
  obtain ⟨o, m₁⟩ := r
  cases o with
  | none => exact hst
  | some t => exact hst.trans (hst.confined.setEntry ((ht t rfl).slot _) fun _ => hf)

/-- Unmapping a user page gives a frame that is none of the kernel's. -/
lemma vmmPageUnmap_stays (h : Confined K pml4 m) (hv : UserAddr v) :
    Stays K pml4 m (vmmPageUnmap m pml4 v).2 ∧
      ∀ f, (vmmPageUnmap m pml4 v).1 = some f → UserFrame K pml4 f := by
  obtain ⟨hst, ht⟩ := h.vmmPteGet_stays hv false 0#64
  rw [vmmPageUnmap]
  generalize vmmPteGet m pml4 v false 0#64 = r at hst ht
  obtain ⟨o, m₁⟩ := r
  cases o with
  | none => exact ⟨hst, by simp⟩
  | some t =>
    have hslot : UserSlot K pml4 t (ptIdx v) := (ht t rfl).slot (ptIdx v)
    dsimp only
    split_ifs with hp
    · refine ⟨hst.trans (hst.confined.setEntry hslot fun hne => absurd rfl hne), fun f hf => ?_⟩
      exact some.inj hf ▸ hst.confined.present hslot hp
    · exact ⟨hst, by simp⟩

end Confined

lemma vmmPageUnmap_of_none (h : (pteAt m pml4 v).child = none) :
    vmmPageUnmap m pml4 v = (none, m) := by
  rw [pteAt] at h
  rw [vmmPageUnmap, vmmPteGet, pteWalk_false]
  cases hw : walk child m.tables pml4 (tablePath v) with
  | none => rfl
  | some t =>
    rw [hw] at h
    dsimp only at h ⊢
    rw [if_neg fun hp => by rw [child_of_present hp] at h; cases h]

/-! ### Entries that are removed -/

/-- Entries have been removed, and no others written. -/
def Cleared (m m' : PhysMem) : Prop :=
  ∀ g i, m'.tables g i = m.tables g i ∨ m'.tables g i = Pte.empty

lemma Cleared.refl (m : PhysMem) : Cleared m m := fun _ _ => .inl rfl

lemma Cleared.trans (h1 : Cleared m m₁) (h2 : Cleared m₁ m₂) : Cleared m m₂ := by
  intro g i
  rcases h2 g i with heq | heq
  · rw [heq]
    exact h1 g i
  · exact .inr heq

lemma Cleared.child (h : Cleared m m') (hf : (m'.tables g i).child = some f) :
    (m.tables g i).child = some f := by
  rcases h g i with heq | heq
  · rwa [heq] at hf
  · rw [heq] at hf
    nomatch hf

lemma Cleared.walk (h : Cleared m m') (path : List ℕ) : ∀ {cur t : ℕ},
    walk Pte.child m'.tables cur path = some t →
    walk Pte.child m.tables cur path = some t := by
  induction path with
  | nil => exact fun ht => ht
  | cons i path ih =>
    intro cur t ht
    obtain ⟨f, hf, ht⟩ := bind_eq_some_iff.mp ht
    exact bind_eq_some_iff.mpr ⟨f, h.child hf, ih ht⟩

lemma Cleared.child_pteAt (h : Cleared m m') (hf : (pteAt m' pml4 v).child = some f) :
    (pteAt m pml4 v).child = some f := by
  rw [pteAt] at hf ⊢
  cases hw : RadixTree.walk Pte.child m'.tables pml4 (tablePath v) with
  | none =>
    rw [hw] at hf
    exact absurd hf (by simp)
  | some t =>
    rw [hw] at hf
    rw [h.walk _ hw]
    exact h.child hf

/-- **`vmm_page_unmap`** at any address. -/
lemma vmmPageUnmap_cleared (m : PhysMem) (pml4 v : ℕ) :
    Cleared m (vmmPageUnmap m pml4 v).2 ∧ (pteAt (vmmPageUnmap m pml4 v).2 pml4 v).child = none := by
  rw [vmmPageUnmap, vmmPteGet, pteWalk_false]
  cases ht : walk child m.tables pml4 (tablePath v) with
  | none =>
    refine ⟨.refl m, ?_⟩
    rw [pteAt, ht]
    exact child_empty
  | some t =>
    dsimp only
    split
    case isFalse hp =>
      refine ⟨.refl m, ?_⟩
      rw [pteAt, ht]
      exact child_of_not hp
    case isTrue =>
      have hcl : Cleared m (m.setEntry t (ptIdx v) empty) := by
        intro g i
        rw [setEntry_apply]
        split
        · exact .inr rfl
        · exact .inl rfl
      refine ⟨hcl, ?_⟩
      rw [pteAt]
      split
      · exact child_empty
      next t' ht' =>
        obtain rfl : t = t' := Option.some.inj (ht.symm.trans (hcl.walk _ ht'))
        rw [PhysMem.setEntry_apply, if_pos ⟨rfl, rfl⟩, child_empty]

end Makaos
