import Makaos.Common
import Makaos.Lib.RadixTree

/-!
Physical memory by frames, and the page tables in it (`kernel/mm/pmm.c`, `vmm.c`).

* `Pte`, `PhysMem`: a page-table entry; the frames with their reference counts, their bytes and,
  where they hold a page table, its entries.
* `vmmPteGet`, `vmmPageMap`, `vmmPageUnmap`: the walk and what is done at its end.
* `pteAt`: the entry of an address; `UserTables`: the tables of the user half form a tree.
* `vmmPageUnmap_spec`, `vmmPageMap_spec`: the operations change the entry of one page.

Frames are given by their number.  Physical addresses lie below `2^52`, so that in
`(paddr & PAGE_ADDR_MASK) | flags` an entry keeps the frame and the flags apart.
-/

namespace Makaos

open Function RadixTree Option List Finset
/-! ### Entries -/

/-- `PAGE_PRESENT`. -/
def pagePresent : BitVec 64 := 1#64

/-- `PAGE_WRITABLE`. -/
def pageWritable : BitVec 64 := 2#64

/-- `PAGE_USER`. -/
def pageUser : BitVec 64 := 4#64

/-- `PAGE_NX`. -/
def pageNx : BitVec 64 := 1#64 <<< 63

/-- `pte_t`: the frame in bits 51:12 and the other bits. -/
structure Pte where
  frame : ℕ
  flags : BitVec 64
  deriving DecidableEq, Repr

/-- The entry 0. -/
def Pte.empty : Pte := ⟨0, 0#64⟩

/-- `entry & PAGE_PRESENT`. -/
def Pte.present (e : Pte) : Bool := e.flags &&& pagePresent != 0#64

/-- The table an entry leads to. -/
def Pte.child (e : Pte) : Option ℕ := if e.present then some e.frame else none

@[simp] lemma present_empty : Pte.empty.present = false := by decide

@[simp] lemma child_empty : Pte.empty.child = none := by decide

lemma child_of_present {e : Pte} (h : e.present = true) : e.child = some e.frame := if_pos h

lemma child_of_not {e : Pte} (h : ¬ e.present = true) : e.child = none := if_neg h

/-! ### Physical memory -/

/-- Physical memory by frames. -/
structure PhysMem where
  totalFrames : ℕ
  /-- the frames the page allocator can hand out -/
  free : Finset ℕ
  /-- the frames it tries to hand out in the coming calls -/
  picks : List ℕ
  /-- `g_frame_refcount` -/
  refs : ℕ → ℕ
  /-- `g_frame_pincount` -/
  pins : ℕ → ℕ
  bytes : ℕ → ℕ → UInt8
  /-- the entries of the page tables -/
  tables : ℕ → ℕ → Pte

namespace PhysMem

/-- `pmm_buddy_alloc(0)`: some free frame, marked as allocated, or none. -/
def alloc (m : PhysMem) : Option ℕ × PhysMem :=
  match m.picks with
  | [] => (none, m)
  | f :: picks =>
    if f ∈ m.free then
      (some f, { m with
        free := m.free.erase f
        picks := picks
        refs := update m.refs f 1 })
    else (none, { m with picks := picks })

/-- `pmm_buddy_free(frame, 0)`. -/
def buddyFree (m : PhysMem) (f : ℕ) : PhysMem :=
  if f ≥ m.totalFrames then m
  else { m with free := insert f m.free, refs := update m.refs f 0 }

/-- `pmm_ref_inc`. -/
def refInc (m : PhysMem) (f : ℕ) : PhysMem :=
  if f ≥ m.totalFrames then m else { m with refs := update m.refs f (m.refs f + 1) }

/-- `pmm_ref_dec`: the last reference frees the frame, unless it is pinned. -/
def refDec (m : PhysMem) (f : ℕ) : PhysMem :=
  if f ≥ m.totalFrames then m
  else if m.refs f = 0 then m
  else
    let m := { m with refs := update m.refs f (m.refs f - 1) }
    if m.refs f = 0 then if m.pins f > 0 then m else m.buddyFree f else m

/-- `zero_page` on the frame of a table. -/
def zeroTable (m : PhysMem) (f : ℕ) : PhysMem :=
  { m with tables := update m.tables f fun _ => Pte.empty }

/-- `memset` of a frame to zero. -/
def zeroFrame (m : PhysMem) (f : ℕ) : PhysMem :=
  { m with bytes := update m.bytes f fun _ => 0 }

/-- Write an entry of a table. -/
def setEntry (m : PhysMem) (f i : ℕ) (e : Pte) : PhysMem :=
  { m with tables := update m.tables f (update (m.tables f) i e) }

lemma setEntry_apply (m : PhysMem) (f i : ℕ) (e : Pte) (g j : ℕ) :
    (m.setEntry f i e).tables g j = if g = f ∧ j = i then e else m.tables g j := by
  by_cases hg : g = f
  · subst hg
    by_cases hj : j = i
    · subst hj
      simp [setEntry]
    · simp [setEntry, hj]
  · simp [setEntry, hg]

lemma zeroTable_apply (m : PhysMem) (f g j : ℕ) :
    (m.zeroTable f).tables g j = if g = f then Pte.empty else m.tables g j := by
  simp only [zeroTable, update_apply]
  split <;> rfl

end PhysMem

/-! ### The walk -/

/-- `(vaddr >> shift) & 0x1FF`. -/
def tableIndex (vaddr shift : ℕ) : ℕ := vaddr / 2 ^ shift % 512

/-- The indices on the way to the page table of an address. -/
def tablePath (vaddr : ℕ) : List ℕ := [tableIndex vaddr 39, tableIndex vaddr 30, tableIndex vaddr 21]

/-- `PT_IDX`. -/
def ptIdx (vaddr : ℕ) : ℕ := tableIndex vaddr 12

/-- The loop of `vmm_pte_get`: the table at the end of the path, where missing tables are made if
`create` says so. -/
def pteWalk (create : Bool) (interFlags : BitVec 64) :
    List ℕ → ℕ → PhysMem → Option ℕ × PhysMem
  | [], cur, m => (some cur, m)
  | i :: path, cur, m =>
    if (m.tables cur i).present then pteWalk create interFlags path (m.tables cur i).frame m
    else if !create then (none, m)
    else
      match m.alloc with
      | (none, m) => (none, m)
      | (some f, m) =>
        let m := m.zeroTable f
        -- the compare-and-swap expects an entry that is zero
        if m.tables cur i = Pte.empty then
          pteWalk create interFlags path f (m.setEntry cur i ⟨f, interFlags ||| pagePresent⟩)
        else pteWalk create interFlags path (m.tables cur i).frame (m.buddyFree f)

/-- `vmm_pte_get`: the page table that holds the entry of the address. -/
def vmmPteGet (m : PhysMem) (pml4 vaddr : ℕ) (create : Bool) (interFlags : BitVec 64) :
    Option ℕ × PhysMem :=
  pteWalk create interFlags (tablePath vaddr) pml4 m

/-- `vmm_page_map`. -/
def vmmPageMap (m : PhysMem) (pml4 vaddr frame : ℕ) (flags : BitVec 64) : Bool × PhysMem :=
  let inter := pagePresent ||| pageWritable |||
    if flags &&& pageUser != 0#64 then pageUser else 0#64
  match vmmPteGet m pml4 vaddr true inter with
  | (none, m) => (false, m)
  | (some t, m) => (true, m.setEntry t (ptIdx vaddr) ⟨frame, flags⟩)

/-- `vmm_page_unmap`: the frame that was mapped, if one was. -/
def vmmPageUnmap (m : PhysMem) (pml4 vaddr : ℕ) : Option ℕ × PhysMem :=
  match vmmPteGet m pml4 vaddr false 0#64 with
  | (none, m) => (none, m)
  | (some t, m) =>
    let e := m.tables t (ptIdx vaddr)
    if e.present then (some e.frame, m.setEntry t (ptIdx vaddr) Pte.empty) else (none, m)

/-! ### The entry of an address -/

/-- The page an address lies on, as far as the walk tells pages apart: bits 47:12. -/
def pageIndex (vaddr : ℕ) : ℕ := vaddr / pageSize % 2 ^ 36

/-- The address lies in the user half: the walk starts in `PML4[0..255]`. -/
def UserAddr (vaddr : ℕ) : Prop := tableIndex vaddr 39 < 256

instance : DecidablePred UserAddr := fun vaddr =>
  inferInstanceAs (Decidable (tableIndex vaddr 39 < 256))

/-- The page-table entry of an address; zero where a table is missing. -/
def pteAt (m : PhysMem) (pml4 vaddr : ℕ) : Pte :=
  match RadixTree.walk Pte.child m.tables pml4 (tablePath vaddr) with
  | none => Pte.empty
  | some t => m.tables t (ptIdx vaddr)

/-- The paths to the tables of the user half. -/
def UserPath (p : List ℕ) : Prop := p.length ≤ 3 ∧ ∀ i ∈ p.head?, i < 256

variable {vaddr : ℕ}

lemma userAddr_of_lt (h : vaddr < 2 ^ 47) : UserAddr vaddr := by
  simp only [UserAddr, tableIndex]
  omega

lemma path_snoc {P : ℕ → Prop} (p : List ℕ) (i : ℕ)
    (h : (p ++ [i]).length ≤ 3 ∧ ∀ j ∈ (p ++ [i]).head?, P j) :
    p.length ≤ 3 ∧ ∀ j ∈ p.head?, P j := by
  have hlen := h.1
  rw [length_append, length_singleton] at hlen
  refine ⟨by omega, fun j hj => h.2 j ?_⟩
  cases p with
  | nil => nomatch hj
  | cons k p => exact hj

lemma userPath_snoc (p : List ℕ) (i : ℕ) (h : UserPath (p ++ [i])) : UserPath p := path_snoc p i h

lemma userPath_tablePath (h : UserAddr vaddr) : UserPath (tablePath vaddr) :=
  ⟨le_rfl, fun i hi => by
    obtain rfl : tableIndex vaddr 39 = i := by simpa [tablePath] using hi
    exact h⟩

lemma path_eq_iff {v w : ℕ} :
    (tablePath w = tablePath v ∧ ptIdx w = ptIdx v) ↔ pageIndex w = pageIndex v := by
  simp only [tablePath, ptIdx, tableIndex, pageIndex, pageSize, cons.injEq, and_true]
  omega

lemma pteWalk_false (fl : BitVec 64) (path : List ℕ) (cur : ℕ) (m : PhysMem) :
    pteWalk false fl path cur m = (walk Pte.child m.tables cur path, m) := by
  induction path generalizing cur with
  | nil => rfl
  | cons i path ih =>
    rw [pteWalk, walk]
    split
    next hp => rw [ih, child_of_present hp, bind_some]
    next hp =>
      rw [child_of_not hp]
      rfl

lemma vmmPageUnmap_fst (m : PhysMem) (pml4 vaddr : ℕ) :
    (vmmPageUnmap m pml4 vaddr).1 = (pteAt m pml4 vaddr).child := by
  rw [vmmPageUnmap, vmmPteGet, pteWalk_false, pteAt]
  cases walk Pte.child m.tables pml4 (tablePath vaddr) with
  | none => exact child_empty.symm
  | some t =>
    dsimp only
    split_ifs with hp
    · rw [child_of_present hp]
    · rw [child_of_not hp]

/-! ### The tables of the user half -/

/-- **The tables of the user half** form a tree, and an entry on the way to a page table is present
or zero. -/
structure UserTables (m : PhysMem) (pml4 : ℕ) : Prop where
  tree : RadixTree.IsTree Pte.child m.tables pml4 UserPath
  clean : ∀ p i f, UserPath (p ++ [i]) → RadixTree.walk Pte.child m.tables pml4 p = some f →
    (m.tables f i).present = true ∨ m.tables f i = Pte.empty

/-- No table of the user half is free. -/
def TablesTaken (m : PhysMem) (pml4 : ℕ) : Prop :=
  ∀ p f, UserPath p → RadixTree.walk Pte.child m.tables pml4 p = some f → f ∉ m.free

section Entries

variable {m : PhysMem} {pml4 t v w : ℕ} {e : Pte} {fl : BitVec 64}

/-- A page table of the user half has paths to it, but none through it. -/
lemma not_userPath_leaf (i : ℕ) : ¬ UserPath (tablePath v ++ [i]) := fun h => by
  simpa [tablePath] using h.1

/-- **Writing the entry of a page** keeps the tables and changes the entry of that page only. -/
lemma setEntry_spec (h : UserTables m pml4) (hv : UserAddr v)
    (ht : walk Pte.child m.tables pml4 (tablePath v) = some t) :
    UserTables (m.setEntry t (ptIdx v) e) pml4 ∧
      ∀ w, UserAddr w → pteAt (m.setEntry t (ptIdx v) e) pml4 w =
        if pageIndex w = pageIndex v then e else pteAt m pml4 w := by
  have hwalk : ∀ q, UserPath q → walk Pte.child (m.setEntry t (ptIdx v) e).tables pml4 q =
      walk Pte.child m.tables pml4 q :=
    h.tree.walk_leaf userPath_snoc (userPath_tablePath hv) ht (not_userPath_leaf (ptIdx v))
      fun g j hne => by rw [PhysMem.setEntry_apply, if_neg hne]
  refine ⟨⟨⟨fun p q f hp hq hwp hwq => ?_⟩, fun p i f hp hwp => ?_⟩, fun w hw => ?_⟩
  · rw [hwalk p hp] at hwp
    rw [hwalk q hq] at hwq
    exact h.tree.inj p q f hp hq hwp hwq
  · have hp' := userPath_snoc p i hp
    rw [hwalk p hp'] at hwp
    rw [PhysMem.setEntry_apply, if_neg]
    · exact h.clean p i f hp hwp
    · rintro ⟨rfl, rfl⟩
      rw [h.tree.inj p _ f hp' (userPath_tablePath hv) hwp ht] at hp
      exact not_userPath_leaf _ hp
  · rw [pteAt, hwalk _ (userPath_tablePath hw), pteAt]
    cases hwt : walk Pte.child m.tables pml4 (tablePath w) with
    | none =>
      refine (if_neg fun heq => ?_).symm
      rw [(path_eq_iff.mpr heq).1, ht] at hwt
      nomatch hwt
    | some t' =>
      dsimp only
      rw [PhysMem.setEntry_apply]
      refine if_congr ⟨fun ⟨heq, hidx⟩ => ?_, fun heq => ?_⟩ rfl rfl
      · refine path_eq_iff.mp ⟨?_, hidx⟩
        exact h.tree.inj _ _ t' (userPath_tablePath hw) (userPath_tablePath hv) hwt (heq ▸ ht)
      · obtain ⟨hpath, hidx⟩ := path_eq_iff.mpr heq
        rw [hpath, ht] at hwt
        exact ⟨(some.inj hwt).symm, hidx⟩

/-- **`vmm_page_unmap`** clears the entry of the page, if it is present. -/
lemma vmmPageUnmap_spec (h : UserTables m pml4) (hv : UserAddr v) :
    UserTables (vmmPageUnmap m pml4 v).2 pml4 ∧
      (∀ w, UserAddr w → pteAt (vmmPageUnmap m pml4 v).2 pml4 w =
        if pageIndex w = pageIndex v ∧ (pteAt m pml4 v).present = true then Pte.empty
        else pteAt m pml4 w) ∧
      (vmmPageUnmap m pml4 v).2 = { m with tables := (vmmPageUnmap m pml4 v).2.tables } := by
  rw [vmmPageUnmap, vmmPteGet, pteWalk_false]
  cases ht : walk Pte.child m.tables pml4 (tablePath v) with
  | none =>
    have habsent : (pteAt m pml4 v).present = false := by
      rw [pteAt, ht]
      exact present_empty
    exact ⟨h, fun w _ => by rw [if_neg (by simp [habsent])], rfl⟩
  | some t =>
    have hpte : pteAt m pml4 v = m.tables t (ptIdx v) := by rw [pteAt, ht]
    rw [hpte]
    dsimp only
    split_ifs with hp
    · obtain ⟨htables, hentry⟩ := setEntry_spec (e := Pte.empty) h hv ht
      refine ⟨htables, fun w hw => ?_, rfl⟩
      rw [hentry w hw]
      simp only [hp, and_true]
    · exact ⟨h, fun w _ => by rw [if_neg fun hc => hp hc.2], rfl⟩

/-! ### Making tables -/

/-- The tables have grown: no entry of a page has changed, and only frames that were free have been
used. -/
structure Grown (m m' : PhysMem) (pml4 : ℕ) : Prop where
  tables : UserTables m' pml4
  taken : TablesTaken m' pml4
  pte : ∀ w, UserAddr w → pteAt m' pml4 w = pteAt m pml4 w
  free : m'.free ⊆ m.free
  refs : ∀ f, f ∉ m.free → m'.refs f = m.refs f
  bytes : m'.bytes = m.bytes
  total : m'.totalFrames = m.totalFrames

lemma Grown.trans {m1 m2 : PhysMem} (h1 : Grown m m1 pml4) (h2 : Grown m1 m2 pml4) :
    Grown m m2 pml4 where
  tables := h2.tables
  taken := h2.taken
  pte := fun w hw => (h2.pte w hw).trans (h1.pte w hw)
  free := h2.free.trans h1.free
  refs := fun f hf => (h2.refs f fun hmem => hf (h1.free hmem)).trans (h1.refs f hf)
  bytes := h2.bytes.trans h1.bytes
  total := h2.total.trans h1.total

lemma Grown.refl (h : UserTables m pml4) (htaken : TablesTaken m pml4) : Grown m m pml4 :=
  ⟨h, htaken, fun _ _ => rfl, fun _ hf => hf, fun _ _ => rfl, rfl, rfl⟩

lemma PhysMem.alloc_cases (m : PhysMem) :
    m.alloc = (none, { m with picks := m.picks.tail }) ∨
      ∃ f ∈ m.free, m.alloc = (some f, { m with
        free := m.free.erase f
        picks := m.picks.tail
        refs := update m.refs f 1 }) := by
  rw [PhysMem.alloc]
  cases hp : m.picks with
  | nil =>
    left
    rw [show ([] : List ℕ).tail = m.picks from hp.symm]
  | cons f picks =>
    dsimp only
    split_ifs with hf
    · exact .inr ⟨f, hf, rfl⟩
    · exact .inl rfl

lemma grown_table (h : UserTables m pml4) (htaken : TablesTaken m pml4) {p : List ℕ} {i cur f : ℕ}
    (hp : UserPath (p ++ [i]))
    (hw : walk Pte.child m.tables pml4 p = some cur) (hempty : m.tables cur i = Pte.empty)
    (hf : f ∈ m.free) (hfl : fl &&& pagePresent ≠ 0#64) {m1 : PhysMem} (hm1 : m1 = (({ m with
      free := m.free.erase f
      picks := m.picks.tail
      refs := update m.refs f 1 } : PhysMem).zeroTable f).setEntry cur i ⟨f, fl⟩) :
    Grown m m1 pml4 ∧ walk Pte.child m1.tables pml4 (p ++ [i]) = some f := by
  have hp' := userPath_snoc p i hp
  have hfresh : ∀ q, UserPath q → walk Pte.child m.tables pml4 q ≠ some f :=
    fun q hq hwq => htaken q f hq hwq hf
  have hne : cur ≠ f := fun heq => hfresh p hp' (heq ▸ hw)
  have hentry : ∀ g j, m1.tables g j =
      if g = cur ∧ j = i then ⟨f, fl⟩ else if g = f then Pte.empty else m.tables g j := by
    intro g j
    rw [hm1, PhysMem.setEntry_apply, PhysMem.zeroTable_apply]
  have hlink : (m1.tables cur i).child = some f := by
    rw [hentry, if_pos ⟨rfl, rfl⟩]
    exact child_of_present (by simpa [Pte.present] using hfl)
  have hnil : ∀ j, m1.tables f j = Pte.empty := by
    intro j
    rw [hentry, if_neg fun hc => hne hc.1.symm, if_pos rfl]
  have hsame : ∀ g j, g ≠ f → ¬ (g = cur ∧ j = i) → m1.tables g j = m.tables g j := by
    intro g j hg hslot
    rw [hentry, if_neg hslot, if_neg hg]
  have hnone : (m.tables cur i).child = none := by rw [hempty, child_empty]
  have hchild : ∀ j, (m1.tables f j).child = none := fun j => by rw [hnil, child_empty]
  have hwalk := h.tree.walk_grow userPath_snoc hp' hw hnone hfresh hlink hchild hsame
  subst hm1
  refine ⟨⟨⟨h.tree.grow userPath_snoc hp' hw hnone hfresh hlink hchild hsame, ?_⟩, ?_, ?_,
    erase_subset _ _, ?_, rfl, rfl⟩, by rw [hwalk _ hp, if_pos rfl]⟩
  · intro q j g hq hwq
    rw [hwalk q (userPath_snoc q j hq)] at hwq
    split at hwq
    · cases hwq
      exact .inr (hnil j)
    · have hg : g ≠ f := fun heq => hfresh q (userPath_snoc q j hq) (heq ▸ hwq)
      by_cases hslot : g = cur ∧ j = i
      · left
        rw [hentry, if_pos hslot]
        simpa [Pte.present] using hfl
      · rw [hsame g j hg hslot]
        exact h.clean q j g hq hwq
  · intro q g hq hwq
    rw [hwalk q hq] at hwq
    split at hwq
    · cases hwq
      exact notMem_erase f m.free
    · exact fun hg => htaken q g hq hwq (mem_of_mem_erase hg)
  · intro w hw'
    have hpath := userPath_tablePath hw'
    rw [pteAt, hwalk _ hpath, pteAt]
    by_cases heq : tablePath w = p ++ [i]
    · -- the new table is the page table of this address: empty now, missing before
      rw [if_pos heq, heq, walk_snoc, hw, bind_some, hnone]
      exact hnil _
    · rw [if_neg heq]
      cases hwt : walk Pte.child m.tables pml4 (tablePath w) with
      | none => rfl
      | some t =>
        refine hsame t _ (fun heq' => hfresh _ hpath (heq' ▸ hwt)) fun hslot => ?_
        rw [← h.tree.inj _ _ cur hpath hp' (hslot.1 ▸ hwt) hw] at hp
        exact not_userPath_leaf _ hp
  · intro g hg
    exact update_of_ne (fun heq => hg (by rw [heq]; exact hf)) _ _

/-- **`vmm_pte_get` with `create`**: the tables grow, and if it finds a table, this is the page
table of the address. -/
lemma pteWalk_create (path : List ℕ) : ∀ {m : PhysMem} {p : List ℕ} {cur : ℕ},
    UserTables m pml4 → TablesTaken m pml4 → UserPath (p ++ path) →
    walk Pte.child m.tables pml4 p = some cur →
    Grown m (pteWalk true fl path cur m).2 pml4 ∧ ∀ t, (pteWalk true fl path cur m).1 = some t →
        walk Pte.child (pteWalk true fl path cur m).2.tables pml4 (p ++ path) = some t := by
  induction path with
  | nil =>
    intro m p cur h htaken _ hw
    refine ⟨Grown.refl h htaken, fun t ht => ?_⟩
    rw [append_nil]
    exact hw.trans ht
  | cons i path ih =>
    intro m p cur h htaken hpath hw
    have hsplit : p ++ i :: path = (p ++ [i]) ++ path := by simp
    have hpi : UserPath (p ++ [i]) := by
      rw [hsplit] at hpath
      refine ⟨le_trans (by simp) hpath.1, fun j hj => hpath.2 j ?_⟩
      rw [head?_append, hj]
      rfl
    rw [hsplit] at hpath ⊢
    rw [pteWalk]
    split
    next hpres =>
      refine ih h htaken hpath ?_
      rw [walk_snoc, hw, bind_some, child_of_present hpres]
    next hpres =>
      have hempty := (h.clean p i cur hpi hw).resolve_left hpres
      simp only [Bool.not_true, Bool.false_eq_true, if_false]
      rcases m.alloc_cases with hal | ⟨f, hf, hal⟩
      · rw [hal]
        exact ⟨⟨⟨h.tree, h.clean⟩, htaken, fun _ _ => rfl, fun _ hf => hf, fun _ _ => rfl, rfl,
          rfl⟩, nofun⟩
      · have hne : cur ≠ f :=
          fun heq => htaken p cur (userPath_snoc p i hpi) hw (heq ▸ hf)
        have hfl : (fl ||| pagePresent) &&& pagePresent ≠ 0#64 := by
          intro hzero
          have := congrArg (·.getLsbD 0) hzero
          simp [pagePresent] at this
        obtain ⟨hgrown, hwalk⟩ := grown_table h htaken hpi hw hempty hf hfl rfl
        rw [hal]
        dsimp only
        rw [PhysMem.zeroTable_apply, if_neg hne, if_pos hempty]
        obtain ⟨hgrown', hwalk'⟩ := ih hgrown.tables hgrown.taken hpath hwalk
        exact ⟨hgrown.trans hgrown', hwalk'⟩

/-- **`vmm_page_map`**: the tables grow, and then the entry of the page is written. -/
lemma vmmPageMap_spec (h : UserTables m pml4) (htaken : TablesTaken m pml4) (hv : UserAddr v)
    {frame : ℕ} {flags : BitVec 64} (hok : (vmmPageMap m pml4 v frame flags).1 = true) :
    UserTables (vmmPageMap m pml4 v frame flags).2 pml4 ∧
      ∀ w, UserAddr w → pteAt (vmmPageMap m pml4 v frame flags).2 pml4 w =
        if pageIndex w = pageIndex v then ⟨frame, flags⟩ else pteAt m pml4 w := by
  obtain ⟨hgrown, hwalk⟩ := @pteWalk_create pml4 (pagePresent ||| pageWritable |||
    if flags &&& pageUser != 0#64 then pageUser else 0#64) (tablePath v) m [] pml4 h htaken
    (userPath_tablePath hv) rfl
  rw [vmmPageMap, vmmPteGet] at *
  generalize pteWalk true _ (tablePath v) pml4 m = r at *
  obtain ⟨o, m1⟩ := r
  cases o with
  | none => nomatch hok
  | some t =>
    obtain ⟨htables, hentry⟩ :=
      @setEntry_spec m1 pml4 t v ⟨frame, flags⟩ hgrown.tables hv (hwalk t rfl)
    refine ⟨htables, fun w hw => ?_⟩
    rw [hentry w hw, hgrown.pte w hw]

lemma userTables_of_empty (hempty : ∀ f i, m.tables f i = Pte.empty) (hfree : pml4 ∉ m.free) :
    UserTables m pml4 ∧ TablesTaken m pml4 ∧ ∀ w, pteAt m pml4 w = Pte.empty := by
  have hwalk : ∀ p f, walk Pte.child m.tables pml4 p = some f → p = [] ∧ f = pml4 := by
    intro p f hw
    cases p with
    | nil => exact ⟨rfl, (some.inj hw).symm⟩
    | cons i p =>
      rw [walk, hempty, child_empty] at hw
      cases hw
  refine ⟨⟨⟨fun p q f _ _ hp hq => ?_⟩, fun p i f _ _ => .inr (hempty f i)⟩,
    fun p f _ hp => ?_, fun w => ?_⟩
  · rw [(hwalk p f hp).1, (hwalk q f hq).1]
  · rwa [(hwalk p f hp).2]
  · rw [pteAt]
    split
    · rfl
    next t _ => exact hempty t _

end Entries

end Makaos
