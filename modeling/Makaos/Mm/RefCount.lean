import Makaos.Mm.Fork
import Mathlib.Logic.Relation

/-!
The reference counts of user frames.

* `World.owners`: how often a frame is mapped, cached and held by objects.
* `Owned`: the reference count of every frame is the number of its owners and of the references the
  running code holds.
* one lemma for every operation: which references it takes over and gives away.
-/

namespace Makaos

open Function List AddrSpace Nat
variable {e : CacheEntry} {pt : PteMap}
namespace World

/-! ### Owners -/

/-- How often the entries map the frame, outside device memory. -/
def AddrSpace.maps (sp : AddrSpace) (f : ℕ) : ℕ :=
  sp.pt.entries.countP fun e => e.2.frame = f ∧ mmioPage sp.mm.vmas e.1 = false

/-- How often the objects hold the frame. -/
def objectRefs (shmems : List (Option Shmem)) (f : ℕ) : ℕ :=
  (shmems.map fun o => (o.elim [] Shmem.pages).count (some f)).sum

/-- How often the cache holds the frame. -/
def cacheRefs (cache : List CacheEntry) (f : ℕ) : ℕ := (cache.map CacheEntry.frame).count f

/-- How often the address spaces map the frame. -/
def mapRefs (spaces : List AddrSpace) (f : ℕ) : ℕ := (spaces.map fun sp => AddrSpace.maps sp f).sum

/-- The owners of a frame. -/
def owners (w : World) (f : ℕ) : ℕ :=
  mapRefs w.spaces f + cacheRefs w.cache f + objectRefs w.shmems f

/-- **The references are accounted for**: outside the frames `K` that the kernel uses otherwise, the
reference count of a frame is the number of its owners plus the references `held` by the running
code, and the frames without a reference are the free ones. -/
structure Owned (K : Set ℕ) (w : World) (held : List ℕ) : Prop where
  refs : ∀ f < w.mem.totalFrames, f ∉ K → w.mem.refs f = w.owners f + held.count f
  ram : ∀ f, 0 < w.owners f + held.count f → f < w.mem.totalFrames ∧ f ∉ K
  free : ∀ f ∈ w.mem.free, f < w.mem.totalFrames ∧ f ∉ K ∧ w.mem.refs f = 0
  back : ∀ f < w.mem.totalFrames, f ∉ K → w.mem.pins f = 0 → w.mem.refs f = 0 → f ∈ w.mem.free
  cacheOnce : ∀ f, cacheRefs w.cache f ≤ 1
  objectOnce : ∀ f, objectRefs w.shmems f ≤ 1

lemma count_cons_eq (f g : ℕ) (l : List ℕ) :
    (f :: l).count g = l.count g + if f = g then 1 else 0 := by
  simp [count_cons]

variable {K : Set ℕ} {w w' : World} {held held' : List ℕ} {f : ℕ} {ino idx : ℕ}

namespace Owned

section

variable (h : Owned K w held)
include h

/-- A change of owners that the references held make up for. -/
lemma shift (hm : w'.mem = w.mem)
    (hsum : ∀ g, w'.owners g + held'.count g = w.owners g + held.count g)
    (hc : ∀ f, cacheRefs w'.cache f ≤ 1) (ho : ∀ f, objectRefs w'.shmems f ≤ 1) :
    Owned K w' held' where
  refs g hlt hK := by
    rw [hm] at hlt ⊢
    rw [hsum, h.refs g hlt hK]
  ram g hpos := by
    rw [hsum] at hpos
    rw [hm]
    exact h.ram g hpos
  free := by rw [hm]; exact h.free
  back := by rw [hm]; exact h.back
  cacheOnce := hc
  objectOnce := ho

lemma not_free (hpos : 0 < w.owners f + held.count f) : f ∉ w.mem.free := by
  intro hf
  obtain ⟨hlt, hK, hzero⟩ := h.free f hf
  have := h.refs f hlt hK
  omega

lemma owners_of_free (hf : f ∈ w.mem.free) : w.owners f = 0 ∧ held.count f = 0 := by
  obtain ⟨hlt, hK, hzero⟩ := h.free f hf
  have := h.refs f hlt hK
  omega

/-! ### Memory -/

/-- An allocation gives a frame with one reference and no owner. -/
lemma taking (hf : f ∈ w.mem.free) : Owned K (w.taking f) (f :: held) := by
  obtain ⟨hlt, hK, hzero⟩ := h.free f hf
  have hnone := h.owners_of_free hf
  refine ⟨fun g hg hgK => ?_, fun g hpos => ?_, fun g hg => ?_, fun g hg hgK hpin hrefs => ?_,
    h.cacheOnce, h.objectOnce⟩
  · have hrefs := h.refs g hg hgK
    show update w.mem.refs f 1 g = w.owners g + _
    rw [count_cons_eq]
    by_cases heq : f = g
    · subst heq
      rw [update_self, if_pos rfl]
      omega
    · rw [update_of_ne (Ne.symm heq), if_neg heq]
      omega
  · by_cases heq : f = g
    · exact heq ▸ ⟨hlt, hK⟩
    · rw [count_cons_eq, if_neg heq] at hpos
      exact h.ram g hpos
  · obtain ⟨hne, hg⟩ := Finset.mem_erase.mp hg
    obtain ⟨hglt, hgK, hgz⟩ := h.free g hg
    exact ⟨hglt, hgK, (update_of_ne hne _ _).trans hgz⟩
  · have hne : g ≠ f := by
      rintro rfl
      exact absurd hrefs (by simp [World.taking])
    exact Finset.mem_erase.mpr ⟨hne, h.back g hg hgK hpin ((update_of_ne hne _ _).symm.trans hrefs)⟩

lemma alloc_cases : (∃ w1, w.alloc = (none, w1) ∧ Owned K w1 held) ∨ ∃ f ∈ w.mem.free,
      w.alloc = (some f, w.taking f) ∧ Owned K (w.taking f) (f :: held) := by
  rcases w.alloc_cases with hal | ⟨f, hf, hal⟩
  · exact .inl ⟨_, hal, { h with }⟩
  · exact .inr ⟨f, hf, hal, h.taking hf⟩

lemma refInc (hpos : 0 < w.owners f + held.count f) : Owned K (w.refInc f) (f :: held) := by
  obtain ⟨hlt, hK⟩ := h.ram f hpos
  have hmem : (w.refInc f).mem = _ := PhysMem.refInc_refs hlt
  have hown : ∀ g, (w.refInc f).owners g = w.owners g := fun _ => rfl
  have hrefs : ∀ g, (w.refInc f).mem.refs g = w.mem.refs g + if f = g then 1 else 0 := by
    intro g
    rw [hmem]
    grind [update_apply]
  refine ⟨fun g hg hgK => ?_, fun g hg => ?_, fun g hg => ?_, fun g hg hgK hpin hz => ?_,
    h.cacheOnce, h.objectOnce⟩
  · rw [hmem] at hg
    rw [hrefs, count_cons_eq, hown, h.refs g hg hgK, add_assoc]
  · rw [hmem]
    by_cases heq : f = g
    · exact heq ▸ ⟨hlt, hK⟩
    · refine h.ram g ?_
      rwa [count_cons_eq, if_neg heq] at hg
  · rw [hmem] at hg
    obtain ⟨hglt, hgK, hz⟩ := h.free g hg
    have hne : f ≠ g := fun heq => h.not_free hpos (heq ▸ hg)
    rw [hrefs, if_neg hne, hz, hmem]
    exact ⟨hglt, hgK, rfl⟩
  · rw [hrefs] at hz
    rw [hmem] at hg hpin ⊢
    exact h.back g hg hgK hpin (by omega)

end

lemma refDec (h : Owned K w (f :: held)) : Owned K (w.refDec f) held := by
  have hpos : 0 < w.owners f + (f :: held).count f := by
    rw [count_cons_self]
    omega
  obtain ⟨hlt, hK⟩ := h.ram f hpos
  have hcount := h.refs f hlt hK
  have hmem : (w.refDec f).mem = _ := PhysMem.refDec_refs hlt (by omega)
  have hown : ∀ g, (w.refDec f).owners g = w.owners g := fun _ => rfl
  rw [count_cons_eq, if_pos rfl] at hcount
  have hrefs : ∀ g, (w.refDec f).mem.refs g = w.mem.refs g - if f = g then 1 else 0 := by
    intro g
    rw [hmem]
    grind [update_apply]
  refine ⟨fun g hg hgK => ?_, fun g hg => ?_, fun g hg => ?_, fun g hg hgK hpin hz => ?_,
    h.cacheOnce, h.objectOnce⟩
  · rw [hmem] at hg
    rw [hrefs, hown, h.refs g hg hgK, count_cons_eq]
    omega
  · rw [hmem]
    refine h.ram g ?_
    rw [count_cons_eq]
    rw [hown] at hg
    omega
  · rw [hrefs]
    rw [hmem] at hg ⊢
    dsimp only at hg ⊢
    split_ifs at hg with hlast
    · rcases Finset.mem_insert.mp hg with rfl | hg
      · exact ⟨hlt, hK, by rw [if_pos rfl]; omega⟩
      · obtain ⟨hglt, hgK, hz⟩ := h.free g hg
        exact ⟨hglt, hgK, by omega⟩
    · obtain ⟨hglt, hgK, hz⟩ := h.free g hg
      exact ⟨hglt, hgK, by omega⟩
  · rw [hrefs] at hz
    rw [hmem] at hg hpin ⊢
    dsimp only at hpin ⊢
    by_cases heq : f = g
    · subst heq
      rw [if_pos rfl] at hz
      rw [if_pos ⟨by omega, hpin⟩]
      exact Finset.mem_insert_self _ _
    · rw [if_neg heq] at hz
      have hg' := h.back g hg hgK hpin (by omega)
      split
      · exact Finset.mem_insert_of_mem hg'
      · exact hg'

lemma refDecs (fs : List ℕ) : ∀ {w : World}, Owned K w (fs ++ held) →
    Owned K (fs.foldl World.refDec w) held := by
  induction fs with
  | nil => exact fun h => h
  | cons f fs ih => exact fun h => ih (refDec h)

lemma perm (h : Owned K w held) (hp : held.Perm held') : Owned K w held' :=
  h.shift rfl (fun g => by rw [hp.count_eq]) h.cacheOnce h.objectOnce

end Owned

/-! ### Entries -/

section Entries

variable {sp : AddrSpace} {i n : ℕ} {e e' : Pte}

lemma countP_insert (pt : PteMap) (n : ℕ) (e : Pte) (P : (Σ _ : ℕ, Pte) → Bool) :
    (pt.insert n e).entries.countP P = (pt.erase n).entries.countP P + if P ⟨n, e⟩ then 1 else 0 := by
  rw [AList.entries_insert, countP_cons]
  rfl

lemma countP_erase (h : pt.lookup n = some e) (P : (Σ _ : ℕ, Pte) → Bool) :
    pt.entries.countP P = (pt.erase n).entries.countP P + if P ⟨n, e⟩ then 1 else 0 := by
  have hmem : (⟨n, e⟩ : Σ _ : ℕ, Pte) ∈ pt.entries := AList.mem_lookup_iff.mp h
  obtain ⟨e', l1, l2, hn, hl, hk⟩ := exists_of_kerase (mem_keys_of_mem hmem)
  have heq : e' = e := by
    have hmem' : (⟨n, e'⟩ : Σ _ : ℕ, Pte) ∈ pt.entries := by
      rw [hl]
      exact mem_append_right _ mem_cons_self
    exact Option.some.inj ((AList.mem_lookup_iff.mpr hmem').symm.trans h)
  subst heq
  have herase : (pt.erase n).entries = l1 ++ l2 := hk
  rw [herase, hl, countP_append, countP_append, countP_cons]
  dsimp only
  omega

lemma erase_of_none (h : pt.lookup n = none) : pt.erase n = pt := by
  refine AList.ext (kerase_of_notMem_keys ?_)
  exact AList.lookup_eq_none.mp h

lemma sum_map_set {α : Type*} {l : List α} {a : α} (f : α → ℕ) (h : l[i]? = some a) (b : α) :
    ((l.set i b).map f).sum + f a = (l.map f).sum + f b := by
  obtain ⟨hi, rfl⟩ := List.getElem?_eq_some_iff.mp h
  have hold := ((getElem_cons_eraseIdx_perm hi).map f).sum_eq
  have hnew := ((set_perm_cons_eraseIdx hi b).map f).sum_eq
  simp only [map_cons, sum_cons] at hold hnew
  omega

lemma owners_setSpace (h : w.spaces[i]? = some sp) (sp' : AddrSpace) (g : ℕ) :
    (w.setSpace i sp').owners g + AddrSpace.maps sp g = w.owners g + AddrSpace.maps sp' g := by
  have := sum_map_set (AddrSpace.maps · g) h sp'
  simp only [owners, setSpace, mapRefs]
  omega

/-- Changing an address space: what its entries give up is held, what they take was held. -/
lemma Owned.setSpace (h : Owned K w held) (hs : w.spaces[i]? = some sp) (sp' : AddrSpace)
    (hsum : ∀ g, AddrSpace.maps sp' g + held'.count g = AddrSpace.maps sp g + held.count g) :
    Owned K (w.setSpace i sp') held' := by
  refine h.shift rfl (fun g => ?_) h.cacheOnce h.objectOnce
  have h1 := owners_setSpace hs sp' g
  have h2 := hsum g
  omega

lemma Owned.mapPage (h : Owned K w (f :: held)) (hs : w.spaces[i]? = some sp)
    (hn : sp.pt.lookup n = none) (hm : mmioPage sp.mm.vmas n = false) (fl : BitVec 64) :
    Owned K (w.setSpace i { sp with pt := sp.pt.insert n ⟨f, fl⟩ }) held := by
  refine h.setSpace hs _ fun g => ?_
  rw [AddrSpace.maps, AddrSpace.maps, countP_insert, erase_of_none hn, count_cons_eq]
  simp only [hm, and_true, decide_eq_true_eq]
  omega

lemma Owned.replacePage (h : Owned K w (f :: held)) (hs : w.spaces[i]? = some sp)
    (hn : sp.pt.lookup n = some e) (hm : mmioPage sp.mm.vmas n = false) (fl : BitVec 64) :
    Owned K (w.setSpace i { sp with pt := sp.pt.insert n ⟨f, fl⟩ }) (e.frame :: held) := by
  refine h.setSpace hs _ fun g => ?_
  rw [AddrSpace.maps, AddrSpace.maps, countP_insert, countP_erase hn, count_cons_eq, count_cons_eq]
  simp only [hm, and_true, decide_eq_true_eq]
  omega

lemma maps_reflag (mm : Mm) (hn : pt.lookup n = some e) (he : e'.frame = e.frame) (g : ℕ) :
    AddrSpace.maps ⟨mm, pt.insert n e'⟩ g = AddrSpace.maps ⟨mm, pt⟩ g := by
  rw [AddrSpace.maps, AddrSpace.maps, countP_insert, countP_erase hn]
  simp only [he]

lemma maps_le_owners (hs : w.spaces[i]? = some sp) (g : ℕ) : AddrSpace.maps sp g ≤ w.owners g := by
  have hmem : AddrSpace.maps sp g ∈ w.spaces.map fun sp => AddrSpace.maps sp g :=
    mem_map.mpr ⟨sp, mem_of_getElem? hs, rfl⟩
  have := single_le_sum (fun _ _ => zero_le _) _ hmem
  rw [owners, mapRefs]
  omega

lemma owners_pos_of_lookup (hs : w.spaces[i]? = some sp) (hn : sp.pt.lookup n = some e)
    (hm : mmioPage sp.mm.vmas n = false) : 0 < w.owners e.frame := by
  refine lt_of_lt_of_le ?_ (maps_le_owners hs e.frame)
  rw [AddrSpace.maps, countP_erase hn]
  simp [hm]

end Entries

/-! ### The page cache -/

lemma cacheRefs_append (c : List CacheEntry) (e : CacheEntry) (g : ℕ) :
    cacheRefs (c ++ [e]) g = cacheRefs c g + if e.frame = g then 1 else 0 := by
  rw [cacheRefs, map_append, count_append, cacheRefs]
  simp [count_singleton]

lemma cacheRefs_touch (w : World) (ino idx g : ℕ) :
    cacheRefs (w.touch ino idx).cache g = cacheRefs w.cache g := by
  rw [cacheRefs, cacheRefs, touch, map_map]
  congr 2
  funext e
  rw [comp_apply]
  split <;> rfl

lemma cacheRefs_pos (he : e ∈ w.cache) : 0 < cacheRefs w.cache e.frame :=
  count_pos_iff.mpr (mem_map.mpr ⟨e, he, rfl⟩)

lemma cacheFind_mem (h : w.cacheFind ino idx = some e) : e ∈ w.cache := mem_of_find?_eq_some h

lemma owners_pos_of_cache (he : e ∈ w.cache) : 0 < w.owners e.frame := by
  have := cacheRefs_pos he
  rw [owners]
  omega

/-- **A hit** gives a reference. -/
lemma Owned.hit (h : Owned K w held) (he : w.cacheFind ino idx = some e) :
    Owned K ((w.touch ino idx).refInc e.frame) (e.frame :: held) := by
  have hown : ∀ g, (w.touch ino idx).owners g = w.owners g := fun g => by
    rw [owners, owners, cacheRefs_touch]
    rfl
  refine Owned.refInc (h.shift rfl (fun g => by rw [hown]) (fun g => ?_) h.objectOnce) ?_
  · rw [cacheRefs_touch]
    exact h.cacheOnce g
  · rw [hown]
    exact Nat.add_pos_left (owners_pos_of_cache (cacheFind_mem he)) _

/-- A new entry of the cache, for a frame that no one owns, takes a reference of its own. -/
lemma Owned.cacheAdd (h : Owned K w (f :: held)) (hf : w.owners f = 0) (ino idx : ℕ)
    (ks : Outcomes) :
    Owned K { w.refInc f with kmalloc := ks, cache := w.cache ++ [⟨ino, idx, f, true⟩] }
      (f :: held) := by
  have hpos : 0 < w.owners f + (f :: held).count f := by
    rw [count_cons_self]
    omega
  have hadd := fun g => cacheRefs_append w.cache ⟨ino, idx, f, true⟩ g
  refine (h.refInc hpos).shift rfl (fun g => ?_) (fun g => ?_) h.objectOnce
  · rw [count_cons_eq f g (f :: held)]
    have := hadd g
    simp only [owners] at this ⊢
    simp only [World.refInc, onMem]
    omega
  · have honce := h.cacheOnce g
    have hzero : cacheRefs w.cache f = 0 := by
      rw [owners] at hf
      omega
    show cacheRefs (w.cache ++ [⟨ino, idx, f, true⟩]) g ≤ 1
    rw [hadd]
    split_ifs with heq
    · rw [← heq, hzero]
    · exact honce

end World

end Makaos
