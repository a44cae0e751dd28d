import Makaos.Mm.FaultQuiet
import Makaos.Mm.RefCount

/-!
The reference counts through a page fault.

* `Owned.cleanPage`, `Owned.fileFrame`, `Owned.shmemGetPage`: where the frame of a page comes from.
* `Owned.faultMissing`: the fault on a page that is not there.
-/

namespace Makaos

open List Option

variable {o idx : ℕ} {s : Shmem}

namespace World

variable {K : Set ℕ} {w w' : World} {held : List ℕ} {f : ℕ}

/-! ### Shared memory objects -/

lemma objectRefs_set {shmems : List (Option Shmem)} {s : Option Shmem} (h : shmems[o]? = some s)
    (s' : Option Shmem) (g : ℕ) :
    objectRefs (shmems.set o s') g + (s.elim [] Shmem.pages).count (some g) =
      objectRefs shmems g + (s'.elim [] Shmem.pages).count (some g) :=
  sum_map_set (fun o => (o.elim [] Shmem.pages).count (some g)) h s'

lemma shmem_eq_some (h : w.shmem o = some s) : w.shmems[o]? = some (some s) :=
  join_eq_some_iff.mp h

lemma shmem_setShmem (hs : w.shmem o = some s) (s' : Option Shmem) (o' : ℕ) :
    (w.setShmem o s').shmem o' = if o' = o then s' else w.shmem o' := by
  obtain ⟨hlt, -⟩ := List.getElem?_eq_some_iff.mp (shmem_eq_some hs)
  rw [shmem, setShmem, List.getElem?_set, shmem]
  rcases eq_or_ne o' o with rfl | hne
  · simp [hlt]
  · simp [hne, hne.symm]

lemma count_pages_le (w : World) (hs : w.shmem o = some s) (g : ℕ) :
    s.pages.count (some g) ≤ objectRefs w.shmems g := by
  have hmem : s.pages.count (some g) ∈
      w.shmems.map fun o => (o.elim [] Shmem.pages).count (some g) :=
    mem_map.mpr ⟨some s, mem_of_getElem? (shmem_eq_some hs), rfl⟩
  exact single_le_sum (fun _ _ => Nat.zero_le _) _ hmem

lemma owners_pos_of_page {o idx : ℕ} {s : Shmem} (hs : w.shmem o = some s)
    (hp : s.pages[idx]? = some (some f)) : 0 < w.owners f := by
  have hpos : 0 < s.pages.count (some f) := count_pos_iff.mpr (mem_of_getElem? hp)
  have hle := w.count_pages_le hs f
  rw [owners]
  omega

lemma count_set_none {l : List (Option ℕ)} (h : l[idx]? = some none) (f g : ℕ) :
    (l.set idx (some f)).count (some g) = l.count (some g) + if f = g then 1 else 0 := by
  obtain ⟨hlt, hget⟩ := List.getElem?_eq_some_iff.mp h
  rw [List.count_set hlt, hget]
  simp

/-! ### Pages of files -/

variable {file : File} {fileOff fileLen pgOff : ℕ} {w₁ : World}

lemma fillFrame_same (w : World) (file : File) (fileOff fileLen pgOff f : ℕ) : ∃ bytes reads,
    (w.fillFrame file fileOff fileLen pgOff f).2 =
      { w with mem := { w.mem with bytes := bytes }, reads := reads } := by
  rw [fillFrame]
  dsimp only
  split
  · cases (w.onMem (·.zeroFrame f)).reads.next with
    | mk ok rs =>
      cases ok with
      | false => exact ⟨_, _, rfl⟩
      | true =>
        dsimp only
        split <;> exact ⟨_, _, rfl⟩
  · exact ⟨_, _, rfl⟩

section

variable (h : Owned K w held)
include h

lemma Owned.fillFrame {ok : Bool} (hr : w.fillFrame file fileOff fileLen pgOff f = (ok, w₁)) :
    Owned K w₁ held ∧ w₁.owners = w.owners := by
  obtain ⟨bytes, reads, heq⟩ := w.fillFrame_same file fileOff fileLen pgOff f
  rw [hr] at heq
  cases heq
  exact ⟨{ h with }, rfl⟩

/-- **The reading of a page** into a new frame gives one reference to it. -/
lemma Owned.fetched {o : Option ℕ}
    (hfetch : Fetched w file fileOff fileLen pgOff idx o w₁) : Owned K w₁ (o.toList ++ held) := by
  cases hfetch with
  | noMem hnone =>
    rcases h.alloc_cases with ⟨w₁, hal, h1⟩ | ⟨f, _, hal, _⟩
    · rwa [hal]
    · rw [hal] at hnone
      nomatch hnone
  | failed hf hal hr => exact ((h.taking hf).fillFrame hr).1.refDec
  | kept hf hal hr hno =>
    exact { ((h.taking hf).fillFrame hr).1 with }
  | cached hf hal hr h0 =>
    obtain ⟨h1, hown⟩ := (h.taking hf).fillFrame hr
    refine h1.cacheAdd ?_ _ _ _
    rw [hown]
    exact (h.owners_of_free hf).1

/-- **One round of read-ahead**: the reference that a hit gives stays behind. -/
lemma Owned.readAheadOne (file : File) (fileOff fileLen pgOff ra : ℕ) :
    ∃ leaked, Owned K (w.readAheadOne file fileOff fileLen pgOff ra).2 (leaked ++ held) ∧
      (w.cacheFind file.ino ((fileIdx fileOff pgOff + ra) % 2 ^ 32) = none → leaked = []) := by
  rcases w.readAheadOne_cases file fileOff fileLen pgOff ra with ⟨e, he, hr⟩ | ⟨o, w₁, hfetch, hr⟩
  · rw [hr]
    refine ⟨[e.frame], h.hit he, fun hnone => ?_⟩
    rw [he] at hnone
    nomatch hnone
  · rw [hr]
    refine ⟨[], ?_, fun _ => rfl⟩
    have h1 := h.fetched hfetch
    cases o with
    | none => exact h1
    | some f => exact h1.refDec

/-- The pages that read-ahead would take are not cached. -/
def AheadFree (w : World) (file : File) (fileOff fileLen pgOff ra n : ℕ) : Prop :=
  ∀ r, ra ≤ r → r < ra + n → pgOff + r * pageSize < fileLen →
    w.cacheFind file.ino ((fileIdx fileOff pgOff + r) % 2 ^ 32) = none

omit h in
/-- **Read-ahead** leaves a reference behind for every page that is cached already. -/
lemma Owned.readAhead (file : File) (fileOff fileLen pgOff n : ℕ) : ∀ (ra : ℕ) {w : World}
    {held : List ℕ}, Owned K w held → n + ra ≤ 2 ^ 32 →
    ∃ leaked, Owned K (readAhead file fileOff fileLen pgOff n ra w) (leaked ++ held) ∧
      (AheadFree w file fileOff fileLen pgOff ra n → leaked = []) := by
  induction n with
  | zero => exact fun _ _ _ h _ => ⟨[], h, fun _ => rfl⟩
  | succ n ih =>
    intro ra w held h hra
    rw [World.readAhead]
    split_ifs with hlt
    · exact ⟨[], h, fun _ => rfl⟩
    · obtain ⟨leaked, h1, hl⟩ := h.readAheadOne file fileOff fileLen pgOff ra
      have hfind := fun idx => @readAheadOne_cacheFind idx w file fileOff fileLen pgOff ra
      have hfree : AheadFree w file fileOff fileLen pgOff ra (n + 1) → leaked = [] :=
        fun hf => hl (hf ra le_rfl (by omega) (by omega))
      cases hr : w.readAheadOne file fileOff fileLen pgOff ra with
      | mk ok w₁ =>
        rw [hr] at h1 hfind
        cases ok with
        | false => exact ⟨leaked, h1, hfree⟩
        | true =>
          obtain ⟨leaked', h2, hl'⟩ := ih (ra + 1) h1 (by omega)
          refine ⟨leaked' ++ leaked, by rw [append_assoc]; exact h2, fun hf => ?_⟩
          rw [hfree hf, hl', append_nil]
          intro r hlo hhi hoff
          refine hfind _ ?_ (hf r (by omega) (by omega) hoff)
          omega

/-- The condition on a page of a file: it is cached, or what read-ahead would take is not. -/
def CleanOk (w : World) (file : File) (fileOff fileLen pgOff : ℕ) : Prop :=
  file.ino ≠ 0 → w.cacheFind file.ino (fileIdx fileOff pgOff) = none →
    AheadFree w file fileOff fileLen pgOff 1 raPages

/-- **A page of a file** comes with one reference. -/
lemma Owned.cleanPage (file : File) (fileOff fileLen pgOff : ℕ) :
    ∃ leaked, Owned K (w.cleanPage file fileOff fileLen pgOff).2
        ((w.cleanPage file fileOff fileLen pgOff).1.toList ++ (leaked ++ held)) ∧
      (CleanOk w file fileOff fileLen pgOff → leaked = []) := by
  rcases w.cleanPage_cases file fileOff fileLen pgOff with
    ⟨e, h0, he, hr⟩ | ⟨hmiss, o, w₁, hfetch, hr | ⟨h0, hr⟩⟩
  · rw [hr]
    exact ⟨[], h.hit he, fun _ => rfl⟩
  · rw [hr]
    exact ⟨[], h.fetched hfetch, fun _ => rfl⟩
  · rw [hr]
    obtain ⟨leaked, h1, hl⟩ := Owned.readAhead file fileOff fileLen pgOff raPages 1
      (h.fetched hfetch) (by decide)
    refine ⟨leaked, h1.perm ?_, fun hok => hl fun r hlo hhi hoff => ?_⟩
    · rw [← append_assoc, ← append_assoc]
      exact perm_append_comm.append_right held
    · -- the page that is read first is none of those that read-ahead takes
      refine hfetch.cacheFind ?_ (hok h0 (hmiss h0) r hlo hhi hoff)
      have hlt : fileIdx fileOff pgOff < 2 ^ 32 := Nat.mod_lt _ (by norm_num)
      simp only [raPages] at hhi
      omega

/-! ### Page faults -/

/-- The condition on a fault: the page is no device memory, and a file is read without meeting a
cached page ahead. -/
def FaultOk (w : World) (sp : AddrSpace) (addr : ℕ) : Prop :=
  mmioPage sp.mm.vmas (addr / pageSize) = false ∧
    ∀ v file, mmVmaFind sp.mm.vmas addr = some v → vmaFile? v = some file →
      CleanOk w (w.files file) v.fileOff v.fileLen (alignDown addr - v.start)

lemma Owned.anonFrame : Owned K w.anonFrame.2 (w.anonFrame.1.toList ++ held) := by
  rw [World.anonFrame]
  rcases h.alloc_cases with ⟨w₁, hal, h1⟩ | ⟨f, hf, hal, h1⟩
  · rwa [hal]
  · rw [hal]
    exact { h1 with }

lemma Owned.fileFrame (v : Vma) (file : File) (page : ℕ) :
    ∃ leaked, Owned K (w.fileFrame v file page).2
        ((w.fileFrame v file page).1.toList ++ (leaked ++ held)) ∧
      (CleanOk w file v.fileOff v.fileLen (page - v.start) → leaked = []) := by
  obtain ⟨leaked, h1, hl⟩ := h.cleanPage file v.fileOff v.fileLen (page - v.start)
  refine ⟨leaked, ?_, hl⟩
  rw [World.fileFrame]
  generalize w.cleanPage file v.fileOff v.fileLen (page - v.start) = r at h1
  obtain ⟨o, w₁⟩ := r
  cases o with
  | none => exact h1
  | some clean =>
    dsimp only
    split
    case isFalse => exact h1
    case isTrue =>
      rcases h1.alloc_cases with ⟨w2, hal, h2⟩ | ⟨f, hf, hal, h2⟩
      · rw [hal]
        exact h2.refDec
      · rw [hal]
        have h3 : Owned K ((w₁.taking f).onMem (·.copyFrame f clean))
            (clean :: f :: (leaked ++ held)) :=
          { h2.perm (Perm.swap _ _ _) with }
        exact h3.refDec

/-- Changing an object: what its pages give up is held, what they take was held. -/
lemma Owned.setShmem {held' : List ℕ} (hs : w.shmem o = some s) (s' : Option Shmem)
    (hsum : ∀ g, (s'.elim [] Shmem.pages).count (some g) + held'.count g =
      s.pages.count (some g) + held.count g)
    (honce : ∀ g, objectRefs (w.shmems.set o s') g ≤ 1) : Owned K (w.setShmem o s') held' := by
  refine h.shift rfl (fun g => ?_) h.cacheOnce honce
  have h1 := objectRefs_set (shmem_eq_some hs) s' g
  have h2 := hsum g
  simp only [elim_some, owners, World.setShmem] at h1 ⊢
  omega

lemma Owned.shmemGetPage (o idx : ℕ) :
    Owned K (w.shmemGetPage o idx).2 ((w.shmemGetPage o idx).1.toList ++ held) := by
  rw [World.shmemGetPage]
  cases hs : w.shmem o with
  | none => exact h
  | some s =>
    dsimp only
    cases hp : s.pages[idx]? with
    | none => exact h
    | some p =>
      cases p with
      | some f => exact h.refInc (Nat.add_pos_left (owners_pos_of_page hs hp) _)
      | none =>
        rcases h.alloc_cases with ⟨w₁, hal, h1⟩ | ⟨f, hf, hal, h1⟩
        · dsimp only
          rwa [hal]
        · dsimp only
          rw [hal]
          have h2 : Owned K ((w.taking f).onMem (·.zeroFrame f)) (f :: held) := { h1 with }
          have hnew := fun g => count_set_none hp f g
          have hobj := fun g => objectRefs_set (shmem_eq_some hs)
            (some { s with pages := s.pages.set idx (some f) }) g
          simp only [elim_some, hnew] at hobj
          have h3 : Owned K (((w.taking f).onMem (·.zeroFrame f)).setShmem o
              (some { s with pages := s.pages.set idx (some f) })) held := by
            refine h2.setShmem hs _ (fun g => ?_) fun g => ?_
            · rw [count_cons_eq]
              simp only [elim_some, hnew]
              omega
            · have honce := h.objectOnce g
              have hzero := (h.owners_of_free hf).1
              have hg := hobj g
              rw [owners] at hzero
              show objectRefs (w.shmems.set o _) g ≤ 1
              by_cases heq : f = g
              · subst heq
                rw [if_pos rfl] at hg
                omega
              · rw [if_neg heq] at hg
                omega
          refine h3.refInc (Nat.add_pos_left (@owners_pos_of_page _ f o idx
            { s with pages := s.pages.set idx (some f) } ?_ ?_) _)
          · exact (shmem_setShmem hs _ o).trans (if_pos rfl)
          · obtain ⟨hlt, -⟩ := List.getElem?_eq_some_iff.mp hp
            exact List.getElem?_set_self hlt

lemma Owned.resolveFrame (v : Vma) (page : ℕ) : ∃ leaked, Owned K (w.resolveFrame v page).2
        ((w.resolveFrame v page).1.toList ++ (leaked ++ held)) ∧ ((∀ file, vmaFile? v = some file →
        CleanOk w (w.files file) v.fileOff v.fileLen (page - v.start)) → leaked = []) := by
  rw [World.resolveFrame]
  cases hfile : vmaFile? v with
  | some file =>
    obtain ⟨leaked, h1, hl⟩ := h.fileFrame v (w.files file) page
    exact ⟨leaked, h1, fun hok => hl (hok file rfl)⟩
  | none =>
    refine ⟨[], ?_, fun _ => rfl⟩
    dsimp only
    cases w.vmaShmem? v with
    | some o => exact h.shmemGetPage _ _
    | none => exact h.anonFrame

omit h in
lemma resolveFrame_spaces (w : World) (v : Vma) (page : ℕ) :
    (w.resolveFrame v page).2.spaces = w.spaces := by
  rw [resolveFrame]
  cases vmaFile? v with
  | some file =>
    have hq := (w.cleanPage_spec (w.files file) v.fileOff v.fileLen (page - v.start)).1.spaces
    dsimp only
    rw [World.fileFrame]
    generalize w.cleanPage (w.files file) v.fileOff v.fileLen (page - v.start) = r at hq
    obtain ⟨o, w₁⟩ := r
    cases o with
    | none => exact hq
    | some clean =>
      dsimp only
      split
      case isFalse => exact hq
      case isTrue =>
        rcases w₁.alloc_cases with hal | ⟨f, _, hal⟩ <;> rw [hal] <;> exact hq
  | none =>
    dsimp only
    cases w.vmaShmem? v with
    | some o =>
      dsimp only
      rw [World.shmemGetPage]
      cases w.shmem o with
      | none => rfl
      | some s =>
        dsimp only
        split
        · rfl
        · rfl
        · rcases w.alloc_cases with hal | ⟨f, _, hal⟩
          · rw [hal]
          · rw [hal]
            rfl
    | none =>
      dsimp only
      rw [World.anonFrame]
      rcases w.alloc_cases with hal | ⟨f, _, hal⟩ <;> rw [hal]
      rfl

/-- **A fault on a page that is not present** keeps the accounts, up to references that are lost;
none is if the fault meets its condition. -/
lemma Owned.faultMissing (i addr : ℕ) (isWrite isIfetch : Bool) :
    ∃ leaked, Owned K (w.faultMissing i addr isWrite isIfetch).2 (leaked ++ held) ∧
      ((∀ sp, w.spaces[i]? = some sp → FaultOk w sp addr) → leaked = []) := by
  have hmiss := w.faultMissing_missed i addr isWrite isIfetch
  generalize (w.faultMissing i addr isWrite isIfetch).2 = w' at hmiss
  cases hmiss with
  | refused => exact ⟨[], h, fun _ => rfl⟩
  | @noFrame sp v hs hv ho =>
    obtain ⟨leaked, h1, hl⟩ := h.resolveFrame v (alignDown addr)
    rw [ho] at h1
    exact ⟨leaked, h1, fun hok => hl ((hok sp hs).2 v · hv)⟩
  | @dropped sp v f ts hs hv ho =>
    obtain ⟨leaked, h1, hl⟩ := h.resolveFrame v (alignDown addr)
    rw [ho] at h1
    have h2 : Owned K { (w.resolveFrame v (alignDown addr)).2 with tables := ts }
        (f :: (leaked ++ held)) := { h1 with }
    exact ⟨leaked, h2.refDec, fun hok => hl ((hok sp hs).2 v · hv)⟩
  | @mapped sp v f ts hs hv ho hnone =>
    obtain ⟨leaked, h1, hl⟩ := h.resolveFrame v (alignDown addr)
    rw [ho] at h1
    have h2 : Owned K { (w.resolveFrame v (alignDown addr)).2 with tables := ts }
        (f :: (leaked ++ held)) := { h1 with }
    have hs2 : (w.resolveFrame v (alignDown addr)).2.spaces[i]? = some sp := by
      rwa [resolveFrame_spaces]
    cases hm : mmioPage sp.mm.vmas (addr / pageSize) with
    | false =>
      exact ⟨leaked, h2.mapPage hs2 hnone hm _, fun hok => hl ((hok sp hs).2 v · hv)⟩
    | true =>
      -- an entry in device memory counts for nothing
      refine ⟨f :: leaked, h2.setSpace hs2 _ fun g => ?_, fun hok => ?_⟩
      · rw [AddrSpace.maps, AddrSpace.maps, countP_insert, erase_of_none hnone]
        simp [hm]
      · exact absurd ((hok sp hs).1.symm.trans hm) (by simp)

end

end World

end Makaos
