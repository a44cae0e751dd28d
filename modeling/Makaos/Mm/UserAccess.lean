import Makaos.Mm.FileMap
import Makaos.Mm.Prefault

/-!
Loads and stores of processes, through the page tables and the page-fault handler.

* `userRead`, `userWrite`: an access, with the fault it takes.
* `value`: what a process would read.
* `Isolated`: a writable page of private memory has no other owner, and no frame is both private and
  public.
* `Isolated.resolveFrame`: finding the frame of a page keeps this.
-/

namespace Makaos

open Function Option List PhysMem World Bool
variable {addr o : ℕ} {s : Shmem}
namespace PhysMem

/-- A byte is stored. -/
def store (m : PhysMem) (f j : ℕ) (b : UInt8) : PhysMem :=
  { m with bytes := update m.bytes f (update (m.bytes f) j b) }

lemma store_self (m : PhysMem) (f j : ℕ) (b : UInt8) (k : ℕ) :
    (m.store f j b).bytes f k = if k = j then b else m.bytes f k := by
  show update m.bytes f _ f k = _
  rw [update_self, update_apply]

lemma store_of_ne (m : PhysMem) {f g : ℕ} (h : g ≠ f) (j : ℕ) (b : UInt8) :
    (m.store f j b).bytes g = m.bytes g := update_of_ne h _ _

end PhysMem

namespace World

variable {K : Set ℕ} {w w₁ w' : World} {held : List ℕ} {f i n : ℕ} {sp : AddrSpace} {v : Vma}
  {e : Pte}

/-! ### Accesses -/

/-- How memory of a VMA behaves under fork (`is_shared`, `is_shmem` in `vmm_clone_user_ex`). -/
inductive PageKind where
  | priv
  | shared
  | device
  deriving DecidableEq, Repr

/-- The kind of the pages of a VMA. -/
def kindOf (v : Vma) : PageKind :=
  if v.shmem.isSome then .shared else if hasFlag v.flags vmaMmio then .device else .priv

/-- The VMA of an address. -/
def vmaOf (w : World) (i addr : ℕ) : Option Vma :=
  (w.spaces[i]?).bind fun sp => mmVmaFind sp.mm.vmas addr

/-- The kind of a page. -/
def kind (w : World) (i n : ℕ) : PageKind := (w.vmaOf i (n * pageSize)).elim .priv kindOf

/-- The entry lets user code write. -/
def Writable (e : Pte) : Prop := (e.flags &&& pageWritable != 0#64) = true

instance : DecidablePred Writable := fun e =>
  inferInstanceAs (Decidable ((e.flags &&& pageWritable != 0#64) = true))

/-- The entry that an access goes through, after the fault it may take; `none` if the process is
killed. -/
def access (w : World) (i addr : ℕ) (isWrite : Bool) : Option Pte × World :=
  match w.entry i (addr / pageSize) with
  | none =>
    match w.faultMissing i addr isWrite false with
    | (.killed, w) => (none, w)
    | (.resolved, w) => (w.entry i (addr / pageSize), w)
  | some e =>
    if isWrite = true ∧ ¬ Writable e then
      match w.faultCow i addr with
      | (.killed, w) => (none, w)
      | (.resolved, w) => (w.entry i (addr / pageSize), w)
    else (some e, w)

/-- A load. -/
def userRead (w : World) (i addr : ℕ) : Option UInt8 × World :=
  match w.access i addr false with
  | (none, w) => (none, w)
  | (some e, w) => (some (w.mem.bytes e.frame (addr % pageSize)), w)

/-- A store; `false` if it does not happen. -/
def userWrite (w : World) (i addr : ℕ) (b : UInt8) : Bool × World :=
  match w.access i addr true with
  | (none, w) => (false, w)
  | (some e, w) =>
    if Writable e then (true, w.onMem (·.store e.frame (addr % pageSize) b)) else (false, w)

/-! ### Values -/

/-- A page of an object. -/
def objPage (w : World) (o idx : ℕ) : Option (Option ℕ) :=
  (w.shmem o).bind fun s => s.pages[idx]?

/-- The page of the object behind a page of a VMA. -/
def objIdx (v : Vma) (page : ℕ) : ℕ :=
  ((page - v.start) / pageSize % 2 ^ 32 + v.shmemPgoff) % 2 ^ 32

/-- What a page of an object shows; `none` if the object has no such page. -/
def objBytes (w : World) (o idx : ℕ) : Option (ℕ → UInt8) :=
  (w.objPage o idx).map fun p => p.elim (fun _ => 0) w.mem.bytes

/-- What the first touch of a page that is not present shows; `none` if there is nothing. -/
def absentByte (w : World) (v : Vma) (addr : ℕ) : Option UInt8 :=
  match vmaFile? v with
  | some k => some (mappedByte (w.files k) v.fileOff v.fileLen (addr - v.start))
  | none =>
    match w.vmaShmem? v with
    | some o => (w.objBytes o (objIdx v (alignDown addr))).map fun g => g (addr % pageSize)
    | none => some 0

/-- **The value of a byte** of a VMA for a process. -/
def value (w : World) (i addr : ℕ) : Option UInt8 :=
  (w.vmaOf i addr).bind fun v =>
    match w.entry i (addr / pageSize) with
    | some e => some (w.mem.bytes e.frame (addr % pageSize))
    | none => w.absentByte v addr

lemma value_of_entry {e : Pte} (hv : w.vmaOf i addr = some v)
    (he : w.entry i (addr / pageSize) = some e) :
    w.value i addr = some (w.mem.bytes e.frame (addr % pageSize)) := by
  rw [value, hv, bind_some, he]

lemma value_of_absent (hv : w.vmaOf i addr = some v) (he : w.entry i (addr / pageSize) = none) :
    w.value i addr = w.absentByte v addr := by
  rw [value, hv, bind_some, he]

/-! ### The invariant -/

/-- A private page maps the frame, or the cache holds it. -/
def Private (w : World) (f : ℕ) : Prop :=
  (∃ i n e, w.entry i n = some e ∧ w.kind i n = .priv ∧ e.frame = f) ∨
    ∃ ino idx, w.Holds f (.cache ino idx)

/-- A shared page maps the frame, or an object holds it. -/
def Public (w : World) (f : ℕ) : Prop :=
  (∃ i n e, w.entry i n = some e ∧ w.kind i n = .shared ∧ e.frame = f) ∨
    ∃ o idx, w.Holds f (.object o idx)

/-- **What keeps processes apart.** -/
structure Isolated (K : Set ℕ) (w : World) : Prop where
  file : FileInv K w
  vmas : ∀ sp ∈ w.spaces, VmasOk sp.mm.vmas
  /-- a VMA has one kind of backing, and its object is alive -/
  backing : ∀ sp ∈ w.spaces, ∀ v ∈ sp.mm.vmas,
    (∀ o, v.shmem = some o → vmaFile? v = none ∧ (w.shmem o).isSome) ∧
    (hasFlag v.flags vmaMmio = true → vmaFile? v = none)
  /-- device memory is no user memory -/
  device : ∀ i n e, w.entry i n = some e → w.kind i n = .device → e.frame ∉ w.mem.free ∧
    ¬ w.Private e.frame ∧ ¬ w.Public e.frame
  /-- a writable page of private memory is mapped once and held by no one -/
  exclusive : ∀ i n e, w.entry i n = some e → w.kind i n = .priv → Writable e →
    (∀ h, ¬ w.Holds e.frame h) ∧ ∀ j m e', w.entry j m = some e' → w.kind j m = .priv →
      e'.frame = e.frame → j = i ∧ m = n
  apart : ∀ f, w.Private f → ¬ w.Public f

lemma kindOf_eq_priv : kindOf v = .priv ↔ v.shmem = none ∧ hasFlag v.flags vmaMmio = false := by
  rw [kindOf]
  cases v.shmem <;> cases hasFlag v.flags vmaMmio <;> simp

lemma kindOf_eq_shared : kindOf v = .shared ↔ v.shmem.isSome := by
  rw [kindOf]
  cases v.shmem <;> cases hasFlag v.flags vmaMmio <;> simp

lemma kindOf_eq_device : kindOf v = .device ↔ v.shmem = none ∧ hasFlag v.flags vmaMmio = true := by
  rw [kindOf]
  cases v.shmem <;> cases hasFlag v.flags vmaMmio <;> simp

lemma vmaOf_of_space (hs : w.spaces[i]? = some sp) (addr : ℕ) :
    w.vmaOf i addr = mmVmaFind sp.mm.vmas addr := by rw [vmaOf, hs]; rfl

section

variable (h : ∀ sp ∈ w.spaces, VmasOk sp.mm.vmas)
include h

lemma vmaOf_page (hv : w.vmaOf i addr = some v) :
    w.vmaOf i (addr / pageSize * pageSize) = some v := by
  obtain ⟨sp, hs, hv⟩ := bind_eq_some_iff.mp hv
  rw [vmaOf_of_space hs]
  exact (h sp (mem_of_getElem? hs)).find_page hv

lemma kind_of_vma (hv : w.vmaOf i addr = some v) : w.kind i (addr / pageSize) = kindOf v := by
  rw [kind, vmaOf_page h hv]
  rfl

lemma kind_eq_device (hs : w.spaces[i]? = some sp)
    (n : ℕ) : w.kind i n = .device ↔ mmioPage sp.mm.vmas n = true := by
  rw [kind, vmaOf_of_space hs, mmioPage]
  cases hv : mmVmaFind sp.mm.vmas (n * pageSize) with
  | none => simp
  | some v =>
    have hkinds := (h sp (mem_of_getElem? hs)).kinds v (mem_of_find?_eq_some hv)
    show kindOf v = .device ↔ hasFlag v.flags vmaMmio = true
    rw [kindOf_eq_device]
    cases hsh : v.shmem with
    | none => simp
    | some o => simp [hkinds (by simp [hsh])]

end

lemma Isolated.entry_not_free (h : Isolated K w) (he : w.entry i n = some e) :
    e.frame ∉ w.mem.free := by
  rcases eq_or_ne (w.kind i n) .device with hk | hk
  · exact (h.device i n e he hk).1
  · obtain ⟨held, hown⟩ := h.file.owned
    obtain ⟨sp, hs, hn⟩ := bind_eq_some_iff.mp he
    rw [Ne, kind_eq_device h.vmas hs, not_eq_true] at hk
    exact hown.not_free (Nat.add_pos_left (owners_pos_of_lookup hs hn hk) _)

/-! ### Finding a frame -/

/-- **What finding a frame leaves**: the address spaces and files, the bytes and holders of every
frame in use, and what objects show.  New holders are pages of files or of an object, not both. -/
structure Resolved (w w₁ : World) : Prop where
  spaces : w₁.spaces = w.spaces
  files : w₁.files = w.files
  free : w₁.mem.free ⊆ w.mem.free
  bytes : ∀ f ∉ w.mem.free, w₁.mem.bytes f = w.mem.bytes f
  holds : ∀ f ∉ w.mem.free, ∀ h, w₁.Holds f h ↔ w.Holds f h
  oneSide : (∀ f ino idx, w₁.Holds f (.cache ino idx) → w.Holds f (.cache ino idx)) ∨
    ∀ f o idx, w₁.Holds f (.object o idx) → w.Holds f (.object o idx)
  alive : ∀ o, (w₁.shmem o).isSome = (w.shmem o).isSome
  objects : ∀ o idx, w₁.objBytes o idx = w.objBytes o idx

lemma holds_object_iff (o idx : ℕ) :
    w.Holds f (.object o idx) ↔ w.objPage o idx = some (some f) := by
  rw [objPage, bind_eq_some_iff]
  rfl

lemma objBytes_congr (hs : w₁.shmems = w.shmems)
    (hb : ∀ f o idx, w.Holds f (.object o idx) → w₁.mem.bytes f = w.mem.bytes f) (o idx : ℕ) :
    w₁.objBytes o idx = w.objBytes o idx := by
  have hpage : w₁.objPage o idx = w.objPage o idx := by rw [objPage, shmem, hs, objPage, shmem]
  rw [objBytes, hpage, objBytes]
  cases hp : w.objPage o idx with
  | none => rfl
  | some p =>
    cases p with
    | none => rfl
    | some f => exact congrArg some (hb f o idx ((holds_object_iff o idx).mpr hp))

lemma Quiet.resolved (hq : Quiet w w₁) (ht : w.Taken) : Resolved w w₁ where
  __ := hq
  oneSide := .inr fun f o idx hh => by
    obtain ⟨s, ho, hp⟩ := hh
    exact ⟨s, by rw [shmem, ← hq.shmems]; exact ho, hp⟩
  alive o := by rw [shmem, hq.shmems, shmem]
  objects := objBytes_congr hq.shmems fun f o idx hh => hq.bytes f (ht f _ hh)

/-- A reference to a frame with an owner is dropped, and the frame stays in use. -/
lemma Owned.refDec_free (h : Owned K w (f :: held)) (hpos : 0 < w.owners f) :
    (w.refDec f).mem.free ⊆ w.mem.free := by
  intro g hg
  obtain ⟨-, -, -, hfree⟩ := refDec_spec w.mem f
  obtain ⟨hlt, hK⟩ := h.ram f (Nat.add_pos_left hpos _)
  have hrefs := h.refs f hlt hK
  rw [count_cons_self] at hrefs
  rcases hfree g hg with hg | ⟨-, hone⟩
  · exact hg
  · omega

lemma Quiet.refDec_owned (hq : Quiet w w₁) (hown : Owned K w₁ (f :: held))
    (hpos : 0 < w₁.owners f) : Quiet w (w₁.refDec f) where
  __ := hq
  free _ hg := hq.free (hown.refDec_free hpos hg)
  bytes g hg := (congrFun (refDec_spec w₁.mem f).2.1 g).trans (hq.bytes g hg)
  holds g hg h := (holds_congr g h).trans (hq.holds g hg h)

/-- What is known of the frame for a page of a file: it is new or cached, and for a writable mapping
it is new and held by no one. -/
structure FileFrame (w w₁ : World) (v : Vma) (f : ℕ) : Prop where
  source : f ∈ w.mem.free ∨ ∃ ino idx, w₁.Holds f (.cache ino idx)
  writable : hasFlag v.flags vmaW = true → f ∈ w.mem.free ∧ ∀ h, ¬ w₁.Holds f h

lemma fileFrame_resolved (h : Owned K w held) (file : File) (page : ℕ) :
    Quiet w (w.fileFrame v file page).2 ∧ ∀ f, (w.fileFrame v file page).1 = some f →
      FileFrame w (w.fileFrame v file page).2 v f := by
  have hq := (w.cleanPage_spec file v.fileOff v.fileLen (page - v.start)).1
  obtain ⟨leaked, hown, -⟩ := h.cleanPage file v.fileOff v.fileLen (page - v.start)
  -- the clean page is new or cached
  have hclean : ∀ f, (w.cleanPage file v.fileOff v.fileLen (page - v.start)).1 = some f →
      f ∈ w.mem.free ∨ ∃ ino idx,
        (w.cleanPage file v.fileOff v.fileLen (page - v.start)).2.Holds f (.cache ino idx) := by
    intro f hf
    rcases w.cleanPage_cases file v.fileOff v.fileLen (page - v.start) with
      ⟨e, h0, he, hr⟩ | ⟨-, o, w₁, hfetch, hr | ⟨-, hr⟩⟩
    · rw [hr] at hf ⊢
      cases hf
      have htouch := (holds_touch file.ino (fileIdx v.fileOff (page - v.start)) e.frame
        (.cache e.ino e.pgIdx)).mpr ⟨e, cacheFind_mem he, rfl, rfl, rfl⟩
      exact .inr ⟨e.ino, e.pgIdx, htouch⟩
    · rw [hr] at hf
      exact .inl (hfetch.quiet.2 f hf)
    · rw [hr] at hf
      exact .inl (hfetch.quiet.2 f hf)
  rw [fileFrame]
  generalize w.cleanPage file v.fileOff v.fileLen (page - v.start) = r at hq hown hclean
  obtain ⟨o, w₁⟩ := r
  cases o with
  | none => exact ⟨hq, by simp⟩
  | some clean =>
    dsimp only at hq hown hclean ⊢
    have hsource := hclean clean rfl
    split
    case isFalse hw =>
      refine ⟨hq, ?_⟩
      rintro _ ⟨⟩
      exact ⟨hsource, fun hw' => absurd hw' hw⟩
    case isTrue hw =>
      rcases w₁.alloc_cases with hal | ⟨f, hf, hal⟩
      · rw [hal]
        have hq1 := hq.trans (quiet_picks w₁)
        have hown1 : Owned K { w₁ with mem := { w₁.mem with picks := w₁.mem.picks.tail } }
            (clean :: (leaked ++ held)) := { hown with }
        refine ⟨?_, by simp⟩
        rcases hsource with hfree | ⟨ino, idx, hh⟩
        · exact hq1.refDec hfree
        · exact hq1.refDec_owned hown1 (@owners_pos_of_holds w₁ _ _ hh)
      · rw [hal]
        have hfw : f ∈ w.mem.free := hq.free hf
        have hq1 : Quiet w ((w₁.taking f).onMem (·.copyFrame f clean)) :=
          (hq.trans (quiet_taking w₁ f)).onMem hfw
            (fun _ hne => update_of_ne hne _ _) fun _ hf' => .inl hf'
        have hown1 : Owned K ((w₁.taking f).onMem (·.copyFrame f clean))
            (clean :: f :: (leaked ++ held)) :=
          { (hown.taking hf).perm (Perm.swap _ _ _) with }
        refine ⟨?_, ?_⟩
        · rcases hsource with hfree | ⟨ino, idx, hh⟩
          · exact hq1.refDec hfree
          · exact hq1.refDec_owned hown1 (@owners_pos_of_holds w₁ _ _ hh)
        · rintro _ ⟨⟩
          refine ⟨.inl hfw, fun _ => ⟨hfw, fun hd hh => ?_⟩⟩
          exact hown.taken f hd ((holds_congr f hd).mp hh) hf

lemma quiet_refInc (w : World) (f : ℕ) : Quiet w (w.refInc f) where
  spaces := rfl
  shmems := rfl
  files := rfl
  tables := rfl
  free := by rw [refInc, onMem, (refInc_spec _ f).2.1]
  bytes g _ := by rw [refInc, onMem, (refInc_spec _ f).1]
  holds g _ h := holds_congr g h

/-- The object gets a page. -/
def newPage (w : World) (o idx : ℕ) (s : Shmem) (f : ℕ) : World :=
  (((w.taking f).onMem (·.zeroFrame f)).setShmem o
    (some { s with pages := s.pages.set idx (some f) })).refInc f

lemma newPage_objPage {o idx : ℕ} {s : Shmem} (hs : w.shmem o = some s)
    (hp : s.pages[idx]? = some none) (o' idx' : ℕ) : (w.newPage o idx s f).objPage o' idx' =
      if o' = o ∧ idx' = idx then some (some f) else w.objPage o' idx' := by
  have hlt := (List.getElem?_eq_some_iff.mp hp).1
  show ((w.setShmem o _).shmem o').bind _ = _
  rw [shmem_setShmem hs, objPage]
  rcases eq_or_ne o' o with rfl | ho
  · rcases eq_or_ne idx' idx with rfl | hidx
    · simp [hlt]
    · simp [hidx, getElem?_set_ne hidx.symm, hs]
  · simp [ho]

lemma resolved_newPage (ht : w.Taken) {idx : ℕ} (hs : w.shmem o = some s)
    (hp : s.pages[idx]? = some none) (hf : f ∈ w.mem.free) : Resolved w (w.newPage o idx s f) := by
  have hmem := refInc_spec ((w.taking f).mem.zeroFrame f) f
  have hpage := @newPage_objPage w f o idx s hs hp
  have hold : w.objPage o idx = some none := by rw [objPage, hs]; exact hp
  have hself : (w.newPage o idx s f).mem.bytes f = fun _ => 0 :=
    (congrFun hmem.1 f).trans (zeroFrame_self _ f)
  have hother : ∀ g ≠ f, (w.newPage o idx s f).mem.bytes g = w.mem.bytes g := fun g hne =>
    (congrFun hmem.1 g).trans (update_of_ne hne _ _)
  exact {
    spaces := rfl
    files := rfl
    free := fun g hg => by
      have hg : g ∈ (((w.taking f).mem.zeroFrame f).refInc f).free := hg
      rw [hmem.2.1] at hg
      exact Finset.mem_of_mem_erase hg
    bytes := fun g hg => hother g fun hgf => hg (hgf.symm ▸ hf)
    holds := fun g hg hd => by
      cases hd with
      | cache ino i => exact Iff.rfl
      | object o' i =>
        rw [holds_object_iff, holds_object_iff, hpage]
        split
        case isFalse => exact Iff.rfl
        case isTrue heq =>
          rw [heq.1, heq.2, hold]
          have hne : f ≠ g := fun hfg => hg (hfg ▸ hf)
          simp [hne]
    oneSide := .inl fun _ _ _ hh => hh
    alive := fun o' => by
      show ((w.setShmem o _).shmem o').isSome = _
      rw [shmem_setShmem hs]
      split_ifs with heq
      · rw [heq, hs]; rfl
      · rfl
    objects := fun o' i => by
      rw [objBytes, hpage, objBytes]
      split_ifs with heq
      · rw [heq.1, heq.2, hold]
        exact congrArg some hself
      · cases hp' : w.objPage o' i with
        | none => rfl
        | some p =>
          cases p with
          | none => rfl
          | some g =>
            have hg := ht g _ ((holds_object_iff o' i).mpr hp')
            exact congrArg some (hother g fun hgf => hg (hgf.symm ▸ hf)) }

/-- A page of a shared object: its frame, which may be new. -/
lemma shmemGetPage_resolved (h : Owned K w held) (o idx : ℕ) :
    Resolved w (w.shmemGetPage o idx).2 ∧ ∀ f, (w.shmemGetPage o idx).1 = some f →
      (w.shmemGetPage o idx).2.Holds f (.object o idx) := by
  have hrefl := (Quiet.refl w).resolved h.taken
  rw [shmemGetPage]
  cases hs : w.shmem o with
  | none => exact ⟨hrefl, by simp⟩
  | some s =>
    dsimp only
    cases hp : s.pages[idx]? with
    | none => exact ⟨hrefl, by simp⟩
    | some p =>
      cases p with
      | some f =>
        refine ⟨(quiet_refInc w f).resolved h.taken, ?_⟩
        rintro _ ⟨⟩
        exact ⟨s, hs, hp⟩
      | none =>
        dsimp only
        rcases w.alloc_cases with hal | ⟨f, hf, hal⟩
        · rw [hal]
          exact ⟨(quiet_picks w).resolved h.taken, by simp⟩
        · rw [hal]
          refine ⟨resolved_newPage h.taken hs hp hf, ?_⟩
          rintro _ ⟨⟩
          exact (holds_object_iff o idx).mpr
            ((newPage_objPage hs hp o idx).trans (if_pos ⟨rfl, rfl⟩))

lemma anonFrame_resolved (ht : w.Taken) : Quiet w w.anonFrame.2 ∧ ∀ f, w.anonFrame.1 = some f →
    f ∈ w.mem.free ∧ (∀ h, ¬ w.anonFrame.2.Holds f h) ∧ w.anonFrame.2.mem.bytes f = fun _ => 0 := by
  rw [anonFrame]
  rcases w.alloc_cases with hal | ⟨f, hf, hal⟩
  · rw [hal]
    exact ⟨quiet_picks w, by simp⟩
  · rw [hal]
    refine ⟨(quiet_taking w f).zeroFrame hf, ?_⟩
    rintro _ ⟨⟩
    refine ⟨hf, fun hd hh => ht f hd ((holds_congr f hd).mp hh) hf, ?_⟩
    exact zeroFrame_self _ f

namespace Resolved

variable (hr : Resolved w w₁)

include hr

lemma entry (i n : ℕ) : w₁.entry i n = w.entry i n := by rw [World.entry, hr.spaces, World.entry]

lemma vmaOf (i addr : ℕ) : w₁.vmaOf i addr = w.vmaOf i addr := by
  rw [World.vmaOf, hr.spaces, World.vmaOf]

lemma kind (i n : ℕ) : w₁.kind i n = w.kind i n := by rw [World.kind, hr.vmaOf, World.kind]

lemma absentByte (v : Vma) (addr : ℕ) : w₁.absentByte v addr = w.absentByte v addr := by
  have hsh : w₁.vmaShmem? v = w.vmaShmem? v := by
    rw [vmaShmem?, vmaShmem?]
    exact congrArg (Option.filter · v.shmem) (funext fun o => hr.alive o)
  rw [World.absentByte, hr.files, hsh, World.absentByte]
  simp only [hr.objects]

lemma private_iff (hf : f ∉ w.mem.free) : w₁.Private f ↔ w.Private f := by
  simp only [Private, hr.entry, hr.kind, hr.holds f hf]

lemma public_iff (hf : f ∉ w.mem.free) : w₁.Public f ↔ w.Public f := by
  simp only [Public, hr.entry, hr.kind, hr.holds f hf]

lemma value (h : Isolated K w) (i addr : ℕ) : w₁.value i addr = w.value i addr := by
  rw [World.value, hr.vmaOf, hr.entry, World.value]
  refine congrArg (Option.bind _) (funext fun v => ?_)
  cases he : w.entry i (addr / pageSize) with
  | none => exact hr.absentByte v addr
  | some e => exact congrArg some (congrFun (hr.bytes _ (h.entry_not_free he)) _)

lemma isolated (h : Isolated K w) (hfile : FileInv K w₁) : Isolated K w₁ where
  file := hfile
  vmas := hr.spaces ▸ h.vmas
  backing sp hsp v hv := by
    obtain ⟨hsh, hmm⟩ := h.backing sp (hr.spaces ▸ hsp) v hv
    exact ⟨fun o ho => ⟨(hsh o ho).1, (hr.alive o).trans (hsh o ho).2⟩, hmm⟩
  device i n e he hk := by
    rw [hr.entry] at he
    rw [hr.kind] at hk
    have hf := h.entry_not_free he
    rw [hr.private_iff hf, hr.public_iff hf]
    exact ⟨fun hf' => hf (hr.free hf'), (h.device i n e he hk).2⟩
  exclusive i n e he hk hw := by
    rw [hr.entry] at he
    rw [hr.kind] at hk
    obtain ⟨hheld, honly⟩ := h.exclusive i n e he hk hw
    refine ⟨fun hd => by rw [hr.holds _ (h.entry_not_free he)]; exact hheld hd, ?_⟩
    intro j m e' he' hk'
    rw [hr.entry] at he'
    rw [hr.kind] at hk'
    exact honly j m e' he' hk'
  apart f hpriv hpub := by
    rcases Classical.em (f ∈ w.mem.free) with hf | hf
    · -- no page maps the frame, and only one side has new holders
      obtain ⟨held, hown⟩ := h.file.owned
      have hnot : ∀ i n e, w₁.entry i n = some e → e.frame ≠ f := fun i n e he hef =>
        h.entry_not_free ((hr.entry i n).symm.trans he) (hef.symm ▸ hf)
      rcases hpriv with ⟨i, n, e, he, -, hef⟩ | ⟨ino, idx, hc⟩
      · exact hnot i n e he hef
      rcases hpub with ⟨i, n, e, he, -, hef⟩ | ⟨o, idx', ho⟩
      · exact hnot i n e he hef
      rcases hr.oneSide with hside | hside
      · exact hown.taken f _ (hside f ino idx hc) hf
      · exact hown.taken f _ (hside f o idx' ho) hf
    · exact h.apart f ((hr.private_iff hf).mp hpriv) ((hr.public_iff hf).mp hpub)

end Resolved

/-- **Who can have the frame that was found** for a page: it is new, a page of a file for a
read-only mapping, or a page of an object. -/
inductive Found (w w₁ : World) (v : Vma) (page f : ℕ) : Prop
  | fresh : kindOf v ≠ .shared → f ∈ w.mem.free → (∀ h, ¬ w₁.Holds f h) → Found w w₁ v page f
  | clean {ino idx : ℕ} : kindOf v = .priv → hasFlag v.flags vmaW = false →
      w₁.Holds f (.cache ino idx) → Found w w₁ v page f
  | object {o : ℕ} : v.shmem = some o → w₁.Holds f (.object o (objIdx v page)) → Found w w₁ v page f

lemma Isolated.kindOf_backing (h : Isolated K w) (hv : w.vmaOf i addr = some v) :
    (∀ k, vmaFile? v = some k → kindOf v = .priv) ∧
      (w.vmaShmem? v = none → kindOf v ≠ .shared) := by
  obtain ⟨sp, hs, hv⟩ := bind_eq_some_iff.mp hv
  obtain ⟨hsh, hmm⟩ := h.backing sp (mem_of_getElem? hs) v (mem_of_find?_eq_some hv)
  refine ⟨fun k hk => ?_, fun hnone => ?_⟩
  · rw [kindOf_eq_priv, eq_none_iff_forall_ne_some, ← not_eq_true]
    exact ⟨fun o ho => by simp [(hsh o ho).1] at hk, fun hm => by simp [hmm hm] at hk⟩
  · rw [Ne, kindOf_eq_shared, isSome_iff_exists]
    rintro ⟨o, ho⟩
    rw [vmaShmem?, ho, filter_some, if_pos (hsh o ho).2] at hnone
    nomatch hnone

lemma resolveFrame_resolved (h : Isolated K w) (hv : w.vmaOf i addr = some v) (page : ℕ) :
    Resolved w (w.resolveFrame v page).2 ∧ ∀ f, (w.resolveFrame v page).1 = some f →
      Found w (w.resolveFrame v page).2 v page f := by
  obtain ⟨held, hown⟩ := h.file.owned
  obtain ⟨hfile, hanon⟩ := h.kindOf_backing hv
  rw [resolveFrame]
  cases hk : vmaFile? v with
  | some k =>
    obtain ⟨hq, hframe⟩ := fileFrame_resolved (v := v) hown (w.files k) page
    have hr := hq.resolved hown.taken
    refine ⟨hr, fun f hf => ?_⟩
    obtain ⟨hsource, hwrite⟩ := hframe f hf
    have hpriv := hfile k hk
    rcases Classical.em (∃ ino idx, (w.fileFrame v (w.files k) page).2.Holds f (.cache ino idx))
      with ⟨ino, idx, hc⟩ | hc
    · refine .clean hpriv ?_ hc
      rw [← not_eq_true]
      exact fun hw => (hwrite hw).2 _ hc
    · have hfree := hsource.resolve_right hc
      refine .fresh (by simp [hpriv]) hfree fun hd hh => ?_
      cases hd with
      | cache ino idx => exact hc ⟨ino, idx, hh⟩
      | object o idx =>
        obtain ⟨s, ho, hp⟩ := hh
        rw [shmem, hq.shmems] at ho
        exact hown.taken f (.object o idx) ⟨s, ho, hp⟩ hfree
  | none =>
    dsimp only
    cases ho : w.vmaShmem? v with
    | some o =>
      obtain ⟨hr, hframe⟩ := shmemGetPage_resolved hown o (objIdx v page)
      exact ⟨hr, fun f hf => .object (filter_eq_some_iff.mp ho).1 (hframe f hf)⟩
    | none =>
      obtain ⟨hq, hframe⟩ := anonFrame_resolved hown.taken
      refine ⟨hq.resolved hown.taken, fun f hf => ?_⟩
      obtain ⟨hfree, hheld, -⟩ := hframe f hf
      exact .fresh (hanon ho) hfree hheld

lemma Found.refDec {page : ℕ} (hf : Found w w₁ v page f) (hr : Resolved w w₁)
    (hown : Owned K w₁ (f :: held)) : Resolved w (w₁.refDec f) where
  __ := hr
  free g hg := by
    cases hf with
    | fresh _ hfree _ =>
      rcases (refDec_spec w₁.mem f).2.2.2 g hg with hg | ⟨rfl, -⟩
      · exact hr.free hg
      · exact hfree
    | clean _ _ hc | object _ hc => exact hr.free (hown.refDec_free (owners_pos_of_holds hc) hg)
  bytes g hg := (congrFun (refDec_spec w₁.mem f).2.1 g).trans (hr.bytes g hg)
  holds g hg h := (holds_congr g h).trans (hr.holds g hg h)
  objects o idx := by
    have hb := congrFun (refDec_spec w₁.mem f).2.1
    exact (@objBytes_congr w₁ (w₁.refDec f) rfl (fun g _ _ _ => hb g) o idx).trans
      (hr.objects o idx)

lemma Isolated.vma_offset (h : Isolated K w) (hv : w.vmaOf i addr = some v) :
    alignDown addr - v.start + addr % pageSize = addr - v.start := by
  have hpage := vmaOf_page h.vmas hv
  obtain ⟨sp, hs, hpage⟩ := bind_eq_some_iff.mp hpage
  rw [mmVmaFind] at hpage
  have hcov := find?_some hpage
  have hlo := (covers_iff.mp hcov).1
  simp only [alignDown, pageSize] at hlo ⊢
  omega

/-- **The frame for a missing page** shows what the page is to show. -/
lemma Isolated.resolveFrame (h : Isolated K w) (hv : w.vmaOf i addr = some v)
    (hok : FaultShowsOk w i addr) : Isolated K (w.resolveFrame v (alignDown addr)).2 ∧
      ∀ f, (w.resolveFrame v (alignDown addr)).1 = some f →
        f ∉ (w.resolveFrame v (alignDown addr)).2.mem.free ∧
        w.absentByte v addr =
          some ((w.resolveFrame v (alignDown addr)).2.mem.bytes f (addr % pageSize)) := by
  obtain ⟨sp, hs, hfind⟩ := bind_eq_some_iff.mp hv
  obtain ⟨hr, -⟩ := resolveFrame_resolved h hv (alignDown addr)
  obtain ⟨hfile, hbytes⟩ := @FileInv.resolveFrame K w h.file (alignDown addr) v
    fun k hk => hok sp v k hs hfind hk
  refine ⟨hr.isolated h hfile, fun f hf => ⟨?_, ?_⟩⟩
  · obtain ⟨held, hown⟩ := h.file.owned
    obtain ⟨leaked, hown1, -⟩ := hown.resolveFrame v (alignDown addr)
    rw [hf] at hown1
    exact hown1.not_free (Nat.add_pos_right _ (by simp))
  · have hj : addr % pageSize < pageSize := Nat.mod_lt _ (by decide)
    rw [absentByte]
    cases hk : vmaFile? v with
    | some k =>
      have hb := hbytes k hk f hf _ hj
      rw [h.vma_offset hv] at hb
      exact congrArg some hb.symm
    | none =>
      obtain ⟨held, hown⟩ := h.file.owned
      rw [World.resolveFrame, hk] at hf hr ⊢
      dsimp only at hf hr ⊢
      cases ho : w.vmaShmem? v with
      | some o =>
        rw [ho] at hf hr
        dsimp only at hf hr ⊢
        have hheld := (shmemGetPage_resolved hown o (objIdx v (alignDown addr))).2 f hf
        rw [← hr.objects, objBytes]
        exact congrArg (fun p => (Option.map _ p).map _) ((holds_object_iff _ _).mp hheld)
      | none =>
        rw [ho] at hf
        obtain ⟨-, -, hzero⟩ := (anonFrame_resolved hown.taken).2 f hf
        dsimp only
        rw [hzero]

end World

end Makaos
