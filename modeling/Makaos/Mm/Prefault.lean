import Makaos.Mm.RefCountFault

/-!
The two ways a page of user memory is first touched: by the process, through the page-fault handler,
and by the kernel, through `user_buf_prefault`.

* `cleanPage_succeeds`, `fileFrame_spec`, `resolveFrame_spec`: what the handler establishes when
  memory and the disk do not fail.
* `prefault_agrees_iff`: the two agree exactly if the handler, too, would map a private page of
  zeros.
* `prefault_hides_file`: a page of a file and a page of an object.
-/

namespace Makaos

open Option PhysMem List Finset Nat
variable {n : ℕ}

namespace World

variable {K : Set ℕ} {w w₁ : World} {held : List ℕ} {f i : ℕ} {sp : AddrSpace} {v : Vma}

/-! ### What the handler establishes -/

lemma owners_pos_of_holds {h : Holder} (hh : w.Holds f h) : 0 < w.owners f := by
  cases h with
  | cache ino idx =>
    obtain ⟨e, he, -, -, rfl⟩ := hh
    exact owners_pos_of_cache he
  | object o idx =>
    obtain ⟨s, hs, hp⟩ := hh
    exact owners_pos_of_page hs hp

lemma Owned.taken (h : Owned K w held) : w.Taken := fun _ _ hh =>
  h.not_free (Nat.add_pos_left (owners_pos_of_holds hh) _)

lemma Fetched.unheld {file : File} {fileOff fileLen pgOff idx : ℕ} {o : Option ℕ}
    (hfetch : Fetched w file fileOff fileLen pgOff idx o w₁) (ht : w.Taken) (h0 : file.ino = 0)
    (ho : o = some f) (h : Holder) : ¬ w₁.Holds f h := by
  cases hfetch with
  | noMem => nomatch ho
  | failed => nomatch ho
  | cached _ _ _ hne => exact absurd h0 hne
  | @kept g w2 ks hf hal hr hno =>
    obtain rfl : g = f := some.inj ho
    obtain ⟨hq, hcache, -⟩ := fillFrame_spec hf hr
    intro hh
    refine ht g h ?_ hf
    exact (holds_congr g h hcache hq.shmems).mp hh

/-- **A page of a file** is there if the disk answers. -/
lemma cleanPage_succeeds (w : World) (file : File) (fileOff fileLen pgOff : ℕ)
    (hn : Ready (n + 8) w.mem) (hk : Plenty 1 w.kmalloc) (hr : Plenty 1 w.reads)
    (hb : (w.pageBytes file fileOff fileLen pgOff).isSome) :
    ∃ f, (w.cleanPage file fileOff fileLen pgOff).1 = some f ∧
      Ready n (w.cleanPage file fileOff fileLen pgOff).2.mem ∧
      (file.ino ≠ 0 → (w.cleanPage file fileOff fileLen pgOff).2.Holds f
          (.cache file.ino (fileIdx fileOff pgOff))) ∧
      (file.ino = 0 → w.Taken → ∀ h, ¬ (w.cleanPage file fileOff fileLen pgOff).2.Holds f h) := by
  rcases w.cleanPage_cases file fileOff fileLen pgOff with
    ⟨e, h0, he, hc⟩ | ⟨hmiss, o, w₁, hfetch, hc⟩
  · rw [hc]
    obtain ⟨-, hfree, hpicks⟩ := refInc_spec w.mem e.frame
    refine ⟨e.frame, rfl, hn.mono (le_add_right _ _) hpicks fun g _ hg => hfree ▸ hg,
      fun _ => ?_, fun hz => absurd hz h0⟩
    have hfound := find?_some he
    simp only [decide_eq_true_eq] at hfound
    have htouch : (w.touch file.ino (fileIdx fileOff pgOff)).Holds e.frame
        (.cache file.ino (fileIdx fileOff pgOff)) :=
      (holds_touch _ _ _ _).mpr ⟨e, cacheFind_mem he, hfound.1, hfound.2, rfl⟩
    exact (holds_congr (w := w.touch file.ino _) ..).mpr htouch
  · rw [pageBytes_miss hmiss] at hb
    obtain ⟨f, rfl, hheld⟩ := hfetch.succeeds (hn.mono (by omega) rfl fun _ _ => id) hr hb
    have hn1 : Ready (n + 7) w₁.mem := hfetch.ready hn
    rcases hc with hc | ⟨h0, hc⟩
    · rw [hc]
      exact ⟨f, rfl, hn1.mono (le_add_right _ _) rfl fun _ _ => id, fun h0 => hheld h0 hk,
        fun hz ht h => hfetch.unheld ht hz rfl h⟩
    · rw [hc]
      refine ⟨f, rfl, readAhead_ready file fileOff fileLen pgOff raPages 1 w₁ hn1, fun _ => ?_,
        fun hz => absurd hz h0⟩
      have hq := readAhead_quiet file fileOff fileLen pgOff raPages 1 w₁
      exact (hq.holds f (hfetch.bytes rfl).2 _).mpr (hheld h0 hk)

/-- The frame of a page holds the bytes; it is private, or shared through the holder. -/
structure Establishes (w : World) (f : ℕ) (g : ℕ → UInt8) (shared : Bool) : Prop where
  bytes : w.mem.bytes f = g
  holder : (∃ h, w.Holds f h) ↔ shared = true

/-- **A page of a file** as the handler maps it. -/
lemma fileFrame_spec (h : Owned K w held) (file : File) (page : ℕ) (hn : Ready 9 w.mem)
    (hk : Plenty 1 w.kmalloc) (hr : Plenty 1 w.reads) :
    (w.fileFrame v file page).2.tables = w.tables ∧
    match w.pageBytes file v.fileOff v.fileLen (page - v.start) with
    | none => (w.fileFrame v file page).1 = none
    | some g => ∃ f, (w.fileFrame v file page).1 = some f ∧
        Establishes (w.fileFrame v file page).2 f g (!hasFlag v.flags vmaW && file.ino != 0) := by
  obtain ⟨hq, hbytes⟩ := w.cleanPage_spec file v.fileOff v.fileLen (page - v.start)
  have hsucc := w.cleanPage_succeeds file v.fileOff v.fileLen (page - v.start) (n := 1) hn hk hr
  obtain ⟨leaked, hown, -⟩ := h.cleanPage file v.fileOff v.fileLen (page - v.start)
  rw [fileFrame]
  generalize w.cleanPage file v.fileOff v.fileLen (page - v.start) = r at hq hbytes hsucc hown
  obtain ⟨o, w₁⟩ := r
  dsimp only at hq hbytes hsucc hown ⊢
  cases hb : w.pageBytes file v.fileOff v.fileLen (page - v.start) with
  | none =>
    cases o with
    | none => exact ⟨hq.tables, rfl⟩
    | some clean => exact absurd ((hbytes clean rfl).symm.trans hb) (by simp)
  | some g =>
    obtain ⟨clean, rfl, hn1, hcached, hprivate⟩ := hsucc (by rw [hb]; rfl)
    have hg : w₁.mem.bytes clean = g := some.inj ((hbytes clean rfl).symm.trans hb)
    dsimp only
    split_ifs with hw
    · -- the writable mapping gets a copy of its own
      obtain ⟨f, hf, hal, -⟩ := hn1.alloc
      rw [hal, hw]
      refine ⟨hq.tables, f, rfl, ?_, ?_⟩
      · show ((((w₁.taking f).mem.copyFrame f clean).refDec clean).bytes f) = g
        rwa [(refDec_spec _ _).2.1, copyFrame_self]
      · refine iff_of_false ?_ (by simp)
        rintro ⟨hd, hh⟩
        exact hown.taken f hd ((holds_congr f hd).mp hh) hf
    · rw [Bool.not_eq_true] at hw
      rw [hw]
      refine ⟨hq.tables, clean, rfl, hg, ?_⟩
      rcases eq_or_ne file.ino 0 with h0 | h0
      · refine iff_of_false ?_ (by simp [h0])
        rintro ⟨hd, hh⟩
        exact hprivate h0 h.taken hd hh
      · exact iff_of_true ⟨_, hcached h0⟩ (by simp [h0])

/-- What the handler establishes for a page, and whether it is shared; `none` if the process is
killed. -/
def faultPage (w : World) (v : Vma) (page : ℕ) : Option ((ℕ → UInt8) × Bool) :=
  match vmaFile? v with
  | some file =>
    (w.pageBytes (w.files file) v.fileOff v.fileLen (page - v.start)).map
      (·, !hasFlag v.flags vmaW && (w.files file).ino != 0)
  | none =>
    match w.vmaShmem? v with
    | some o =>
      match ((w.shmem o).bind fun s =>
        s.pages[((page - v.start) / pageSize % 2 ^ 32 + v.shmemPgoff) % 2 ^ 32]?) with
      | none => none
      | some p => some (p.elim (fun _ => 0) w.mem.bytes, true)
    | none => some (fun _ => 0, false)

/-- **The frame for a page that is not present**, as the handler finds it. -/
lemma resolveFrame_spec (h : Owned K w held) (v : Vma) (page : ℕ) (hn : Ready 9 w.mem)
    (hk : Plenty 1 w.kmalloc) (hr : Plenty 1 w.reads) :
    (w.resolveFrame v page).2.tables = w.tables ∧
    match w.faultPage v page with
    | none => (w.resolveFrame v page).1 = none
    | some (g, shared) => ∃ f, (w.resolveFrame v page).1 = some f ∧
        Establishes (w.resolveFrame v page).2 f g shared := by
  obtain ⟨f0, hf0, hal0, -⟩ := hn.alloc
  rw [resolveFrame, faultPage]
  cases vmaFile? v with
  | some file =>
    obtain ⟨ht, hspec⟩ := fileFrame_spec (v := v) h (w.files file) page hn hk hr
    dsimp only
    refine ⟨ht, ?_⟩
    cases hb : w.pageBytes (w.files file) v.fileOff v.fileLen (page - v.start) with
    | none | some g =>
      rwa [hb] at hspec
  | none =>
    dsimp only
    cases w.vmaShmem? v with
    | none =>
      dsimp only
      rw [anonFrame, hal0]
      refine ⟨rfl, f0, rfl, zeroFrame_self _ f0, iff_of_false ?_ (by simp)⟩
      rintro ⟨hd, hh⟩
      exact h.taken f0 hd ((holds_congr f0 hd).mp hh) hf0
    | some o =>
      dsimp only
      generalize ((page - v.start) / pageSize % 2 ^ 32 + v.shmemPgoff) % 2 ^ 32 = idx
      rw [shmemGetPage]
      cases hs : w.shmem o with
      | none => exact ⟨rfl, rfl⟩
      | some s =>
        rw [bind_some]
        dsimp only
        cases hp : s.pages[idx]? with
        | none => exact ⟨rfl, rfl⟩
        | some p =>
          cases p with
          | some f =>
            refine ⟨rfl, f, rfl, ?_, iff_of_true ⟨.object o idx, s, hs, hp⟩ rfl⟩
            show (w.mem.refInc f).bytes f = _
            rw [(refInc_spec _ _).1]
            rfl
          | none =>
            dsimp only
            rw [hal0]
            refine ⟨rfl, f0, rfl, ?_, iff_of_true ⟨.object o idx,
              { s with pages := s.pages.set idx (some f0) }, ?_, ?_⟩ rfl⟩
            · show (PhysMem.refInc _ f0).bytes f0 = _
              rw [(PhysMem.refInc_spec _ _).1]
              exact PhysMem.zeroFrame_self _ f0
            · exact (shmem_setShmem hs _ o).trans (if_pos rfl)
            · obtain ⟨hlt, -⟩ := List.getElem?_eq_some_iff.mp hp
              exact List.getElem?_set_self hlt

/-- The access is one that the handler lets through. -/
def Permitted (v : Vma) (isWrite isIfetch : Bool) : Prop :=
  (isWrite = true → hasFlag v.flags vmaW = true) ∧ (isIfetch = true → hasFlag v.flags vmaX = true)

/-- **The handler** maps what `faultPage` says. -/
lemma faultMissing_spec (h : Owned K w held) {page : ℕ} (hal : PageAligned page)
    (hs : w.spaces[i]? = some sp) (hv : mmVmaFind sp.mm.vmas page = some v)
    (hnone : sp.pt.lookup (page / pageSize) = none) {isWrite isIfetch : Bool}
    (hacc : Permitted v isWrite isIfetch) (hn : Ready 9 w.mem) (hk : Plenty 1 w.kmalloc)
    (hr : Plenty 1 w.reads) (ht : Plenty 1 w.tables) :
    match w.faultPage v page with
    | none => (w.faultMissing i page isWrite isIfetch).2.entry i (page / pageSize) = none
    | some (g, shared) => ∃ f, (w.faultMissing i page isWrite isIfetch).2.entry i
          (page / pageSize) = some ⟨f, mmVmaPteFlags v.flags⟩ ∧
        Establishes (w.faultMissing i page isWrite isIfetch).2 f g shared := by
  obtain ⟨htab, hspec⟩ := resolveFrame_spec h v page hn hk hr
  have hsp := w.resolveFrame_spaces v page
  have hpage : alignDown page = page := alignDown_eq_self hal
  rw [faultMissing, hs]
  dsimp only
  rw [hv]
  dsimp only
  rw [if_neg (fun hc => hc.2 (hacc.1 hc.1)), if_neg (fun hc => hc.2 (hacc.2 hc.1)), hpage]
  generalize w.resolveFrame v page = r at htab hspec hsp
  obtain ⟨o, w₁⟩ := r
  dsimp only at htab hspec hsp
  have hs1 : w₁.spaces[i]? = some sp := by
    rwa [hsp]
  cases hfp : w.faultPage v page with
  | none =>
    rw [hfp] at hspec
    obtain rfl : o = none := hspec
    show w₁.entry i (page / pageSize) = none
    rwa [entry, hs1]
  | some gs =>
    obtain ⟨g, shared⟩ := gs
    rw [hfp] at hspec
    obtain ⟨f, rfl, hest⟩ := hspec
    refine ⟨f, ?_⟩
    dsimp only
    rw [install, hnone, if_neg (by simp), mapPage, htab, ht.next.1]
    dsimp only
    constructor
    · rw [@entry_setSpace { w₁ with tables := w.tables.tail } sp i (page / pageSize) hs1,
        AList.lookup_insert]
    · exact ⟨hest.bytes, Iff.trans (exists_congr fun hd => holds_congr f hd) hest.holder⟩

/-! ### What the prefault establishes -/

/-- The state after a new frame of zeros has been mapped. -/
def mapZero (w : World) (i : ℕ) (sp : AddrSpace) (n f : ℕ) (fl : BitVec 64) : World :=
  { (w.taking f).onMem (·.zeroFrame f) with tables := w.tables.tail }.setSpace i
    { sp with pt := sp.pt.insert n ⟨f, fl⟩ }

lemma mapZero_entry (hs : w.spaces[i]? = some sp) (n f : ℕ) (fl : BitVec 64) (m : ℕ) :
    (w.mapZero i sp n f fl).entry i m = (sp.pt.insert n ⟨f, fl⟩).lookup m :=
  @entry_setSpace { (w.taking f).onMem (·.zeroFrame f) with tables := w.tables.tail } sp i m hs _

/-- A page of the prefault: nothing to do, or a new frame of zeros. -/
lemma prefaultPage_cases (hn : Ready (n + 1) w.mem) (ht : Plenty (n + 1) w.tables) (i page : ℕ) :
    (w.prefaultPage i page = (true, w) ∧ ∀ sp v, w.spaces[i]? = some sp →
        mmVmaFind sp.mm.vmas page = some v → (sp.pt.lookup (page / pageSize)).isSome) ∨
      ∃ f ∈ w.mem.free, Ready n (w.taking f).mem ∧ ∃ sp v, w.spaces[i]? = some sp ∧
        mmVmaFind sp.mm.vmas page = some v ∧ sp.pt.lookup (page / pageSize) = none ∧
        w.prefaultPage i page = (true, w.mapZero i sp (page / pageSize) f (mmVmaPteFlags v.flags)) := by
  rw [prefaultPage]
  cases hs : w.spaces[i]? with
  | none => exact .inl ⟨rfl, nofun⟩
  | some sp =>
    dsimp only
    cases hv : mmVmaFind sp.mm.vmas page with
    | none =>
      refine .inl ⟨rfl, fun sp' v hsp' hv' => ?_⟩
      cases hsp'
      exact absurd (hv.symm.trans hv') (by simp)
    | some v =>
      dsimp only
      split_ifs with hp
      · refine .inl ⟨rfl, fun sp' v hsp' _ => ?_⟩
        cases hsp'
        exact hp
      · obtain ⟨f, hf, hal, hn1⟩ := hn.alloc
        have htab : ((w.taking f).onMem (·.zeroFrame f)).tables.next = (true, w.tables.tail) :=
          ht.next.1
        refine .inr ⟨f, hf, hn1, sp, v, rfl, hv, not_isSome_iff_eq_none.mp hp, ?_⟩
        rw [hal]
        dsimp only
        rw [mapPage, htab]
        rfl

/-- The page is mapped to a private frame of zeros. -/
def ZeroMapped (w : World) (i n : ℕ) (flags : BitVec 64) : Prop :=
  ∃ f, w.entry i n = some ⟨f, flags⟩ ∧ f ∉ w.mem.free ∧ Establishes w f (fun _ => 0) false

/-- The page is to be mapped by the prefault. -/
def Awaited (w : World) (i page : ℕ) (v : Vma) : Prop :=
  ∃ sp, w.spaces[i]? = some sp ∧ mmVmaFind sp.mm.vmas page = some v ∧
    sp.pt.lookup (page / pageSize) = none

/-- One page of the prefault: the page it is about is mapped, what other pages are waiting for or
have is left alone. -/
lemma prefaultPage_step (ht : w.Taken) (hn : Ready (n + 1) w.mem) (htab : Plenty (n + 1) w.tables)
    (i q : ℕ) : ∃ w₁, w.prefaultPage i q = (true, w₁) ∧
      w₁.Taken ∧ Ready n w₁.mem ∧ Plenty n w₁.tables ∧
      (∀ v, Awaited w i q v → ZeroMapped w₁ i (q / pageSize) (mmVmaPteFlags v.flags)) ∧
      (∀ p v, p / pageSize ≠ q / pageSize → Awaited w i p v → Awaited w₁ i p v) ∧
      ∀ m fl, ZeroMapped w i m fl → ZeroMapped w₁ i m fl := by
  rcases prefaultPage_cases hn htab i q with ⟨heq, hno⟩ | ⟨f, hf, hn1, sp, v, hs, hv, hnone, heq⟩
  · refine ⟨w, heq, ht, hn.mono (le_succ n) rfl fun _ _ => id,
      ⟨(le_succ n).trans htab.1, htab.2⟩, ?_, fun _ _ _ h => h, fun _ _ h => h⟩
    rintro v ⟨sp, hs, hv, hnone⟩
    have := hno sp v hs hv
    rw [hnone] at this
    cases this
  · have hholds : ∀ g hd, (w.mapZero i sp (q / pageSize) f (mmVmaPteFlags v.flags)).Holds g hd ↔
        w.Holds g hd := fun g hd => holds_congr g hd
    have hentry := mapZero_entry hs (q / pageSize) f (mmVmaPteFlags v.flags)
    refine ⟨_, heq, fun g hd hh hg => ?_, ?_, htab.next.2, ?_, ?_, ?_⟩
    · exact ht g hd ((hholds g hd).mp hh) (mem_of_mem_erase hg)
    · exact hn1.mono le_rfl rfl fun _ _ => id
    · rintro v' ⟨sp', hs', hv', -⟩
      cases hs.symm.trans hs'
      cases hv.symm.trans hv'
      refine ⟨f, ?_, notMem_erase f _, zeroFrame_self _ f, iff_of_false ?_ (by simp)⟩
      · rw [hentry, AList.lookup_insert]
      · rintro ⟨hd, hh⟩
        exact ht f hd ((hholds f hd).mp hh) hf
    · rintro p v' hne ⟨sp', hs', hv', hnone'⟩
      cases hs.symm.trans hs'
      obtain ⟨hlt, -⟩ := List.getElem?_eq_some_iff.mp hs
      refine ⟨_, List.getElem?_set_self hlt, hv', ?_⟩
      show (sp.pt.insert _ _).lookup _ = none
      rwa [AList.lookup_insert_ne hne]
    · rintro m fl ⟨g, hg, hfree, hest⟩
      have hgm : sp.pt.lookup m = some ⟨g, fl⟩ := by
        rwa [entry, hs] at hg
      have hgf : g ≠ f := fun heq => hfree (heq ▸ hf)
      refine ⟨g, ?_, fun hmem => hfree (mem_of_mem_erase hmem), ?_, ?_⟩
      · rw [hentry, AList.lookup_insert_ne]
        · exact hgm
        · rintro rfl
          rw [hnone] at hgm
          cases hgm
      · exact (Function.update_of_ne hgf _ _).trans hest.bytes
      · exact Iff.trans (exists_congr fun hd => hholds g hd) hest.holder

/-- **The prefault** maps every page of the range that is missing to a private frame of zeros. -/
lemma prefaultLoop_spec (i n : ℕ) : ∀ (q : ℕ) {w : World}, PageAligned q → w.Taken →
    Ready n w.mem → Plenty n w.tables →
    (∀ m fl, ZeroMapped w i m fl → ZeroMapped (prefaultLoop i n q w) i m fl) ∧
    ∀ k < n, ∀ v, Awaited w i (q + k * pageSize) v →
      ZeroMapped (prefaultLoop i n q w) i ((q + k * pageSize) / pageSize)
        (mmVmaPteFlags v.flags) := by
  induction n with
  | zero => exact fun q w _ _ _ _ => ⟨fun _ _ h => h, fun k hk => absurd hk (not_lt_zero k)⟩
  | succ n ih =>
    intro q w hal ht hn htab
    obtain ⟨w₁, heq, ht1, hn1, htab1, hself, hothers, hkept⟩ := prefaultPage_step ht hn htab i q
    have hal1 : PageAligned (q + pageSize) := by
      simp only [PageAligned, pageSize] at hal ⊢
      omega
    obtain ⟨hmapped, hrest⟩ := ih (q + pageSize) hal1 ht1 hn1 htab1
    rw [prefaultLoop, heq]
    refine ⟨fun m fl h => hmapped m fl (hkept m fl h), fun k hk v hv => ?_⟩
    cases k with
    | zero =>
      rw [zero_mul, add_zero] at hv ⊢
      exact hmapped _ _ (hself v hv)
    | succ k =>
      have hnext : q + (k + 1) * pageSize = q + pageSize + k * pageSize := by
        rw [succ_mul]
        omega
      rw [hnext] at hv ⊢
      refine hrest k (by omega) v (hothers _ v ?_ hv)
      simp only [pageSize]
      omega

lemma userBufPrefault_spec {addr len page : ℕ} (ht : w.Taken) (hs : w.spaces[i]? = some sp)
    (hlo : alignDown addr ≤ page) (hhi : page < alignDown (wrap (addr + len + (pageSize - 1))))
    (hlen : len ≠ 0) (hal : PageAligned page) (hv : mmVmaFind sp.mm.vmas page = some v)
    (hnone : sp.pt.lookup (page / pageSize) = none) {pages k : ℕ}
    (hpages : pages = (alignDown (wrap (addr + len + (pageSize - 1))) - alignDown addr) / pageSize)
    (hn : Ready (max pages 9) w.mem) (htab : Plenty (max pages k) w.tables) :
    ZeroMapped (w.userBufPrefault i addr len) i (page / pageSize) (mmVmaPteFlags v.flags) := by
  have hstart := pageAligned_alignDown addr
  have hstop := pageAligned_alignDown (wrap (addr + len + (pageSize - 1)))
  rw [userBufPrefault, if_neg hlen]
  dsimp only
  rw [← hpages]
  obtain ⟨-, hloop⟩ := prefaultLoop_spec i pages (alignDown addr) hstart ht
    (hn.mono (le_max_left _ _) rfl fun _ _ => id) ⟨(le_max_left _ _).trans htab.1, htab.2⟩
  have hpage : alignDown addr + (page - alignDown addr) / pageSize * pageSize = page := by
    simp only [PageAligned, pageSize] at hstart hal ⊢
    omega
  have hk : (page - alignDown addr) / pageSize < pages := by
    rw [hpages]
    generalize alignDown (wrap (addr + len + (pageSize - 1))) = stop at hhi hstop
    simp only [PageAligned, pageSize] at hstart hstop hal ⊢
    omega
  have hmapped := hloop _ hk v
  rw [hpage] at hmapped
  exact hmapped ⟨sp, hs, hv, hnone⟩

/-! ### The comparison -/

/-- Two ways of touching a page end the same: it is missing in both, or it has the same flags and
bytes and is held by the same holders. -/
def SamePage (w₁ w₂ : World) (i n : ℕ) : Prop :=
  match w₁.entry i n, w₂.entry i n with
  | none, none => True
  | some e₁, some e₂ => e₁.flags = e₂.flags ∧
      (∀ j < pageSize, w₁.mem.bytes e₁.frame j = w₂.mem.bytes e₂.frame j) ∧
      ∀ h, w₁.Holds e₁.frame h ↔ w₂.Holds e₂.frame h
  | _, _ => False

/-- Nothing fails: there are free frames for the pages of the buffer and for a fault with its
read-ahead, memory for tables and for an entry of the cache, and the disk answers. -/
structure Ample (pages : ℕ) (w : World) : Prop where
  frames : Ready (max pages 9) w.mem
  tables : Plenty (max pages 1) w.tables
  kmalloc : Plenty 1 w.kmalloc
  reads : Plenty 1 w.reads

/-- **The condition**: the page belongs to no object, and if it belongs to a file then it is not
shared through the page cache (the mapping is writable, or the file has no number there) and all its
bytes are zero. -/
def PrefaultOk (w : World) (v : Vma) (page : ℕ) : Prop :=
  match vmaFile? v with
  | some file => (hasFlag v.flags vmaW = true ∨ (w.files file).ino = 0) ∧
      ∃ g, w.pageBytes (w.files file) v.fileOff v.fileLen (page - v.start) = some g ∧
        ∀ j < pageSize, g j = 0
  | none => w.vmaShmem? v = none

/-- The condition in terms of what the handler establishes. -/
lemma prefaultOk_iff (w : World) (v : Vma) (page : ℕ) : PrefaultOk w v page ↔
    ∃ g, w.faultPage v page = some (g, false) ∧ ∀ j < pageSize, g j = 0 := by
  rw [PrefaultOk, faultPage]
  cases vmaFile? v with
  | some file =>
    simp only [map_eq_some_iff, Prod.mk.injEq]
    constructor
    · rintro ⟨hpriv, g, hg, hz⟩
      refine ⟨g, ⟨g, hg, rfl, ?_⟩, hz⟩
      rcases hpriv with hw | h0
      · simp [hw]
      · simp [h0]
    · rintro ⟨g, ⟨_, hg, rfl, hpriv⟩, hz⟩
      refine ⟨?_, _, hg, hz⟩
      cases hw : hasFlag v.flags vmaW with
      | true => exact .inl rfl
      | false => exact .inr (by simpa [hw] using hpriv)
  | none =>
    cases w.vmaShmem? v with
    | none => exact iff_of_true rfl ⟨_, rfl, fun _ _ => rfl⟩
    | some o =>
      refine iff_of_false (by simp) ?_
      rintro ⟨g, hg, -⟩
      dsimp only at hg
      split at hg
      · nomatch hg
      · exact absurd (congrArg Prod.snd (some.inj hg)) (by simp)

/-- **The two ways of touching a page agree exactly under the condition**: for every page of a buffer
that lies in a VMA and is not present, when nothing fails. -/
theorem prefault_agrees_iff {K : Set ℕ} {w : World} {i addr len page : ℕ} {sp : AddrSpace} {v : Vma}
    {isWrite isIfetch : Bool} (h : Owned K w []) (hs : w.spaces[i]? = some sp)
    (hlo : alignDown addr ≤ page) (hhi : page < alignDown (wrap (addr + len + (pageSize - 1))))
    (hlen : len ≠ 0) (hal : PageAligned page) (hv : mmVmaFind sp.mm.vmas page = some v)
    (hnone : sp.pt.lookup (page / pageSize) = none) (hacc : Permitted v isWrite isIfetch)
    (hample : Ample ((alignDown (wrap (addr + len + (pageSize - 1))) - alignDown addr) / pageSize)
      w) : SamePage (w.userBufPrefault i addr len) (w.faultMissing i page isWrite isIfetch).2 i
      (page / pageSize) ↔ PrefaultOk w v page := by
  obtain ⟨f1, he1, -, hest1⟩ :=
    userBufPrefault_spec h.taken hs hlo hhi hlen hal hv hnone rfl hample.frames hample.tables
  have hfault := faultMissing_spec h hal hs hv hnone hacc
    (hample.frames.mono (le_max_right _ _) rfl fun _ _ => id) hample.kmalloc hample.reads
    ⟨(le_max_right _ _).trans hample.tables.1, hample.tables.2⟩
  rw [SamePage, he1, prefaultOk_iff]
  cases hfp : w.faultPage v page with
  | none =>
    rw [hfp] at hfault
    rw [hfault]
    exact iff_of_false id (by simp)
  | some gs =>
    obtain ⟨g, shared⟩ := gs
    rw [hfp] at hfault
    obtain ⟨f2, he2, hest2⟩ := hfault
    rw [he2]
    simp only [hest1.bytes, hest2.bytes, true_and, some.injEq, Prod.mk.injEq]
    constructor
    · rintro ⟨hbytes, hholds⟩
      refine ⟨g, ⟨rfl, ?_⟩, fun j hj => (hbytes j hj).symm⟩
      rw [← Bool.not_eq_true, ← hest2.holder]
      rintro ⟨hd, hh⟩
      exact absurd (hest1.holder.mp ⟨hd, (hholds hd).mpr hh⟩) (by simp)
    · rintro ⟨_, ⟨rfl, rfl⟩, hz⟩
      refine ⟨fun j hj => (hz j hj).symm, fun hd => iff_of_false (fun hh => ?_) fun hh => ?_⟩
      · exact absurd (hest1.holder.mp ⟨hd, hh⟩) (by simp)
      · exact absurd (hest2.holder.mp ⟨hd, hh⟩) (by simp)

/-- Three missing pages: anonymous memory at `0x400000`, a private writable mapping of a file of
sevens at `0x500000`, and an object of one page at `0x600000`. -/
def threeKinds : World where
  mem := ⟨12, Finset.Icc 1 11, (List.range 11).map (· + 1), fun _ => 0, fun _ => 0, fun _ _ => 1,
    fun _ _ => Pte.empty⟩
  cache := []
  shmems := [some ⟨[none], 1⟩]
  files := fun _ => ⟨5, 0x1000, fun _ => 7⟩
  spaces := [⟨⟨[⟨0x400000, 0x401000, vmaR ||| vmaW ||| vmaAnon, none, 0, none, 0, 0⟩,
    ⟨0x500000, 0x501000, vmaFile ||| vmaR ||| vmaW, none, 0, some 0, 0, 0x1000⟩,
    ⟨0x600000, 0x601000, vmaShared ||| vmaR ||| vmaW, some 0, 0, none, 0, 0⟩], 0, 0, 0⟩, ∅⟩]
  kmalloc := [true]
  tables := [true]
  reads := [true]

lemma threeKinds_owned : Owned {0} threeKinds [] := by
  have hown : ∀ f, threeKinds.owners f = 0 := fun _ => rfl
  refine ⟨fun f _ _ => rfl, fun f hf => ?_, fun f hf => ?_, fun f hf hK _ _ => ?_,
    fun _ => zero_le _, fun _ => zero_le _⟩
  · rw [hown] at hf
    nomatch hf
  · obtain ⟨hlo, hhi⟩ := mem_Icc.mp hf
    exact ⟨lt_of_le_of_lt hhi (by decide), fun hK => absurd hlo (by rw [hK]; decide), rfl⟩
  · refine mem_Icc.mpr ⟨pos_of_ne_zero hK, ?_⟩
    exact le_of_lt_succ hf

lemma threeKinds_ample : Ample 1 threeKinds := by
  refine ⟨⟨?_, ?_, by decide⟩, ⟨by decide, by decide⟩, ⟨by decide, by decide⟩, ⟨by decide, by decide⟩⟩
  · exact (nodup_range).map (succ_injective)
  · intro f hf
    obtain ⟨k, hk, rfl⟩ := List.mem_map.mp hf
    have := List.mem_range.mp hk
    exact Finset.mem_Icc.mpr ⟨by omega, by omega⟩

/-- **The prefault hides the file and the object**: where the handler maps the bytes of the file or
the object's own frame, the prefault maps a private page of zeros. -/
theorem prefault_hides_file :
    ((threeKinds.userBufPrefault 0 0x500000 8).entry 0 0x500).map (fun e =>
      (threeKinds.userBufPrefault 0 0x500000 8).mem.bytes e.frame 0) = some 0 ∧
    ((threeKinds.faultMissing 0 0x500000 true false).2.entry 0 0x500).map (fun e =>
      (threeKinds.faultMissing 0 0x500000 true false).2.mem.bytes e.frame 0) = some 7 ∧
    (threeKinds.userBufPrefault 0 0x600000 8).entry 0 0x600 =
      some ⟨1, mmVmaPteFlags (vmaShared ||| vmaR ||| vmaW)⟩ ∧
    (threeKinds.userBufPrefault 0 0x600000 8).shmem 0 = some ⟨[none], 1⟩ ∧
    (threeKinds.faultMissing 0 0x600000 true false).2.entry 0 0x600 =
      some ⟨1, mmVmaPteFlags (vmaShared ||| vmaR ||| vmaW)⟩ ∧
    (threeKinds.faultMissing 0 0x600000 true false).2.shmem 0 = some ⟨[some 1], 1⟩ := by
  decide +kernel

/-- Anonymous memory is the same either way. -/
theorem threeKinds_anonymous : SamePage (threeKinds.userBufPrefault 0 0x400000 8)
      (threeKinds.faultMissing 0 0x400000 true false).2 0 0x400 :=
  (@prefault_agrees_iff {0} threeKinds 0 0x400000 8 0x400000 _
    ⟨0x400000, 0x401000, vmaR ||| vmaW ||| vmaAnon, none, 0, none, 0, 0⟩ true false
    threeKinds_owned rfl (by decide) (by decide) (by decide) (by decide) (by decide) rfl
    ⟨fun _ => by decide, fun hc => absurd hc (by decide)⟩ threeKinds_ample).mpr rfl

end World

end Makaos
