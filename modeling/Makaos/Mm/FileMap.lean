import Makaos.Lib.Transition
import Makaos.Mm.RefCountRun

/-!
What a mapping of a file shows.

* `mappedByte`: the byte that a position of a mapping stands for.
* `CacheShows`: every cached page holds the bytes of its file.
* `PageOk`, `FileFaultOk`: the page is not cut short inside the file by the length of the mapping.
* `mapped_file_shows`: over every run of faults that meet the condition, a page that a fault maps
  shows the file.
* `short_mapping_poisons_cache`: a mapping that ends inside a page of the file.
-/

namespace Makaos

open List Option Nat Function
variable {k j : ℕ} {e : CacheEntry}

namespace World

variable {K : Set ℕ} {w w₁ : World} {held : List ℕ} {f i : ℕ} {sp : AddrSpace} {v : Vma}
  {file : File} {fileOff fileLen pgOff idx : ℕ} {o : Option ℕ} {g : ℕ → UInt8}

/-! ### The bytes of a file -/

/-- A byte of a file, zero behind its end. -/
def fileByte (file : File) (off : ℕ) : UInt8 := if off < file.size then file.data off else 0

/-- The byte that position `p` of a mapping stands for. -/
def mappedByte (file : File) (fileOff fileLen p : ℕ) : UInt8 :=
  if p < fileLen then fileByte file (fileOff + p) else 0

/-- The page lies on a page of the file, and the mapping does not cut it short inside the file. -/
structure PageOk (file : File) (fileOff fileLen pgOff : ℕ) : Prop where
  off : PageAligned fileOff
  page : PageAligned pgOff
  bound : fileOff + pgOff + pageSize ≤ 2 ^ 44
  whole : pgOff + pageSize ≤ fileLen ∨ file.size ≤ fileOff + fileLen

/-- What is read for a page is what the mapping stands for. -/
lemma fillBytes_mapped (hbound : fileOff + pgOff < 2 ^ 64)
    (h : fillBytes file fileOff fileLen pgOff = some g) (hj : j < pageSize) :
    g j = mappedByte file fileOff fileLen (pgOff + j) := by
  rw [fillBytes] at h
  split at h
  case isFalse hge =>
    cases h
    rw [mappedByte, if_neg (by omega)]
  case isTrue hlt =>
    dsimp only at h
    split at h
    · cases h
    next hn =>
      cases h
      rw [wrap_eq_of_lt hbound]
      have hfill : fillLen fileLen pgOff = min pageSize (fileLen - pgOff) := by
        rw [fillLen]
        split <;> omega
      dsimp only
      rw [hfill, mappedByte, fileByte, ← add_assoc]
      split
      next hin => rw [if_pos (by omega), if_pos (by omega)]
      next hout =>
        rcases lt_or_ge (pgOff + j) fileLen with hp | hp
        · rw [if_pos hp, if_neg (by omega)]
        · rw [if_neg (by omega)]

namespace PageOk

section

variable (h : PageOk file fileOff fileLen pgOff)
include h

lemma mapped (hj : j < pageSize) :
    mappedByte file fileOff fileLen (pgOff + j) = fileByte file (fileOff + pgOff + j) := by
  rw [mappedByte, ← add_assoc]
  split_ifs with hge
  · rfl
  · rw [fileByte, if_neg]
    have := h.whole
    omega

lemma fill (hg : fillBytes file fileOff fileLen pgOff = some g) (hj : j < pageSize) :
    g j = fileByte file (fileOff + pgOff + j) := by
  have hbound := h.bound
  rw [fillBytes_mapped (by simp only [pageSize] at hbound; omega) hg hj, h.mapped hj]

lemma idx_mul : fileIdx fileOff pgOff * pageSize = fileOff + pgOff := by
  obtain ⟨hoff, hpage, hbound, -⟩ := h
  simp only [PageAligned, fileIdx, wrap, pageSize] at *
  omega

end

lemma idx_add_mul {r : ℕ} (hoff : PageAligned pgOff)
    (h : PageOk file fileOff fileLen (pgOff + r * pageSize)) :
    (fileIdx fileOff pgOff + r) % 2 ^ 32 * pageSize = fileOff + (pgOff + r * pageSize) := by
  obtain ⟨hfile, hpage, hbound, -⟩ := h
  simp only [PageAligned, fileIdx, wrap, pageSize] at *
  omega

end PageOk

/-! ### The cache shows the files -/

/-- Files with the same number in the cache are the same. -/
def FilesAgree (w : World) : Prop :=
  ∀ k l, (w.files k).ino = (w.files l).ino → (w.files k).ino ≠ 0 →
    ∀ off, fileByte (w.files k) off = fileByte (w.files l) off

/-- Every cached page holds the bytes of its file. -/
def CacheShows (w : World) : Prop :=
  ∀ e ∈ w.cache, ∀ k, (w.files k).ino = e.ino → ∀ j < pageSize,
    w.mem.bytes e.frame j = fileByte (w.files k) (e.pgIdx * pageSize + j)

/-- What the faults keep. -/
structure FileInv (K : Set ℕ) (w : World) : Prop where
  owned : ∃ held, Owned K w held
  agree : FilesAgree w
  shows : CacheShows w

lemma FileInv.not_free (h : FileInv K w) (he : e ∈ w.cache) : e.frame ∉ w.mem.free := by
  obtain ⟨held, hown⟩ := h.owned
  exact hown.not_free (Nat.add_pos_left (owners_pos_of_cache he) _)

lemma Fetched.mem_cache (h : Fetched w file fileOff fileLen pgOff idx o w₁) (he : e ∈ w₁.cache) :
    e ∈ w.cache ∨ o = some e.frame ∧ e.ino = file.ino ∧ e.pgIdx = idx ∧ file.ino ≠ 0 := by
  cases h with
  | noMem => exact .inl he
  | failed hf hal hr | kept hf hal hr hno => exact .inl ((fillFrame_spec hf hr).2.1 ▸ he)
  | cached hf hal hr h0 =>
    rcases mem_append.mp he with he | he
    · exact .inl ((fillFrame_spec hf hr).2.1 ▸ he)
    · obtain rfl := mem_singleton.mp he
      exact .inr ⟨rfl, rfl, rfl, h0⟩

section

variable (h : FileInv K w)
include h

/-- **A page that is read** shows the file. -/
lemma FileInv.fetched (hfetch : Fetched w (w.files k) fileOff fileLen pgOff idx o w₁)
    (hok : (w.files k).ino ≠ 0 →
      PageOk (w.files k) fileOff fileLen pgOff ∧ idx * pageSize = fileOff + pgOff) :
    FileInv K w₁ := by
  obtain ⟨held, hown⟩ := h.owned
  have hq := hfetch.quiet.1
  refine ⟨⟨_, hown.fetched hfetch⟩, by rw [FilesAgree, hq.files]; exact h.agree,
    fun e he l hl j hj => ?_⟩
  rw [hq.files] at hl ⊢
  rcases hfetch.mem_cache he with hold | ⟨ho, hino, hidx, h0⟩
  · rw [hq.bytes e.frame (h.not_free hold)]
    exact h.shows e hold l hl j hj
  · obtain ⟨hpage, hplace⟩ := hok h0
    have hl' : (w.files k).ino = (w.files l).ino := (hl.trans hino).symm
    calc
      w₁.mem.bytes e.frame j = fileByte (w.files k) (fileOff + pgOff + j) :=
        hpage.fill (hfetch.bytes ho).1 hj
      _ = fileByte (w.files l) (fileOff + pgOff + j) := h.agree k l hl' h0 _
      _ = fileByte (w.files l) (e.pgIdx * pageSize + j) := by rw [hidx, hplace]

/-- Bytes, frames and files that stay keep what the cache shows. -/
lemma FileInv.congr (hown : ∃ held, Owned K w₁ held)
    (hb : ∀ e ∈ w.cache, w₁.mem.bytes e.frame = w.mem.bytes e.frame := by exact fun _ _ => rfl)
    (hc : ∀ e ∈ w₁.cache, ∃ e' ∈ w.cache, e'.ino = e.ino ∧ e'.pgIdx = e.pgIdx ∧
      e'.frame = e.frame := by exact fun e he => ⟨e, he, rfl, rfl, rfl⟩)
    (hf : w₁.files = w.files := by rfl) : FileInv K w₁ := by
  refine ⟨hown, by rw [FilesAgree, hf]; exact h.agree, fun e he k hk j hj => ?_⟩
  obtain ⟨e', he', hino, hidx, hframe⟩ := hc e he
  rw [hf] at hk ⊢
  rw [← hframe, hb e' he', ← hidx]
  exact h.shows e' he' k (hk.trans hino.symm) j hj

lemma FileInv.refDec (hown : ∃ held, Owned K (w.refDec f) held) : FileInv K (w.refDec f) :=
  h.congr hown fun e _ => congrFun (refDec_spec w.mem f).2.1 e.frame

lemma FileInv.hit {ino idx : ℕ} (he : w.cacheFind ino idx = some e) :
    FileInv K ((w.touch ino idx).refInc e.frame) := by
  obtain ⟨held, hown⟩ := h.owned
  refine h.congr ⟨_, hown.hit he⟩ (fun e' _ => ?_) fun e' he' => ?_
  · exact congrFun (PhysMem.refInc_spec w.mem e.frame).1 e'.frame
  · obtain ⟨d, hd, rfl⟩ := mem_map.mp he'
    refine ⟨d, hd, ?_⟩
    split <;> exact ⟨rfl, rfl, rfl⟩

/-! ### Read-ahead -/

lemma FileInv.readAheadOne {ra : ℕ} (hpg : PageAligned pgOff)
    (hok : (w.files k).ino ≠ 0 → PageOk (w.files k) fileOff fileLen (pgOff + ra * pageSize)) :
    FileInv K (w.readAheadOne (w.files k) fileOff fileLen pgOff ra).2 := by
  obtain ⟨held, hown⟩ := h.owned
  obtain ⟨leaked, hown', -⟩ := hown.readAheadOne (w.files k) fileOff fileLen pgOff ra
  rcases w.readAheadOne_cases (w.files k) fileOff fileLen pgOff ra with
    ⟨e, he, hr⟩ | ⟨o, w₁, hfetch, hr⟩
  · rw [hr]
    exact h.hit he
  · have h1 := h.fetched hfetch fun h0 => ⟨hok h0, (hok h0).idx_add_mul hpg⟩
    rw [hr] at hown' ⊢
    cases o with
    | none => exact h1
    | some f => exact h1.refDec ⟨_, hown'⟩

end

lemma FileInv.readAhead (hpg : PageAligned pgOff) (n : ℕ) :
    ∀ (ra : ℕ) {w : World}, FileInv K w → ∀ file, w.files k = file →
    (file.ino ≠ 0 → ∀ r, ra ≤ r → r < ra + n → pgOff + r * pageSize < fileLen →
      PageOk file fileOff fileLen (pgOff + r * pageSize)) →
    FileInv K (readAhead file fileOff fileLen pgOff n ra w) := by
  induction n with
  | zero => exact fun ra w h _ _ _ => h
  | succ n ih =>
    rintro ra w h _ rfl hok
    rw [World.readAhead]
    split_ifs with hlt
    · exact h
    · have h1 := h.readAheadOne hpg fun h0 => hok h0 ra le_rfl (by omega) (by omega)
      have hfiles := (w.readAheadOne_quiet (w.files k) fileOff fileLen pgOff ra).files
      generalize w.readAheadOne (w.files k) fileOff fileLen pgOff ra = r at h1 hfiles
      obtain ⟨ok, w₁⟩ := r
      cases ok with
      | false => exact h1
      | true =>
        refine ih (ra + 1) h1 _ (congrFun hfiles k) fun h0 r hlo hhi => ?_
        exact hok h0 r (by omega) (by omega)

/-! ### Faults -/

/-- **The condition on a page of a file**: where the file is named in the cache, the page, and the
pages that read-ahead would take, lie on pages of the file that the mapping does not cut short. -/
def FileFaultOk (w : World) (file : File) (fileOff fileLen pgOff : ℕ) : Prop :=
  fileOff + pgOff < 2 ^ 64 ∧
    (file.ino ≠ 0 → PageOk file fileOff fileLen pgOff ∧
      (w.cacheFind file.ino (fileIdx fileOff pgOff) = none → ∀ r, 1 ≤ r → r < 1 + raPages →
        pgOff + r * pageSize < fileLen → PageOk file fileOff fileLen (pgOff + r * pageSize)))

section

variable (h : FileInv K w) {page : ℕ}
include h

/-- **A page of a file** shows what the mapping stands for. -/
lemma FileInv.cleanPage (hok : FileFaultOk w (w.files k) fileOff fileLen pgOff) :
    FileInv K (w.cleanPage (w.files k) fileOff fileLen pgOff).2 ∧
      ∀ f, (w.cleanPage (w.files k) fileOff fileLen pgOff).1 = some f → ∀ j < pageSize,
        (w.cleanPage (w.files k) fileOff fileLen pgOff).2.mem.bytes f j =
          mappedByte (w.files k) fileOff fileLen (pgOff + j) := by
  obtain ⟨hbound, hnamed⟩ := hok
  have hspec := (w.cleanPage_spec (w.files k) fileOff fileLen pgOff).2
  have hbytes : ∀ g, w.pageBytes (w.files k) fileOff fileLen pgOff = some g → ∀ j < pageSize,
      g j = mappedByte (w.files k) fileOff fileLen (pgOff + j) := by
    intro g hg j hj
    rcases w.pcacheGet_cases (w.files k).ino (fileIdx fileOff pgOff) with
      ⟨-, hmiss⟩ | ⟨e, h0, he, -⟩
    · rw [pageBytes_miss hmiss] at hg
      exact fillBytes_mapped hbound hg hj
    · obtain ⟨hpage, -⟩ := hnamed h0
      have hfound := find?_some he
      simp only [decide_eq_true_eq] at hfound
      rw [pageBytes_hit h0 he] at hg
      calc
        g j = w.mem.bytes e.frame j := by rw [← some.inj hg]
        _ = fileByte (w.files k) (e.pgIdx * pageSize + j) :=
          h.shows e (cacheFind_mem he) k hfound.1.symm j hj
        _ = fileByte (w.files k) (fileOff + pgOff + j) := by rw [hfound.2, hpage.idx_mul]
        _ = mappedByte (w.files k) fileOff fileLen (pgOff + j) := (hpage.mapped hj).symm
  refine ⟨?_, fun f hf => hbytes _ (hspec f hf)⟩
  rcases w.cleanPage_cases (w.files k) fileOff fileLen pgOff with
    ⟨e, h0, he, hr⟩ | ⟨hmiss, o, w₁, hfetch, hr⟩
  · rw [hr]
    exact h.hit he
  · have h1 := h.fetched hfetch fun h0 => ⟨(hnamed h0).1, (hnamed h0).1.idx_mul⟩
    rcases hr with hr | ⟨h0, hr⟩
    · rwa [hr]
    · rw [hr]
      have hfiles : w₁.files = w.files := hfetch.quiet.1.files
      exact FileInv.readAhead (hnamed h0).1.page raPages 1 h1 _ (congrFun hfiles k)
        fun _ => (hnamed h0).2 (hmiss h0)

lemma FileInv.write (hf : f ∈ w.mem.free) (hown : ∃ held, Owned K w₁ held)
    (hfiles : w₁.files = w.files) (hc : w₁.cache = w.cache)
    (hb : ∀ g ≠ f, w₁.mem.bytes g = w.mem.bytes g) : FileInv K w₁ :=
  h.congr hown (fun e he => hb e.frame fun heq => h.not_free he (heq ▸ hf))
    (fun e he => ⟨e, hc ▸ he, rfl, rfl, rfl⟩) hfiles

lemma FileInv.noMem : FileInv K { w with mem := { w.mem with picks := w.mem.picks.tail } } := by
  obtain ⟨held, hown⟩ := h.owned
  exact h.congr ⟨held, { hown with }⟩

lemma FileInv.fileFrame (v : Vma)
    (hok : FileFaultOk w (w.files k) v.fileOff v.fileLen (page - v.start)) :
    FileInv K (w.fileFrame v (w.files k) page).2 ∧
      ∀ f, (w.fileFrame v (w.files k) page).1 = some f → ∀ j < pageSize,
        (w.fileFrame v (w.files k) page).2.mem.bytes f j =
          mappedByte (w.files k) v.fileOff v.fileLen (page - v.start + j) := by
  obtain ⟨h1, hbytes⟩ := h.cleanPage hok
  obtain ⟨held, hown⟩ := h.owned
  obtain ⟨leaked, hown1, -⟩ := hown.fileFrame v (w.files k) page
  rw [World.fileFrame] at hown1 ⊢
  generalize w.cleanPage (w.files k) v.fileOff v.fileLen (page - v.start) = r at h1 hbytes hown1 ⊢
  obtain ⟨o, w₁⟩ := r
  cases o with
  | none => exact ⟨h1, by simp⟩
  | some clean =>
    dsimp only at h1 hbytes hown1 ⊢
    split
    case isFalse => exact ⟨h1, hbytes⟩
    case isTrue hw =>
      rw [if_pos hw] at hown1
      rcases w₁.alloc_cases with hal | ⟨f, hf, hal⟩
      · rw [hal] at hown1 ⊢
        exact ⟨h1.noMem.refDec ⟨_, hown1⟩, by simp⟩
      · rw [hal] at hown1 ⊢
        have hb : ∀ g, (((w₁.taking f).onMem (·.copyFrame f clean)).refDec clean).mem.bytes g =
            ((w₁.taking f).mem.copyFrame f clean).bytes g := fun g =>
          congrFun (refDec_spec _ clean).2.1 g
        refine ⟨h1.write hf ⟨_, hown1⟩ rfl rfl fun g hg => ?_, fun g hg j hj => ?_⟩
        · exact (hb g).trans (update_of_ne hg _ _)
        · obtain rfl : f = g := some.inj hg
          rw [show _ = _ from hb f, PhysMem.copyFrame_self]
          exact hbytes clean rfl j hj

lemma FileInv.resolveFrame (v : Vma) (hok : ∀ k, vmaFile? v = some k →
      FileFaultOk w (w.files k) v.fileOff v.fileLen (page - v.start)) :
    FileInv K (w.resolveFrame v page).2 ∧ ∀ k, vmaFile? v = some k →
      ∀ f, (w.resolveFrame v page).1 = some f → ∀ j < pageSize,
        (w.resolveFrame v page).2.mem.bytes f j =
          mappedByte (w.files k) v.fileOff v.fileLen (page - v.start + j) := by
  obtain ⟨held, hown⟩ := h.owned
  obtain ⟨leaked, hown1, -⟩ := hown.resolveFrame v page
  rw [World.resolveFrame] at hown1 ⊢
  cases hfile : vmaFile? v with
  | some k =>
    obtain ⟨h1, hbytes⟩ := h.fileFrame v (hok k hfile)
    refine ⟨h1, ?_⟩
    rintro _ ⟨⟩
    exact hbytes
  | none =>
    refine ⟨?_, by simp⟩
    rw [hfile] at hown1
    dsimp only at hown1 ⊢
    cases hsh : w.vmaShmem? v with
    | none =>
      rw [hsh] at hown1
      dsimp only at hown1 ⊢
      rw [World.anonFrame] at hown1 ⊢
      rcases w.alloc_cases with hal | ⟨f, hf, hal⟩
      · rw [hal]
        exact h.noMem
      · rw [hal] at hown1 ⊢
        exact h.write hf ⟨_, hown1⟩ rfl rfl fun g hg => update_of_ne hg _ _
    | some o =>
      rw [hsh] at hown1
      dsimp only at hown1 ⊢
      generalize ((page - v.start) / pageSize % 2 ^ 32 + v.shmemPgoff) % 2 ^ 32 = idx at hown1 ⊢
      rw [World.shmemGetPage] at hown1 ⊢
      cases hs : w.shmem o with
      | none => exact h
      | some s =>
        rw [hs] at hown1
        dsimp only at hown1 ⊢
        cases hp : s.pages[idx]? with
        | none => exact h
        | some p =>
          rw [hp] at hown1
          cases p with
          | some f =>
            exact h.congr ⟨_, hown1⟩ fun e _ =>
              congrFun (PhysMem.refInc_spec w.mem f).1 e.frame
          | none =>
            dsimp only at hown1 ⊢
            rcases w.alloc_cases with hal | ⟨f, hf, hal⟩
            · rw [hal]
              exact h.noMem
            · rw [hal] at hown1 ⊢
              refine h.write hf ⟨_, hown1⟩ rfl rfl fun g hg => ?_
              show (PhysMem.refInc _ f).bytes g = _
              rw [(PhysMem.refInc_spec _ f).1]
              exact update_of_ne hg _ _

end

/-- The condition on a fault: if the page belongs to a file, it meets `FileFaultOk`. -/
def FaultShowsOk (w : World) (i addr : ℕ) : Prop :=
  ∀ sp v k, w.spaces[i]? = some sp → mmVmaFind sp.mm.vmas addr = some v → vmaFile? v = some k →
    FileFaultOk w (w.files k) v.fileOff v.fileLen (alignDown addr - v.start)

/-- **A fault** keeps what the cache shows, and a page of a file that it maps shows the file. -/
lemma FileInv.faultMissing (h : FileInv K w) {i addr : ℕ} (hok : FaultShowsOk w i addr)
    (isWrite isIfetch : Bool) : FileInv K (w.faultMissing i addr isWrite isIfetch).2 ∧
      ∀ sp v k e, w.spaces[i]? = some sp → mmVmaFind sp.mm.vmas addr = some v →
        vmaFile? v = some k → w.entry i (addr / pageSize) = none →
        (w.faultMissing i addr isWrite isIfetch).2.entry i (addr / pageSize) = some e →
        ∀ j < pageSize, (w.faultMissing i addr isWrite isIfetch).2.mem.bytes e.frame j =
          mappedByte (w.files k) v.fileOff v.fileLen (alignDown addr - v.start + j) := by
  obtain ⟨held, hown⟩ := h.owned
  obtain ⟨leaked, hown1, -⟩ := hown.faultMissing i addr isWrite isIfetch
  have hmiss := w.faultMissing_missed i addr isWrite isIfetch
  generalize (w.faultMissing i addr isWrite isIfetch).2 = w' at hmiss hown1
  -- where nothing is mapped there is nothing to show
  have hnothing : w'.spaces = w.spaces → ∀ e, w.entry i (addr / pageSize) = none →
      w'.entry i (addr / pageSize) = some e → False := by
    intro hsp e hnone he
    rw [entry, hsp, ← entry, hnone] at he
    cases he
  cases hmiss with
  | refused => exact ⟨h, fun _ _ _ e _ _ _ hn he => (hnothing rfl e hn he).elim⟩
  | @noFrame sp v hs hv ho =>
    have h1 := (h.resolveFrame v fun k hk => hok sp v k hs hv hk).1
    exact ⟨h1, fun _ _ _ e _ _ _ hn he =>
      (hnothing (w.resolveFrame_spaces _ _) e hn he).elim⟩
  | @dropped sp v f ts hs hv ho =>
    have h1 := (h.resolveFrame v fun k hk => hok sp v k hs hv hk).1
    refine ⟨h1.congr ⟨_, hown1⟩ fun e _ => ?_,
      fun _ _ _ e _ _ _ hn he => (hnothing (w.resolveFrame_spaces _ _) e hn he).elim⟩
    exact congrFun (refDec_spec (w.resolveFrame v (alignDown addr)).2.mem f).2.1 e.frame
  | @mapped sp v f ts hs hv ho hnone =>
    obtain ⟨h1, hbytes⟩ := h.resolveFrame v fun k hk => hok sp v k hs hv hk
    refine ⟨h1.congr ⟨_, hown1⟩, ?_⟩
    intro sp' v' k e hs' hv' hk _ he
    cases hs.symm.trans hs'
    cases hv.symm.trans hv'
    have hs1 : (w.resolveFrame v (alignDown addr)).2.spaces[i]? = some sp := by
      rwa [resolveFrame_spaces]
    rw [@entry_setSpace { (w.resolveFrame v (alignDown addr)).2 with tables := ts } sp
      i (addr / pageSize) hs1, AList.lookup_insert] at he
    cases he
    exact hbytes k hk f ho

/-! ### Runs -/

/-- What happens while files are mapped: faults, and pages that leave the cache. -/
inductive FileOp where
  | fault (i addr : ℕ) (isWrite isIfetch : Bool)
  | evictOne

/-- What an operation does. -/
def FileOp.apply (w : World) : FileOp → World
  | .fault i addr isWrite isIfetch => (w.faultMissing i addr isWrite isIfetch).2
  | .evictOne => w.pcacheEvictOne.2

/-- The condition on a fault. -/
def FileOp.Ok (w : World) : FileOp → Prop
  | .fault i addr _ _ => FaultShowsOk w i addr
  | .evictOne => True

/-- A run. -/
abbrev fileRun : World → List FileOp → World := Transition.run FileOp.apply

/-- Every fault of a run meets its condition. -/
abbrev FileRunOk : World → List FileOp → Prop := Transition.RunMeets FileOp.apply FileOp.Ok

lemma mem_evictLoop (m : PhysMem) (n : ℕ) : ∀ (ring : List CacheEntry) {e : CacheEntry},
    e ∈ (evictLoop m n ring).1 →
    ∃ e' ∈ ring, e'.ino = e.ino ∧ e'.pgIdx = e.pgIdx ∧ e'.frame = e.frame := by
  induction n with
  | zero => exact fun ring e he => ⟨e, he, rfl, rfl, rfl⟩
  | succ n ih =>
    intro ring e he
    cases ring with
    | nil => exact absurd he (by simp [evictLoop])
    | cons cand ring =>
      have hturn : ∀ {b : Bool}, e ∈ (evictLoop m n (ring ++ [{ cand with accessed := b }])).1 →
          ∃ e' ∈ cand :: ring, e'.ino = e.ino ∧ e'.pgIdx = e.pgIdx ∧ e'.frame = e.frame := by
        intro b hb
        obtain ⟨e', he', hsame⟩ := ih _ hb
        rcases mem_append.mp he' with he' | he'
        · exact ⟨e', mem_cons_of_mem _ he', hsame⟩
        · obtain rfl := mem_singleton.mp he'
          exact ⟨cand, mem_cons_self, hsame⟩
      rw [evictLoop] at he
      split at he
      · exact hturn he
      · split at he
        · exact hturn he
        · exact ⟨e, mem_cons_of_mem _ he, rfl, rfl, rfl⟩

lemma FileInv.evictOne (h : FileInv K w) : FileInv K w.pcacheEvictOne.2 := by
  obtain ⟨held, hown⟩ := h.owned
  have hown1 := hown.evictOne
  have hmem := fun e => @mem_evictLoop w.mem (max (w.cache.length * 2) 2) w.cache e
  rw [pcacheEvictOne] at hown1 ⊢
  generalize evictLoop w.mem (max (w.cache.length * 2) 2) w.cache = r at hown1 hmem ⊢
  obtain ⟨ring, victim⟩ := r
  cases victim with
  | none => exact h.congr ⟨_, hown1⟩ (fun _ _ => rfl) hmem
  | some f =>
    refine h.congr ⟨_, hown1⟩ (fun e _ => ?_) hmem
    exact congrFun (refDec_spec w.mem f).2.1 e.frame

lemma FileInv.apply (h : FileInv K w) (op : FileOp) (hok : FileOp.Ok w op) :
    FileInv K (FileOp.apply w op) := by
  cases op with
  | fault i addr isWrite isIfetch => exact (h.faultMissing hok isWrite isIfetch).1
  | evictOne => exact h.evictOne

/-- **File mappings show the file**: after every run of faults that meet the condition, whatever
mappings of whatever files they fall in, the next fault that meets it and maps a missing page of a
file maps a page that holds, at each position, the byte of the file up to the length of the mapping
and zero behind it. -/
theorem mapped_file_shows {K : Set ℕ} {w : World} (h : FileInv K w) (ops : List FileOp)
    (hok : FileRunOk w ops) {i addr : ℕ} {sp : AddrSpace} {v : Vma} {k : ℕ} {e : Pte}
    {isWrite isIfetch : Bool} (hs : (fileRun w ops).spaces[i]? = some sp)
    (hv : mmVmaFind sp.mm.vmas addr = some v) (hfile : vmaFile? v = some k)
    (hlast : FaultShowsOk (fileRun w ops) i addr)
    (hnone : (fileRun w ops).entry i (addr / pageSize) = none)
    (he : (FileOp.apply (fileRun w ops) (.fault i addr isWrite isIfetch)).entry i
      (addr / pageSize) = some e) {j : ℕ} (hj : j < pageSize) :
    (FileOp.apply (fileRun w ops) (.fault i addr isWrite isIfetch)).mem.bytes e.frame j =
      mappedByte ((fileRun w ops).files k) v.fileOff v.fileLen (alignDown addr - v.start + j) :=
  have hrun := Transition.run_invariant (fun _ op h hok => FileInv.apply h op hok) hok h
  (hrun.faultMissing hlast isWrite isIfetch).2 sp v k e hs hv hfile hnone he j hj

/-- Two mappings of a file of one page of sevens: one that ends in the middle of the page, at
`0x400000`, and one of the whole page, at `0x500000`. -/
def shortAndWhole : World where
  mem := ⟨4, Finset.Icc 1 3, [1, 2, 3], fun _ => 0, fun _ => 0, fun _ _ => 1, fun _ _ => Pte.empty⟩
  cache := []
  shmems := []
  files := fun _ => ⟨5, 0x1000, fun _ => 7⟩
  spaces := [⟨⟨[⟨0x400000, 0x401000, vmaFile ||| vmaR, none, 0, some 0, 0, 0x800⟩,
    ⟨0x500000, 0x501000, vmaFile ||| vmaR, none, 0, some 0, 0, 0x1000⟩], 0, 0, 0⟩, ∅⟩]
  kmalloc := [true]
  tables := [true, true]
  reads := [true, true]

lemma shortAndWhole_fileInv : FileInv {0} shortAndWhole := by
  have hown : ∀ f, shortAndWhole.owners f = 0 := fun _ => rfl
  refine ⟨⟨[], fun f _ _ => rfl, fun f hf => ?_, fun f hf => ?_, fun f hf hK _ _ => ?_,
    fun _ => zero_le _, fun _ => zero_le _⟩, fun _ _ _ _ _ => rfl,
    fun e he => absurd he (by simp [shortAndWhole])⟩
  · rw [hown] at hf
    nomatch hf
  · obtain ⟨hlo, hhi⟩ := Finset.mem_Icc.mp hf
    exact ⟨lt_of_le_of_lt hhi (by decide), fun hK => absurd hlo (by rw [hK]; decide), rfl⟩
  · exact Finset.mem_Icc.mpr ⟨pos_of_ne_zero hK, le_of_lt_succ hf⟩

/-- **A short mapping poisons the cache**: after a fault in it the other mapping shows zeros where
the file has sevens; in the other order it shows the file behind its own end. -/
theorem short_mapping_poisons_cache : FileInv {0} shortAndWhole ∧
    ((fileRun shortAndWhole [.fault 0 0x400000 false false, .fault 0 0x500000 false false]).entry 0
      0x500).map (fun e => (fileRun shortAndWhole [.fault 0 0x400000 false false,
        .fault 0 0x500000 false false]).mem.bytes e.frame 0x900) = some 0 ∧
    mappedByte ⟨5, 0x1000, fun _ => 7⟩ 0 0x1000 0x900 = 7 ∧
    ((fileRun shortAndWhole [.fault 0 0x500000 false false, .fault 0 0x400000 false false]).entry 0
      0x400).map (fun e => (fileRun shortAndWhole [.fault 0 0x500000 false false,
        .fault 0 0x400000 false false]).mem.bytes e.frame 0x900) = some 7 ∧
    mappedByte ⟨5, 0x1000, fun _ => 7⟩ 0 0x800 0x900 = 0 :=
  ⟨shortAndWhole_fileInv, by decide +kernel⟩

/-- The mapping of the whole page shows the file. -/
theorem whole_mapping_shows :
    ∃ e, (FileOp.apply shortAndWhole (.fault 0 0x500000 false false)).entry 0 0x500 = some e ∧
      (FileOp.apply shortAndWhole (.fault 0 0x500000 false false)).mem.bytes e.frame 0x900 = 7 := by
  have hmapped : ((FileOp.apply shortAndWhole (.fault 0 0x500000 false false)).entry 0
      0x500).isSome = true := by decide +kernel
  obtain ⟨e, he⟩ := isSome_iff_exists.1 hmapped
  refine ⟨e, he, ?_⟩
  refine (mapped_file_shows shortAndWhole_fileInv [] trivial rfl rfl rfl ?_ rfl he (by decide)).trans
    rfl
  rintro sp v k hs hv hk
  cases hs
  cases hv
  refine ⟨by decide, fun _ => ⟨⟨by decide, by decide, by decide, .inl (by decide)⟩,
    fun _ r hr _ hlt => ?_⟩⟩
  have : alignDown 0x500000 - 0x500000 + r * pageSize < 0x1000 := hlt
  simp only [alignDown, pageSize] at this
  omega

end World

end Makaos
