import Makaos.Mm.Fault

/-!
What the page-fault handler leaves alone while it prepares a page.

* `Holds`: who holds a frame besides the page tables.
* `Quiet`: the frames in use keep their bytes and their holders.
* `readAhead_quiet`, `cleanPage_spec`: the pages of files.
-/

namespace Makaos

open PhysMem List Nat Function
variable {f n k : ℕ}

namespace World

variable {w w' w₁ w₂ : World}

/-! ### Holders of a frame -/

/-- A holder of a frame other than a page table: the cache, for a page of a file, or an object. -/
inductive Holder where
  | cache (ino idx : ℕ)
  | object (o idx : ℕ)

/-- The holder has the frame. -/
def Holds (w : World) (f : ℕ) : Holder → Prop
  | .cache ino idx => ∃ e ∈ w.cache, e.ino = ino ∧ e.pgIdx = idx ∧ e.frame = f
  | .object o idx => ∃ s, w.shmem o = some s ∧ s.pages[idx]? = some (some f)

/-- No frame that is held is free. -/
def Taken (w : World) : Prop := ∀ f h, w.Holds f h → f ∉ w.mem.free

/-! ### Memory that is plenty -/

/-- The coming `n` calls succeed. -/
def Plenty (n : ℕ) (ks : Outcomes) : Prop := n ≤ ks.length ∧ ∀ ok ∈ ks, ok = true

lemma Plenty.next {ks : Outcomes} (h : Plenty (n + 1) ks) :
    ks.next = (true, ks.tail) ∧ Plenty n ks.tail := by
  cases ks with
  | nil => exact absurd h.1 (by simp)
  | cons ok ks =>
    obtain rfl : ok = true := h.2 ok mem_cons_self
    exact ⟨rfl, le_of_succ_le_succ h.1, fun b hb => h.2 b (mem_cons_of_mem _ hb)⟩

/-- The coming `n` allocations of a frame succeed. -/
structure Ready (n : ℕ) (m : PhysMem) : Prop where
  nodup : m.picks.Nodup
  free : ∀ f ∈ m.picks, f ∈ m.free
  length : n ≤ m.picks.length

lemma Ready.alloc (h : Ready (n + 1) w.mem) :
    ∃ f ∈ w.mem.free, w.alloc = (some f, w.taking f) ∧ Ready n (w.taking f).mem := by
  rw [World.alloc, PhysMem.alloc]
  cases hp : w.mem.picks with
  | nil => exact absurd h.length (by simp [hp])
  | cons f picks =>
    have hf := h.free f (by rw [hp]; exact mem_cons_self)
    have hnd := h.nodup
    have hlen := h.length
    rw [hp, nodup_cons] at hnd
    rw [hp, length_cons] at hlen
    have hpicks : (w.taking f).mem.picks = picks := by simp only [taking, hp, tail_cons]
    refine ⟨f, hf, by simp only [if_pos hf, taking, hp, tail_cons], ?_⟩
    refine ⟨by rw [hpicks]; exact hnd.2, fun g hg => ?_, by rw [hpicks]; omega⟩
    rw [hpicks] at hg
    exact Finset.mem_erase.mpr ⟨fun heq => hnd.1 (heq ▸ hg),
      h.free g (by rw [hp]; exact mem_cons_of_mem _ hg)⟩

lemma Ready.mono {m m' : PhysMem} (h : Ready n m) (hk : k ≤ n) (hp : m'.picks = m.picks)
    (hfree : ∀ f ∈ m.picks, f ∈ m.free → f ∈ m'.free) : Ready k m' :=
  ⟨by rw [hp]; exact h.nodup, fun f hf => by
    rw [hp] at hf
    exact hfree f hf (h.free f hf), by rw [hp]; exact hk.trans h.length⟩

/-! ### What is in use stays -/

/-- **Nothing that is in use changes**: the frames that were not free keep their bytes and their
holders, and no other frame becomes free. -/
structure Quiet (w w' : World) : Prop where
  spaces : w'.spaces = w.spaces
  shmems : w'.shmems = w.shmems
  files : w'.files = w.files
  tables : w'.tables = w.tables
  free : w'.mem.free ⊆ w.mem.free
  bytes : ∀ f ∉ w.mem.free, w'.mem.bytes f = w.mem.bytes f
  holds : ∀ f ∉ w.mem.free, ∀ h, w'.Holds f h ↔ w.Holds f h

lemma holds_congr (f : ℕ) (h : Holder) (hc : w'.cache = w.cache := by rfl)
    (hs : w'.shmems = w.shmems := by rfl) : w'.Holds f h ↔ w.Holds f h := by
  cases h with
  | cache ino idx => simp only [Holds, hc]
  | object o idx => simp only [Holds, shmem, hs]

namespace Quiet

lemma refl (w : World) : Quiet w w :=
  ⟨rfl, rfl, rfl, rfl, fun _ hf => hf, fun _ _ => rfl, fun _ _ _ => Iff.rfl⟩

lemma trans (h1 : Quiet w w₁) (h2 : Quiet w₁ w₂) : Quiet w w₂ where
  spaces := h2.spaces.trans h1.spaces
  shmems := h2.shmems.trans h1.shmems
  files := h2.files.trans h1.files
  tables := h2.tables.trans h1.tables
  free := h2.free.trans h1.free
  bytes f hf := (h2.bytes f fun hf' => hf (h1.free hf')).trans (h1.bytes f hf)
  holds f hf h := (h2.holds f (fun hf' => hf (h1.free hf')) h).trans (h1.holds f hf h)

section

variable (h : Quiet w w₁)
include h

section

variable (hf : f ∈ w.mem.free)
include hf

/-- An operation on memory that writes to one frame at most, which was free at the start, and frees
no other one. -/
lemma onMem {g : PhysMem → PhysMem} (hbytes : ∀ f' ≠ f, (g w₁.mem).bytes f' = w₁.mem.bytes f')
    (hfree : ∀ f' ∈ (g w₁.mem).free, f' ∈ w₁.mem.free ∨ f' = f) : Quiet w (w₁.onMem g) where
  __ := h
  free f' hf' := by
    rcases hfree f' hf' with hf' | rfl
    · exact h.free hf'
    · exact hf
  bytes f' hf' := (hbytes f' fun heq => hf' (heq ▸ hf)).trans (h.bytes f' hf')
  holds f' hf' h' := (holds_congr f' h').trans (h.holds f' hf' h')

lemma zeroFrame : Quiet w (w₁.onMem (·.zeroFrame f)) :=
  h.onMem hf (fun _ hne => update_of_ne hne _ _) fun _ hf' => .inl hf'

lemma readInto (n : ℕ) (data : ℕ → UInt8) : Quiet w (w₁.onMem (·.readInto f n data)) :=
  h.onMem hf (fun _ hne => update_of_ne hne _ _) fun _ hf' => .inl hf'

lemma refDec : Quiet w (w₁.refDec f) := by
  obtain ⟨-, hb, -, hfree⟩ := refDec_spec w₁.mem f
  exact h.onMem hf (fun _ _ => congrFun hb _) fun g hg => (hfree g hg).imp_right And.left

end

end

end Quiet

lemma holds_touch (ino idx f : ℕ) (h : Holder) : (w.touch ino idx).Holds f h ↔ w.Holds f h := by
  cases h with
  | object o k => exact Iff.rfl
  | cache n k =>
    simp only [Holds, touch, mem_map]
    constructor
    · rintro ⟨_, ⟨e, he, rfl⟩, hk⟩
      refine ⟨e, he, ?_⟩
      split at hk <;> exact hk
    · rintro ⟨e, he, hk⟩
      refine ⟨_, ⟨e, he, rfl⟩, ?_⟩
      split <;> exact hk

/-- `pcache_get`: on a hit the frame of the entry, and nothing in use changes. -/
lemma pcacheGet_cases (w : World) (ino idx : ℕ) :
    (w.pcacheGet ino idx = (none, w) ∧ (ino ≠ 0 → w.cacheFind ino idx = none)) ∨
      ∃ e, ino ≠ 0 ∧ w.cacheFind ino idx = some e ∧
        w.pcacheGet ino idx = (some e.frame, (w.touch ino idx).refInc e.frame) := by
  rw [pcacheGet]
  split_ifs with h0
  · exact .inl ⟨rfl, fun hne => absurd h0 hne⟩
  · cases hf : w.cacheFind ino idx with
    | none => exact .inl ⟨rfl, fun _ => rfl⟩
    | some e => exact .inr ⟨e, h0, rfl, rfl⟩

lemma quiet_hit (w : World) (ino idx f : ℕ) : Quiet w ((w.touch ino idx).refInc f) where
  spaces := rfl
  shmems := rfl
  files := rfl
  tables := rfl
  free := by rw [refInc, onMem, (refInc_spec _ f).2.1]; exact fun _ hf => hf
  bytes g _ := by rw [refInc, onMem, (refInc_spec _ f).1]; rfl
  holds g _ h := (holds_congr g h).trans (holds_touch ino idx g h)

lemma quiet_taking (w : World) (f : ℕ) : Quiet w (w.taking f) :=
  ⟨rfl, rfl, rfl, rfl, Finset.erase_subset _ _, fun _ _ => rfl, fun g _ h => holds_congr g h⟩

lemma quiet_picks (w : World) :
    Quiet w { w with mem := { w.mem with picks := w.mem.picks.tail } } :=
  ⟨rfl, rfl, rfl, rfl, fun _ hf => hf, fun _ _ => rfl, fun g _ h => holds_congr g h⟩

/-! ### Pages of files -/

/-- What a new frame for a page of a file is filled with; `none` if the read gives nothing. -/
def fillBytes (file : File) (fileOff fileLen pgOff : ℕ) : Option (ℕ → UInt8) :=
  if pgOff < fileLen then
    let off := wrap (fileOff + pgOff)
    let n := min (fillLen fileLen pgOff) (file.size - off)
    if n = 0 then none else some fun j => if j < n then file.data (off + j) else 0
  else some fun _ => 0

/-- **`pread` into a new frame** leaves everything else. -/
lemma fillFrame_spec {file : File} {fileOff fileLen pgOff : ℕ} {ok : Bool} (hf : f ∈ w.mem.free)
    (hr : (w.taking f).fillFrame file fileOff fileLen pgOff f = (ok, w₁)) : Quiet w w₁ ∧
      w₁.cache = w.cache ∧ w₁.kmalloc = w.kmalloc ∧ w₁.mem.free = (w.taking f).mem.free ∧
      w₁.mem.picks = (w.taking f).mem.picks ∧
      (ok = true → fillBytes file fileOff fileLen pgOff = some (w₁.mem.bytes f)) ∧
      ∀ n, Plenty (n + 1) w.reads →
        Plenty n w₁.reads ∧ ok = (fillBytes file fileOff fileLen pgOff).isSome := by
  have hz := (quiet_taking w f).zeroFrame hf
  have hzero := (w.taking f).mem.zeroFrame_self f
  rw [fillFrame] at hr
  rw [fillBytes]
  dsimp only at hr ⊢
  by_cases hlt : pgOff < fileLen
  · rw [if_pos hlt] at hr ⊢
    rw [show ((w.taking f).onMem (·.zeroFrame f)).reads = w.reads from rfl] at hr
    cases hnext : w.reads.next with
    | mk yes rs =>
      rw [hnext] at hr
      cases yes with
      | false =>
        cases hr
        refine ⟨{ hz with }, rfl, rfl, rfl, rfl, by simp, fun n hp => ?_⟩
        rw [hp.next.1] at hnext
        cases hnext
      | true =>
        have hz' : Quiet w { (w.taking f).onMem (·.zeroFrame f) with reads := rs } := { hz with }
        have hrs : ∀ n, Plenty (n + 1) w.reads → Plenty n rs := by
          intro n hp
          rw [hp.next.1] at hnext
          exact (Prod.mk.inj hnext).2 ▸ hp.next.2
        dsimp only at hr
        split_ifs at hr ⊢ with hn
        · cases hr
          exact ⟨hz', rfl, rfl, rfl, rfl, by simp, fun n hp => ⟨hrs n hp, rfl⟩⟩
        · cases hr
          refine ⟨hz'.readInto hf _ _, rfl, rfl, rfl, rfl, fun _ => ?_, fun n hp => ⟨hrs n hp, rfl⟩⟩
          refine congrArg some (Eq.trans ?_ (readInto_self _ f _ _).symm)
          funext j
          exact congrArg (ite _ _) (congrFun hzero j).symm
  · rw [if_neg hlt] at hr ⊢
    cases hr
    refine ⟨hz, rfl, rfl, rfl, rfl, fun _ => congrArg some hzero.symm, fun n hp => ⟨?_, rfl⟩⟩
    exact ⟨(le_succ n).trans hp.1, hp.2⟩

/-- `pcache_insert` of a page that is not cached: the frame of the caller, now held by the cache, or
nothing. -/
lemma pcacheInsert_cases (w : World) {ino idx : ℕ} (f : ℕ)
    (hnone : ino ≠ 0 → w.cacheFind ino idx = none) :
    (∃ ks, (ino = 0 ∨ w.kmalloc.next.1 = false) ∧
        w.pcacheInsert ino idx f = (none, { w with kmalloc := ks })) ∨
      ∃ ks, ino ≠ 0 ∧ w.pcacheInsert ino idx f =
        (some f, { w.refInc f with kmalloc := ks, cache := w.cache ++ [⟨ino, idx, f, true⟩] }) := by
  rw [pcacheInsert]
  split_ifs with h0
  · exact .inl ⟨w.kmalloc, .inl h0, rfl⟩
  · cases hk : w.kmalloc.next with
    | mk ok ks =>
      cases ok with
      | false => exact .inl ⟨ks, .inr rfl, rfl⟩
      | true =>
        right
        refine ⟨ks, h0, ?_⟩
        have hn : ({ w with kmalloc := ks } : World).cacheFind ino idx = none := hnone h0
        dsimp only
        rw [hn]
        rfl

/-- The cache takes a frame that was free at the start. -/
lemma Quiet.cacheAdd (h : Quiet w w₁) (hf : f ∈ w.mem.free) (ino idx : ℕ) (ks : Outcomes) :
    Quiet w { w₁.refInc f with kmalloc := ks, cache := w₁.cache ++ [⟨ino, idx, f, true⟩] } where
  __ := h
  free := by
    show (w₁.mem.refInc f).free ⊆ _
    rw [(refInc_spec _ f).2.1]
    exact h.free
  bytes g hg := by
    show (w₁.mem.refInc f).bytes g = _
    rw [(refInc_spec _ f).1]
    exact h.bytes g hg
  holds g hg h' := by
    refine Iff.trans ?_ (h.holds g hg h')
    cases h' with
    | object o k => exact Iff.rfl
    | cache n k =>
      simp only [Holds, mem_append, mem_singleton, or_and_right, exists_or]
      refine or_iff_left ?_
      rintro ⟨_, rfl, _, _, hgf⟩
      exact hg (hgf ▸ hf)

/-- What the reading of a page that is not cached into a new frame ends with: no memory, a read that
fails, a page the cache does not take, or one that it takes. -/
inductive Fetched (w : World) (file : File) (fileOff fileLen pgOff idx : ℕ) :
    Option ℕ → World → Prop
  | noMem : w.alloc.1 = none → Fetched w file fileOff fileLen pgOff idx none w.alloc.2
  | failed {f : ℕ} {w₁ : World} : f ∈ w.mem.free → w.alloc = (some f, w.taking f) →
      (w.taking f).fillFrame file fileOff fileLen pgOff f = (false, w₁) →
      Fetched w file fileOff fileLen pgOff idx none (w₁.refDec f)
  | kept {f : ℕ} {w₁ : World} {ks : Outcomes} : f ∈ w.mem.free → w.alloc = (some f, w.taking f) →
      (w.taking f).fillFrame file fileOff fileLen pgOff f = (true, w₁) →
      (file.ino = 0 ∨ w₁.kmalloc.next.1 = false) →
      Fetched w file fileOff fileLen pgOff idx (some f) { w₁ with kmalloc := ks }
  | cached {f : ℕ} {w₁ : World} {ks : Outcomes} : f ∈ w.mem.free → w.alloc = (some f, w.taking f) →
      (w.taking f).fillFrame file fileOff fileLen pgOff f = (true, w₁) → file.ino ≠ 0 →
      Fetched w file fileOff fileLen pgOff idx (some f)
        { w₁.refInc f with
          kmalloc := ks
          cache := w₁.cache ++ [⟨file.ino, idx, f, true⟩] }

variable {file : File} {fileOff fileLen pgOff idx : ℕ} {o : Option ℕ}

/-- A frame that is filled goes to the cache, or the cache does not take it. -/
lemma fetched_insert (hf : f ∈ w.mem.free) (hal : w.alloc = (some f, w.taking f))
    (hmiss : file.ino ≠ 0 → w.cacheFind file.ino idx = none)
    (hfill : (w.taking f).fillFrame file fileOff fileLen pgOff f = (true, w₁)) :
    ((w₁.pcacheInsert file.ino idx f).1 = none ∨ (w₁.pcacheInsert file.ino idx f).1 = some f) ∧
      Fetched w file fileOff fileLen pgOff idx (some f) (w₁.pcacheInsert file.ino idx f).2 := by
  have hcache := (fillFrame_spec hf hfill).2.1
  have hmiss1 : file.ino ≠ 0 → w₁.cacheFind file.ino idx = none := by
    intro h0
    rw [cacheFind, show w₁.cache = w.cache from hcache]
    exact hmiss h0
  rcases w₁.pcacheInsert_cases f hmiss1 with ⟨ks, hno, hins⟩ | ⟨ks, h0, hins⟩
  · rw [hins]
    exact ⟨.inl rfl, .kept hf hal hfill hno⟩
  · rw [hins]
    exact ⟨.inr rfl, .cached hf hal hfill h0⟩

/-- **One round of read-ahead**: a hit, whose reference stays, or a page that is read and whose
reference is dropped. -/
lemma readAheadOne_cases (w : World) (file : File) (fileOff fileLen pgOff ra : ℕ) :
    (∃ e, w.cacheFind file.ino ((fileIdx fileOff pgOff + ra) % 2 ^ 32) = some e ∧
      w.readAheadOne file fileOff fileLen pgOff ra =
        (true, (w.touch file.ino ((fileIdx fileOff pgOff + ra) % 2 ^ 32)).refInc e.frame)) ∨
      ∃ o w₁, Fetched w file fileOff fileLen (pgOff + ra * pageSize)
          ((fileIdx fileOff pgOff + ra) % 2 ^ 32) o w₁ ∧
        (w.readAheadOne file fileOff fileLen pgOff ra).2 = o.elim w₁ w₁.refDec := by
  rw [readAheadOne]
  rcases w.pcacheGet_cases file.ino ((fileIdx fileOff pgOff + ra) % 2 ^ 32) with
    ⟨hget, hmiss⟩ | ⟨e, _, he, hget⟩
  · right
    rw [hget]
    dsimp only
    rcases w.alloc_cases with hal | ⟨f, hf, hal⟩
    · refine ⟨none, _, .noMem (by rw [hal]), ?_⟩
      rw [hal]
      rfl
    · rw [hal]
      dsimp only
      cases hfill : (w.taking f).fillFrame file fileOff fileLen (pgOff + ra * pageSize) f with
      | mk ok w₁ =>
        cases ok with
        | false => exact ⟨none, _, .failed hf hal hfill, rfl⟩
        | true =>
          obtain ⟨ho, hfetch⟩ := fetched_insert hf hal hmiss hfill
          refine ⟨some f, _, hfetch, ?_⟩
          dsimp only
          generalize w₁.pcacheInsert file.ino _ f = r at ho
          obtain ⟨o, w₂⟩ := r
          rcases ho with rfl | rfl <;> rfl
  · exact .inl ⟨e, he, by rw [hget]⟩

/-- **A page of a file**: a hit, or a page that is read, with read-ahead behind it if it may be
cached. -/
lemma cleanPage_cases (w : World) (file : File) (fileOff fileLen pgOff : ℕ) :
    (∃ e, file.ino ≠ 0 ∧ w.cacheFind file.ino (fileIdx fileOff pgOff) = some e ∧
      w.cleanPage file fileOff fileLen pgOff =
        (some e.frame, (w.touch file.ino (fileIdx fileOff pgOff)).refInc e.frame)) ∨
      (file.ino ≠ 0 → w.cacheFind file.ino (fileIdx fileOff pgOff) = none) ∧
        ∃ o w₁, Fetched w file fileOff fileLen pgOff (fileIdx fileOff pgOff) o w₁ ∧
          (w.cleanPage file fileOff fileLen pgOff = (o, w₁) ∨ file.ino ≠ 0 ∧
            w.cleanPage file fileOff fileLen pgOff =
              (o, readAhead file fileOff fileLen pgOff raPages 1 w₁)) := by
  rw [cleanPage]
  rcases w.pcacheGet_cases file.ino (fileIdx fileOff pgOff) with ⟨hget, hmiss⟩ | ⟨e, h0, he, hget⟩
  · refine .inr ⟨hmiss, ?_⟩
    rw [hget]
    dsimp only
    rcases w.alloc_cases with hal | ⟨f, hf, hal⟩
    · refine ⟨none, _, .noMem (by rw [hal]), .inl ?_⟩
      rw [hal]
    · rw [hal]
      dsimp only
      cases hfill : (w.taking f).fillFrame file fileOff fileLen pgOff f with
      | mk ok w₁ =>
        cases ok with
        | false => exact ⟨none, _, .failed hf hal hfill, .inl rfl⟩
        | true =>
          dsimp only
          split_ifs with h0
          · obtain ⟨ho, hfetch⟩ := fetched_insert hf hal hmiss hfill
            refine ⟨some f, _, hfetch, .inr ⟨h0, ?_⟩⟩
            generalize w₁.pcacheInsert file.ino _ f = r at ho
            obtain ⟨o, w₂⟩ := r
            rcases ho with rfl | rfl <;> rfl
          · exact ⟨some f, _, .kept hf hal hfill (.inl (by simpa using h0)), .inl rfl⟩
  · exact .inl ⟨e, h0, he, by rw [hget]⟩

namespace Fetched

section

variable (h : Fetched w file fileOff fileLen pgOff idx o w₁)
include h

lemma quiet : Quiet w w₁ ∧ ∀ f, o = some f → f ∈ w.mem.free := by
  cases h with
  | noMem hnone =>
    rcases w.alloc_cases with hal | ⟨f, _, hal⟩
    · rw [hal]
      exact ⟨quiet_picks w, by simp⟩
    · rw [hal] at hnone
      nomatch hnone
  | failed hf hal hr => exact ⟨(fillFrame_spec hf hr).1.refDec hf, by simp⟩
  | kept hf hal hr hno =>
    refine ⟨{ (fillFrame_spec hf hr).1 with }, ?_⟩
    rintro _ ⟨⟩
    exact hf
  | cached hf hal hr h0 =>
    refine ⟨(fillFrame_spec hf hr).1.cacheAdd hf _ _ _, ?_⟩
    rintro _ ⟨⟩
    exact hf

lemma bytes (ho : o = some f) :
    fillBytes file fileOff fileLen pgOff = some (w₁.mem.bytes f) ∧ f ∉ w₁.mem.free := by
  cases h with
  | noMem => nomatch ho
  | failed => nomatch ho
  | @kept g _ _ hf hal hr hno =>
    obtain rfl : g = f := Option.some.inj ho
    obtain ⟨-, -, -, hfree, -, hb, -⟩ := fillFrame_spec hf hr
    exact ⟨hb rfl, fun hmem => Finset.notMem_erase g _ (hfree ▸ hmem)⟩
  | @cached g w₂ _ hf hal hr h0 =>
    obtain rfl : g = f := Option.some.inj ho
    obtain ⟨-, -, -, hfree, -, hb, -⟩ := fillFrame_spec hf hr
    obtain ⟨hbytes, hfree', -⟩ := refInc_spec w₂.mem g
    constructor
    · show _ = some ((w₂.mem.refInc g).bytes g)
      rw [hbytes]
      exact hb rfl
    · show g ∉ (w₂.mem.refInc g).free
      rw [hfree']
      exact fun hmem => Finset.notMem_erase g _ (hfree ▸ hmem)

lemma cacheFind (hne : k ≠ idx)
    (hnone : w.cacheFind file.ino k = none) : w₁.cacheFind file.ino k = none := by
  have hsame : ∀ {w' : World}, w'.cache = w.cache → w'.cacheFind file.ino k = none := by
    intro w' hc
    rwa [World.cacheFind, hc]
  cases h with
  | noMem => exact hsame rfl
  | failed hf hal hr | kept hf hal hr hno => exact hsame (fillFrame_spec hf hr).2.1
  | cached hf hal hr h0 =>
    have hc := hsame (fillFrame_spec hf hr).2.1
    show find? _ (_ ++ _) = none
    rw [find?_append, show find? _ _ = none from hc, Option.none_or, find?_eq_none]
    intro e he
    obtain rfl := mem_singleton.mp he
    simpa using fun heq => hne heq.symm

/-- At most one allocation is used. -/
lemma ready (hn : Ready (n + 1) w.mem) : Ready n w₁.mem := by
  obtain ⟨f0, -, hal0, hn0⟩ := hn.alloc
  have hsame : ∀ {f : ℕ} {w₁ : World}, w.alloc = (some f, w.taking f) → w₁.mem.free =
      (w.taking f).mem.free → w₁.mem.picks = (w.taking f).mem.picks → Ready n w₁.mem := by
    intro f w₁ hal hfree hpicks
    obtain rfl : f0 = f := Option.some.inj (congrArg Prod.fst (hal0.symm.trans hal))
    exact hn0.mono le_rfl hpicks fun g _ hg => hfree ▸ hg
  cases h with
  | noMem hnone =>
    rw [hal0] at hnone
    nomatch hnone
  | failed hf hal hr =>
    obtain ⟨-, -, -, hfree, hpicks, -⟩ := fillFrame_spec hf hr
    obtain ⟨hp, hf⟩ := refDec_mono _ _
    exact (hsame hal hfree hpicks).mono le_rfl hp fun g _ hg => hf hg
  | kept hf hal hr hno =>
    obtain ⟨-, -, -, hfree, hpicks, -⟩ := fillFrame_spec hf hr
    exact hsame hal hfree hpicks
  | cached hf hal hr h0 =>
    obtain ⟨-, -, -, hfree, hpicks, -⟩ := fillFrame_spec hf hr
    obtain ⟨-, hf, hp⟩ := refInc_spec _ _
    exact (hsame hal hfree hpicks).mono le_rfl hp fun g _ hg => hf ▸ hg

/-- With memory and a disk that answers, the page is read, and a page of a named file is cached. -/
lemma succeeds (hn : Ready 1 w.mem)
    (hr : Plenty 1 w.reads) (hb : (fillBytes file fileOff fileLen pgOff).isSome) :
    ∃ f, o = some f ∧ (file.ino ≠ 0 → Plenty 1 w.kmalloc → w₁.Holds f (.cache file.ino idx)) := by
  obtain ⟨f0, -, hal0, -⟩ := hn.alloc
  cases h with
  | noMem hnone =>
    rw [hal0] at hnone
    nomatch hnone
  | failed hf hal hfill =>
    obtain ⟨-, -, -, -, -, -, hok⟩ := fillFrame_spec hf hfill
    have := (hok 0 hr).2
    rw [hb] at this
    nomatch this
  | kept hf hal hfill hno =>
    refine ⟨_, rfl, fun h0 hk => ?_⟩
    obtain ⟨-, -, hkm, -⟩ := fillFrame_spec hf hfill
    rcases hno with hno | hno
    · exact absurd hno h0
    · rw [hkm, hk.next.1] at hno
      nomatch hno
  | cached hf hal hfill h0 =>
    exact ⟨_, rfl, fun _ _ => ⟨_, mem_append_right _ mem_cons_self, rfl, rfl, rfl⟩⟩

end

end Fetched

/-! ### Read-ahead -/

lemma readAheadOne_quiet (w : World) (file : File) (fileOff fileLen pgOff ra : ℕ) :
    Quiet w (w.readAheadOne file fileOff fileLen pgOff ra).2 := by
  rcases w.readAheadOne_cases file fileOff fileLen pgOff ra with ⟨e, _, hr⟩ | ⟨o, w₁, hfetch, hr⟩
  · rw [hr]
    exact quiet_hit w _ _ _
  · rw [hr]
    obtain ⟨hq, hfree⟩ := hfetch.quiet
    cases o with
    | none => exact hq
    | some f => exact hq.refDec (hfree f rfl)

lemma readAhead_quiet (file : File) (fileOff fileLen pgOff n : ℕ) : ∀ (ra : ℕ) (w : World),
    Quiet w (readAhead file fileOff fileLen pgOff n ra w) := by
  induction n with
  | zero => exact fun _ w => .refl w
  | succ n ih =>
    intro ra w
    rw [readAhead]
    split
    · exact .refl w
    · have hq := w.readAheadOne_quiet file fileOff fileLen pgOff ra
      generalize w.readAheadOne file fileOff fileLen pgOff ra = r at hq
      obtain ⟨ok, w₁⟩ := r
      cases ok with
      | false => exact hq
      | true => exact hq.trans (ih (ra + 1) w₁)

lemma readAheadOne_cacheFind (w : World) (file : File) (fileOff fileLen pgOff ra : ℕ)
    (hne : k ≠ (fileIdx fileOff pgOff + ra) % 2 ^ 32) (hnone : w.cacheFind file.ino k = none) :
    (w.readAheadOne file fileOff fileLen pgOff ra).2.cacheFind file.ino k = none := by
  rcases w.readAheadOne_cases file fileOff fileLen pgOff ra with ⟨e, _, hr⟩ | ⟨o, w₁, hfetch, hr⟩
  · rw [hr]
    show find? _ (map _ _) = none
    rw [find?_eq_none]
    intro e he
    obtain ⟨e', he', rfl⟩ := mem_map.mp he
    have := find?_eq_none.mp hnone e' he'
    split <;> exact this
  · rw [hr]
    cases o <;> exact hfetch.cacheFind hne hnone

lemma readAheadOne_ready (w : World) (file : File) (fileOff fileLen pgOff ra : ℕ)
    (hn : Ready (n + 1) w.mem) : Ready n (w.readAheadOne file fileOff fileLen pgOff ra).2.mem := by
  rcases w.readAheadOne_cases file fileOff fileLen pgOff ra with ⟨e, _, hr⟩ | ⟨o, w₁, hfetch, hr⟩
  · rw [hr]
    obtain ⟨-, hf, hp⟩ := refInc_spec w.mem e.frame
    exact hn.mono (le_succ n) hp fun g _ hg => hf ▸ hg
  · rw [hr]
    have hn1 := hfetch.ready hn
    cases o with
    | none => exact hn1
    | some f =>
      obtain ⟨hp, hf⟩ := refDec_mono w₁.mem f
      exact hn1.mono le_rfl hp fun g _ hg => hf hg

lemma readAhead_ready (file : File) (fileOff fileLen pgOff n : ℕ) : ∀ (ra : ℕ) (w : World),
    Ready (k + n) w.mem → Ready k (readAhead file fileOff fileLen pgOff n ra w).mem := by
  induction n with
  | zero => exact fun _ _ h => h
  | succ n ih =>
    intro ra w hn
    rw [readAhead]
    split
    · exact hn.mono (le_add_right _ _) rfl fun _ _ => id
    · have hn1 := w.readAheadOne_ready file fileOff fileLen pgOff ra hn
      generalize w.readAheadOne file fileOff fileLen pgOff ra = r at hn1
      obtain ⟨ok, w₁⟩ := r
      cases ok with
      | false => exact hn1.mono (le_add_right _ _) rfl fun _ _ => id
      | true => exact ih (ra + 1) w₁ hn1

/-! ### Clean pages -/

/-- What a page of a file shows: the bytes of the cached frame, or what is read. -/
def pageBytes (w : World) (file : File) (fileOff fileLen pgOff : ℕ) : Option (ℕ → UInt8) :=
  match (w.pcacheGet file.ino (fileIdx fileOff pgOff)).1 with
  | some f => some (w.mem.bytes f)
  | none => fillBytes file fileOff fileLen pgOff

lemma pageBytes_hit {e : CacheEntry} (h0 : file.ino ≠ 0)
    (he : w.cacheFind file.ino (fileIdx fileOff pgOff) = some e) :
    w.pageBytes file fileOff fileLen pgOff = some (w.mem.bytes e.frame) := by
  rw [pageBytes, pcacheGet, if_neg h0, he]

lemma pageBytes_miss (h : file.ino ≠ 0 → w.cacheFind file.ino (fileIdx fileOff pgOff) = none) :
    w.pageBytes file fileOff fileLen pgOff = fillBytes file fileOff fileLen pgOff := by
  rw [pageBytes, pcacheGet]
  by_cases h0 : file.ino = 0
  · rw [if_pos h0]
  · rw [if_neg h0, h h0]

/-- **A page of a file** is found or read without touching what is in use, and shows its bytes. -/
lemma cleanPage_spec (w : World) (file : File) (fileOff fileLen pgOff : ℕ) :
    Quiet w (w.cleanPage file fileOff fileLen pgOff).2 ∧
      ∀ f, (w.cleanPage file fileOff fileLen pgOff).1 = some f →
        w.pageBytes file fileOff fileLen pgOff =
          some ((w.cleanPage file fileOff fileLen pgOff).2.mem.bytes f) := by
  rcases w.cleanPage_cases file fileOff fileLen pgOff with
    ⟨e, h0, he, hr⟩ | ⟨hmiss, o, w₁, hfetch, hr | ⟨_, hr⟩⟩
  · rw [hr, pageBytes_hit h0 he]
    refine ⟨quiet_hit w _ _ _, ?_⟩
    rintro _ ⟨⟩
    show _ = some ((w.mem.refInc e.frame).bytes e.frame)
    rw [(refInc_spec _ _).1]
  · rw [hr, pageBytes_miss hmiss]
    exact ⟨hfetch.quiet.1, fun f hf => (hfetch.bytes hf).1⟩
  · rw [hr, pageBytes_miss hmiss]
    have hq := readAhead_quiet file fileOff fileLen pgOff raPages 1 w₁
    refine ⟨hfetch.quiet.1.trans hq, fun f hf => ?_⟩
    obtain ⟨hb, hused⟩ := hfetch.bytes hf
    rw [hb, hq.bytes f hused]

end World

end Makaos
