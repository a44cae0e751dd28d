import Makaos.Fs.Dcache

/-!
What holds in the cache at every step, and which changes keep it.

* `TableInv`, `RefInv`, `PcInv`: what holds of the cache, of the references and of the threads.
* `Inv.unlink`: **a dentry without references can be taken out**; `Inv.shrink`,
  `Inv.invalidateSubtree`: so can any number of them.
-/

namespace Makaos.Dcache

open Function Cache Sys Dcache.Pc Option Nat Bool
open List hiding drop
open HashChains

variable {ι : Type*} {c : Cache} {s : Sys ι} {d e p : ℕ} {h : Holder ι} {t : ι}
variable {n : ℕ} {dirIno : UInt32} {pc old : Pc}

/-! ### The invariant -/

/-- The chains, the LRU list and the queue. -/
structure TableInv (c : Cache) : Prop where
  cap_pos : 0 < c.table.cap
  placed : c.table.Placed c.place
  linked : ∀ d, c.Linked d → c.published d = true ∧ c.handed d = 0 ∧ c.freed d = false
  gone : ∀ d, c.published d = true → ¬ c.Linked d → c.handed d = 1
  unpublished : ∀ d, c.published d = false → c.handed d = 0
  published_lt : ∀ d, c.published d = true → d < c.next
  fresh : ∀ d, c.next ≤ d → c.freed d = false
  lru_nodup : c.lru.Nodup
  lru_linked : ∀ d ∈ c.lru, c.Linked d
  queue_nodup : c.rcuQueue.Nodup
  queue : ∀ d ∈ c.rcuQueue, c.published d = true ∧ ¬ c.Linked d ∧ c.freed d = false

/-- The counters tell the number of references, and only linked dentries have any. -/
structure RefInv (c : Cache) (refs : List (Holder ι × ℕ)) : Prop where
  count : ∀ d, c.Linked d → c.refcount d = refs.countP fun r => r.2 = d
  linked : ∀ h d, (h, d) ∈ refs → c.Linked d
  lt : ∀ d, c.refcount d < 2 ^ 32

/-- The dentry holds a reference on its parent, if it has one. -/
def Sys.KeepsParent (s : Sys ι) (d : ℕ) : Prop :=
  s.cache.Linked d ∨ d ∈ s.cache.rcuQueue ∨ ∃ t, (s.pc t).keepsParent = some d

/-- What the threads have in hand. -/
structure PcInv (s : Sys ι) : Prop where
  frees : ∀ t d, (s.pc t).frees = some d →
    s.cache.published d = true ∧ ¬ s.cache.Linked d ∧ s.cache.freed d = false ∧ d ∉ s.cache.rcuQueue
  frees_inj : ∀ t u d, (s.pc t).frees = some d → (s.pc u).frees = some d → u = t
  own : ∀ t d, (s.pc t).own = some d →
    s.cache.published d = false ∧ d < s.cache.next ∧ s.cache.freed d = false ∧
      s.cache.refcount d = 1
  own_inj : ∀ t u d, (s.pc t).own = some d → (s.pc u).own = some d → u = t
  gone : ∀ d, s.cache.published d = true → ¬ s.cache.Linked d → s.cache.freed d = false →
    s.Waiting d
  parents : ∀ d p, s.KeepsParent d → (s.cache.dentry d).parent = some p → (.child d, p) ∈ s.refs

/-- The invariant of the system. -/
structure Inv (s : Sys ι) : Prop where
  table : TableInv s.cache
  refs : RefInv s.cache s.refs
  threads : PcInv s

/-! ### Small facts -/

lemma inc_eq (hn : n + 1 < 2 ^ 32) : inc n = n + 1 := mod_eq_of_lt hn

lemma dec_succ (n : ℕ) : dec (n + 1) = n := by
  rw [dec, if_neg (Nat.succ_ne_zero n), Nat.add_sub_cancel]

lemma dec_lt (hn : n < 2 ^ 32) : dec n < 2 ^ 32 := by
  unfold dec
  split
  · norm_num
  · omega

lemma TableInv.place_lt (ht : TableInv c) (d : ℕ) : c.place d c.table.cap < c.table.cap :=
  mod_lt _ ht.cap_pos

lemma TableInv.not_linked (ht : TableInv c) (hp : c.published d = false) : ¬ c.Linked d := by
  intro hd
  exact false_ne_true (hp.symm.trans (ht.linked d hd).1)

lemma TableInv.linked_of_find (ht : TableInv c) {n : Name} (hf : c.bucketFind n = some d) :
    c.Linked d := by
  have hmem := mem_of_find?_eq_some hf
  have hplace := ht.placed.place_eq _ d hmem
  show d ∈ c.table.buckets (c.place d c.table.cap)
  rwa [hplace]

lemma RefInv.no_refs {refs : List (Holder ι × ℕ)} (hr : RefInv c refs) (hd : c.Linked d)
    (h0 : c.refcount d = 0) (h : Holder ι) : (h, d) ∉ refs := by
  intro hmem
  have hcount : refs.countP (fun r => decide (r.2 = d)) = 0 := (hr.count d hd).symm.trans h0
  exact countP_eq_zero.1 hcount (h, d) hmem (decide_eq_true rfl)

lemma TableInv.withRefcount (ht : TableInv c) (f : ℕ → ℕ) : TableInv { c with refcount := f } :=
  { ht with }

lemma update_lt {f : ℕ → ℕ} (hf : ∀ d, f d < 2 ^ 32) (hn : n < 2 ^ 32) (d e : ℕ) :
    update f d n e < 2 ^ 32 := by
  by_cases he : e = d
  · subst he
    simpa using hn
  · simpa [he] using hf e

/-! ### The lists -/

/-- Another LRU list of linked dentries; the number of live ones does not matter. -/
lemma Inv.withLru (hs : Inv s) {l : List ℕ} (n : ℕ) (hn : l.Nodup)
    (hl : ∀ d ∈ l, s.cache.Linked d) :
    Inv (s.withCache { s.cache with lru := l, liveCount := n }) := by
  exact ⟨{ hs.table with lru_nodup := hn, lru_linked := hl }, { hs.refs with }, { hs.threads with }⟩

lemma Inv.lruAppend (hs : Inv s) (hd : s.cache.Linked d) :
    Inv (s.withCache (s.cache.lruAppend d)) := by
  unfold Cache.lruAppend
  split_ifs with hnot
  · exact hs
  · refine hs.withLru _ ?_ ?_
    · exact nodup_append.2 ⟨hs.table.lru_nodup, nodup_singleton d,
        fun a ha b hb hab => hnot (mem_singleton.1 hb ▸ hab ▸ ha)⟩
    · intro e he
      rcases mem_append.1 he with he | he
      · exact hs.table.lru_linked e he
      · exact mem_singleton.1 he ▸ hd

lemma Inv.putLocked (hs : Inv s) (hd : s.cache.Linked d) :
    Inv (s.withCache (s.cache.putLocked d)) := by
  unfold Cache.putLocked
  split
  · exact hs.lruAppend hd
  · exact hs

lemma Inv.lruErase (hs : Inv s) (d : ℕ) :
    Inv (s.withCache { s.cache with lru := s.cache.lru.erase d }) :=
  hs.withLru _ (hs.table.lru_nodup.erase d)
    fun e he => hs.table.lru_linked e (mem_of_mem_erase he)

/-! ### Out of the cache -/

lemma TableInv.linked_unlink (ht : TableInv c) :
    (c.dentryUnlinkAndFreeLocked d).Linked e ↔ c.Linked e ∧ e ≠ d :=
  ht.placed.mem_unlink _

lemma TableInv.unlink (ht : TableInv c) (hd : c.Linked d) :
    TableInv (c.dentryUnlinkAndFreeLocked d) := by
  obtain ⟨hp, hh, hfr⟩ := ht.linked d hd
  have hhanded : ∀ e, e ≠ d → (c.dentryUnlinkAndFreeLocked d).handed e = c.handed e := by
    intro e he
    simp [dentryUnlinkAndFreeLocked, he]
  refine { ht with
    placed := ht.placed.unlink, linked := ?linked, gone := ?gone, unpublished := ?unpublished
    lru_nodup := ht.lru_nodup.erase d, lru_linked := ?lru_linked
    queue_nodup := ?queue_nodup, queue := ?queue }
  case linked =>
    intro e he
    obtain ⟨he, hne⟩ := ht.linked_unlink.1 he
    rw [hhanded e hne]
    exact ht.linked e he
  case gone =>
    intro e hpe hle
    by_cases hed : e = d
    · subst hed
      simp [dentryUnlinkAndFreeLocked, hh]
    · rw [hhanded e hed]
      exact ht.gone e hpe fun he => hle (ht.linked_unlink.2 ⟨he, hed⟩)
  case unpublished =>
    intro e hpe
    have hed : e ≠ d := by
      rintro rfl
      exact false_ne_true (hpe.symm.trans hp)
    rw [hhanded e hed]
    exact ht.unpublished e hpe
  case lru_linked =>
    intro e he
    obtain ⟨hne, he⟩ := ht.lru_nodup.mem_erase_iff.1 he
    exact ht.linked_unlink.2 ⟨ht.lru_linked e he, hne⟩
  case queue_nodup =>
    refine nodup_append.2 ⟨ht.queue_nodup, nodup_singleton d, ?_⟩
    intro a ha b hb hab
    rw [mem_singleton.1 hb] at hab
    exact (ht.queue a ha).2.1 (hab ▸ hd)
  case queue =>
    intro e he
    rcases mem_append.1 he with he | he
    · obtain ⟨hpe, hle, hfe⟩ := ht.queue e he
      exact ⟨hpe, fun hl => hle (ht.linked_unlink.1 hl).1, hfe⟩
    · obtain rfl := mem_singleton.1 he
      exact ⟨hp, fun hl => (ht.linked_unlink.1 hl).2 rfl, hfr⟩

/-- **A dentry without references can be taken out.** -/
lemma Inv.unlink (hs : Inv s) (hd : s.cache.Linked d) (h0 : s.cache.refcount d = 0) :
    Inv (s.withCache (s.cache.dentryUnlinkAndFreeLocked d)) := by
  have hlink : ∀ e, (s.cache.dentryUnlinkAndFreeLocked d).Linked e ↔ s.cache.Linked e ∧ e ≠ d :=
    fun e => hs.table.linked_unlink
  refine ⟨hs.table.unlink hd, ?_, ?_⟩
  · refine { hs.refs with count := fun e he => hs.refs.count e ((hlink e).1 he).1, linked := ?_ }
    intro g e hg
    refine (hlink e).2 ⟨hs.refs.linked g e hg, ?_⟩
    rintro rfl
    exact hs.refs.no_refs hd h0 g hg
  · refine { hs.threads with frees := ?frees, gone := ?gone, parents := ?parents }
    case frees =>
      intro u e hu
      obtain ⟨hp, hl, hfr, hq⟩ := hs.threads.frees u e hu
      refine ⟨hp, fun he => hl ((hlink e).1 he).1, hfr, ?_⟩
      intro hmem
      rcases mem_append.1 hmem with hmem | hmem
      · exact hq hmem
      · exact hl (mem_singleton.1 hmem ▸ hd)
    case gone =>
      intro e hp hl hfr
      by_cases hed : e = d
      · exact .inl (mem_append_right _ (mem_singleton.2 hed))
      · rcases hs.threads.gone e hp (fun he => hl ((hlink e).2 ⟨he, hed⟩)) hfr with hq | hu
        · exact .inl (mem_append_left _ hq)
        · exact .inr hu
    case parents =>
      intro e p he hp
      refine hs.threads.parents e p ?_ hp
      rcases he with he | he | he
      · exact .inl ((hlink e).1 he).1
      · rcases mem_append.1 he with he | he
        · exact .inr (.inl he)
        · exact .inl (mem_singleton.1 he ▸ hd)
      · exact .inr (.inr he)

/-- The loop of `dcache_shrink`: the dentries it looks at are on the LRU list, so they are linked. -/
lemma Inv.shrinkLoop (l : List ℕ) (max : ℕ) (hs : Inv s) (hl : s.cache.lru = l) :
    Inv (s.withCache (s.cache.shrinkLoop l max)) := by
  induction l generalizing s max with
  | nil => exact hs
  | cons d l ih =>
    cases max with
    | zero => exact hs
    | succ max =>
      have hmem : d ∈ s.cache.lru := hl ▸ mem_cons_self
      have herase : s.cache.lru.erase d = l := by rw [hl, erase_cons_head]
      rw [shrinkLoop]
      split_ifs with h0
      · exact ih (max + 1) (hs.lruErase d) herase
      · exact ih max (hs.unlink (hs.table.lru_linked d hmem) (not_not.1 h0)) herase

lemma Inv.shrink (hs : Inv s) (max : ℕ) : Inv (s.withCache (s.cache.dcacheShrink max)) :=
  hs.shrinkLoop _ max rfl

lemma Inv.invalidate (hs : Inv s) {parentIno : UInt32} {name : List UInt8}
    (h0 : ∀ d ∈ s.cache.bucketFind ⟨parentIno, dcacheNameHash name, name⟩, s.cache.refcount d = 0) :
    Inv (s.withCache (s.cache.dcacheInvalidate parentIno name)) := by
  unfold dcacheInvalidate
  split
  · exact hs
  next d hf => exact hs.unlink (hs.table.linked_of_find hf) (h0 d hf)

/-- Nothing below the directory has a reference. -/
def Cache.Unheld (c : Cache) (dirIno : UInt32) : Prop :=
  ∀ d, c.Linked d → (c.dentry d).parentIno = dirIno → c.refcount d = 0

lemma Inv.invalidateChain (l : List ℕ) (hs : Inv s) (hl : l.Nodup)
    (hlinked : ∀ d ∈ l, s.cache.Linked d) (h0 : s.cache.Unheld dirIno) :
    Inv (s.withCache (s.cache.invalidateChain dirIno l)) ∧
      (s.cache.invalidateChain dirIno l).Unheld dirIno := by
  induction l generalizing s with
  | nil => exact ⟨hs, h0⟩
  | cons d l ih =>
    obtain ⟨hdl, hl⟩ := nodup_cons.1 hl
    have hd := hlinked d mem_cons_self
    have hrest : ∀ e ∈ l, s.cache.Linked e := fun e he => hlinked e (mem_cons_of_mem _ he)
    simp only [invalidateChain, foldl_cons]
    split_ifs with hdir
    · have hlink : ∀ e, (s.cache.dentryUnlinkAndFreeLocked d).Linked e ↔
          s.cache.Linked e ∧ e ≠ d := fun e => hs.table.linked_unlink
      refine ih (hs.unlink hd (h0 d hd hdir)) hl ?_ ?_
      · intro e he
        refine (hlink e).2 ⟨hrest e he, ?_⟩
        rintro rfl
        exact hdl he
      · exact fun e he => h0 e ((hlink e).1 he).1
    · exact ih hs hl hrest h0

lemma Inv.invalidateChains (l : List ℕ) (hs : Inv s) (h0 : s.cache.Unheld dirIno) :
    Inv (s.withCache (l.foldl (fun c i => c.invalidateChain dirIno (c.table.buckets i)) s.cache)) := by
  induction l generalizing s with
  | nil => exact hs
  | cons b l ih =>
    have hlinked : ∀ d ∈ s.cache.table.buckets b, s.cache.Linked d := by
      intro d hd
      show d ∈ s.cache.table.buckets (s.cache.place d s.cache.table.cap)
      rwa [hs.table.placed.place_eq b d hd]
    obtain ⟨hs', h0'⟩ := hs.invalidateChain _ (hs.table.placed.nodup b) hlinked h0
    exact ih hs' h0'

lemma Inv.invalidateSubtree (hs : Inv s)
    (h0 : ∀ d ∈ s.cache.table.elems, (s.cache.dentry d).parentIno = dirIno → s.cache.refcount d = 0) :
    Inv (s.withCache (s.cache.dcacheInvalidateSubtree dirIno)) :=
  hs.invalidateChains _ fun d hd =>
    h0 d ((hs.table.placed.mem_elems hs.table.place_lt).2 hd)

/-! ### References -/

lemma countP_cons_ref (refs : List (Holder ι × ℕ)) :
    ((h, d) :: refs).countP (fun r => decide (r.2 = e)) =
      refs.countP (fun r => decide (r.2 = e)) + if e = d then 1 else 0 := by
  rw [countP_cons]
  by_cases hed : e = d
  · simp [hed]
  · simp [hed, Ne.symm hed]

/-- A dentry that a thread owns alone is not linked, so its counter stays. -/
lemma Inv.own_update (hs : Inv s) (hd : s.cache.Linked d) (t : ι) (e : ℕ)
    (ht : (s.pc t).own = some e) : s.cache.published e = false ∧ e < s.cache.next ∧
      s.cache.freed e = false ∧ update s.cache.refcount d n e = 1 := by
  obtain ⟨hp, hlt, hfr, hc⟩ := hs.threads.own t e ht
  have hne : e ≠ d := by
    rintro rfl
    exact hs.table.not_linked hp hd
  exact ⟨hp, hlt, hfr, by rwa [update_of_ne hne]⟩

lemma Inv.take (hs : Inv s) (hd : s.cache.CanTake d) : Inv (s.take h d) := by
  refine ⟨hs.table.withRefcount _, ?_, ?_⟩
  · constructor
    case count =>
      intro e he
      have hcount := hs.refs.count e he
      rw [Sys.take, countP_cons_ref]
      by_cases hed : e = d
      · subst hed
        simp only [addRef, update_self, if_true]
        rw [inc_eq hd.2, hcount]
      · simpa [addRef, hed] using hcount
    case linked =>
      intro g e hg
      rcases mem_cons.1 hg with heq | hg
      · cases heq
        exact hd.1
      · exact hs.refs.linked g e hg
    case lt => exact update_lt hs.refs.lt (mod_lt _ (by norm_num)) d
  · exact { hs.threads with
      own := hs.own_update hd.1
      parents := fun c p hc hp => mem_cons_of_mem _ (hs.threads.parents c p hc hp) }

/-! ### A new dentry -/

lemma Pc.own_or_frees (hk : pc.keepsParent = some d) : pc.own = some d ∨ pc.frees = some d := by
  cases pc <;> simp_all [keepsParent, own, frees]

lemma Inv.keeps_lt (hs : Inv s) (hk : s.KeepsParent d) : d < s.cache.next := by
  rcases hk with hd | hd | ⟨t, ht⟩
  · exact hs.table.published_lt d (hs.table.linked d hd).1
  · exact hs.table.published_lt d (hs.table.queue d hd).1
  · rcases own_or_frees ht with ho | hf
    · exact (hs.threads.own t d ho).2.1
    · exact hs.table.published_lt d (hs.threads.frees t d hf).1

lemma TableInv.linked_lt (ht : TableInv c) (hd : c.Linked d) : d < c.next :=
  ht.published_lt d (ht.linked d hd).1

lemma TableInv.mem_lt (ht : TableInv c) {b : ℕ} (hd : d ∈ c.table.buckets b) : d < c.next := by
  refine ht.linked_lt (?_ : d ∈ c.table.buckets (c.place d c.table.cap))
  rwa [ht.placed.place_eq b d hd]

lemma place_dentryAlloc (x : Dentry) (cap : ℕ) (he : e < c.next) :
    (c.dentryAlloc x).place e cap = c.place e cap := by
  simp [place, dentryAlloc, he.ne]

lemma TableInv.linked_dentryAlloc (ht : TableInv c) (x : Dentry) :
    (c.dentryAlloc x).Linked e ↔ c.Linked e := by
  constructor
  · intro he
    have hlt : e < c.next := ht.mem_lt he
    have hplace := place_dentryAlloc (c := c) x c.table.cap hlt
    exact (congrArg (fun b => e ∈ c.table.buckets b) hplace).mp he
  · intro he
    have hplace := place_dentryAlloc (c := c) x c.table.cap (ht.linked_lt he)
    exact (congrArg (fun b => e ∈ c.table.buckets b) hplace).mpr he

lemma TableInv.dentryAlloc (ht : TableInv c) (x : Dentry) : TableInv (c.dentryAlloc x) := by
  have hlink : ∀ e, (c.dentryAlloc x).Linked e ↔ c.Linked e := fun e => ht.linked_dentryAlloc x
  refine { ht with
    placed := ht.placed.congr fun b a ha => place_dentryAlloc x _ (ht.mem_lt ha)
    linked := fun e he => ht.linked e ((hlink e).1 he)
    gone := fun e hp hl => ht.gone e hp fun he => hl ((hlink e).2 he)
    published_lt := fun e hp => (ht.published_lt e hp).trans (lt_succ_self _)
    fresh := fun e he => ht.fresh e ((le_succ _).trans he)
    lru_linked := fun e he => (hlink e).2 (ht.lru_linked e he)
    queue := fun e he => ?_ }
  obtain ⟨hp, hl, hfr⟩ := ht.queue e he
  exact ⟨hp, fun hle => hl ((hlink e).1 hle), hfr⟩

lemma Inv.dentryAlloc (hs : Inv s) (x : Dentry) : Inv (s.withCache (s.cache.dentryAlloc x)) := by
  have hlink : ∀ e, (s.cache.dentryAlloc x).Linked e ↔ s.cache.Linked e :=
    fun e => hs.table.linked_dentryAlloc x
  have hcount : ∀ e, e < s.cache.next →
      (s.cache.dentryAlloc x).refcount e = s.cache.refcount e := by
    intro e he
    simp [Cache.dentryAlloc, he.ne]
  refine ⟨hs.table.dentryAlloc x, ?_, ?_⟩
  · constructor
    case count =>
      intro e he
      have he := (hlink e).1 he
      exact (hcount e (hs.table.linked_lt he)).trans (hs.refs.count e he)
    case linked => exact fun g e hg => (hlink e).2 (hs.refs.linked g e hg)
    case lt => exact update_lt hs.refs.lt (by norm_num) _
  · refine { hs.threads with
      frees := ?frees, own := ?own, parents := ?parents
      gone := fun e hp hl hfr => hs.threads.gone e hp (fun he => hl ((hlink e).2 he)) hfr }
    case frees =>
      intro u e hu
      obtain ⟨hp, hl, hfr, hq⟩ := hs.threads.frees u e hu
      exact ⟨hp, fun he => hl ((hlink e).1 he), hfr, hq⟩
    case own =>
      intro u e hu
      obtain ⟨hp, hlt, hfr, hc⟩ := hs.threads.own u e hu
      exact ⟨hp, hlt.trans (lt_succ_self _), hfr, (hcount e hlt).trans hc⟩
    case parents =>
      intro e p he hp
      have hk : s.KeepsParent e := he.imp_left (hlink e).1
      have hne : e ≠ s.cache.next := (hs.keeps_lt hk).ne
      refine hs.threads.parents e p hk ?_
      simpa [Sys.withCache, Cache.dentryAlloc, hne] using hp

/-! ### Into the cache -/

lemma Inv.withTable (hs : Inv s) {tb : Table ℕ} (hcap : 0 < tb.cap) (hp : tb.Placed s.cache.place)
    (hl : ∀ e, tb.Linked s.cache.place e ↔ s.cache.Linked e) :
    Inv (s.withCache { s.cache with table := tb }) := by
  obtain ⟨ht, hr, hpc⟩ := hs
  constructor
  case table =>
    exact { ht with
      cap_pos := hcap, placed := hp
      linked := fun d hd => ht.linked d ((hl d).1 hd)
      gone := fun d hpd hd => ht.gone d hpd fun h => hd ((hl d).2 h)
      lru_linked := fun d hd => (hl d).2 (ht.lru_linked d hd)
      queue := fun d hd => (ht.queue d hd).imp_right (.imp_left fun hn h => hn ((hl d).1 h)) }
  case refs =>
    exact ⟨fun d hd => hr.count d ((hl d).1 hd), fun h d hd => (hl d).2 (hr.linked h d hd), hr.lt⟩
  case threads =>
    exact { hpc with
      frees := fun u d hu => (hpc.frees u d hu).imp_right (.imp_left fun hn h => hn ((hl d).1 h))
      gone := fun d hpd hd hfr => hpc.gone d hpd (fun h => hd ((hl d).2 h)) hfr
      parents := fun d p hk hpar => hpc.parents d p (hk.imp_left (hl d).1) hpar }

lemma Inv.grow (hs : Inv s) (ok : Bool) : Inv (s.withCache (s.cache.dcacheGrowLocked ok)) := by
  unfold dcacheGrowLocked
  split
  · obtain ⟨hp, hcap, hl⟩ :=
      hs.table.placed.rehash hs.table.place_lt (s.cache.table.cap * 2)
    refine hs.withTable ?_ hp hl
    rw [hcap]
    exact mul_pos hs.table.cap_pos two_pos
  · exact hs

/-- The insertion at the head of the chain. -/
def Sys.link (s : Sys ι) (t : ι) (d : ℕ) : Sys ι :=
  { s with
    cache := { s.cache with
      table := s.cache.table.push s.cache.place d
      liveCount := inc s.cache.liveCount
      published := update s.cache.published d true }
    refs := (.caller t, d) :: s.refs }

lemma linked_link : (s.link t d).cache.Linked e ↔ e = d ∨ s.cache.Linked e := Table.linked_push

lemma published_link (he : e ≠ d) :
    (s.link t d).cache.published e = s.cache.published e := by simp [link, he]

/-- A dentry that was never in the cache and belongs to nobody else is linked. -/
lemma Inv.link (hs : Inv s) (hpub : s.cache.published d = false) (hlt : d < s.cache.next)
    (hfr : s.cache.freed d = false) (hone : s.cache.refcount d = 1)
    (hnone : ∀ u, (s.pc u).own ≠ some d)
    (hparent : ∀ p, (s.cache.dentry d).parent = some p → (.child d, p) ∈ s.refs) :
    Inv (s.link t d) := by
  have hnot : ¬ s.cache.Linked d := hs.table.not_linked hpub
  have hpubd : (s.link t d).cache.published d = true := by simp [Sys.link]
  -- a dentry that was published before is another one
  have hne : ∀ e, s.cache.published e = true → e ≠ d := by
    rintro e he rfl
    exact false_ne_true (hpub.symm.trans he)
  have hpub' : ∀ e, s.cache.published e = true → (s.link t d).cache.published e = true :=
    fun e he => (published_link (hne e he)).trans he
  have hgone : ∀ e, (s.link t d).cache.published e = true → ¬ (s.link t d).cache.Linked e →
      s.cache.published e = true ∧ ¬ s.cache.Linked e := by
    intro e hp hl
    have hed : e ≠ d := fun hed => hl (linked_link.2 (.inl hed))
    exact ⟨(published_link hed).symm.trans hp, fun he => hl (linked_link.2 (.inr he))⟩
  have hstay : ∀ e, s.cache.published e = true → ¬ s.cache.Linked e →
      ¬ (s.link t d).cache.Linked e := by
    intro e hp hl he
    rcases linked_link.1 he with hed | he
    · exact hne e hp hed
    · exact hl he
  constructor
  case table =>
    refine { hs.table with
      placed := hs.table.placed.push hnot, linked := ?linked
      gone := fun e hp hl => hs.table.gone e (hgone e hp hl).1 (hgone e hp hl).2
      unpublished := ?unpublished, published_lt := ?published_lt
      lru_linked := fun e he => linked_link.2 (.inr (hs.table.lru_linked e he)), queue := ?queue }
    case linked =>
      intro e he
      rcases linked_link.1 he with rfl | he
      · exact ⟨hpubd, hs.table.unpublished e hpub, hfr⟩
      · obtain ⟨hp, hrest⟩ := hs.table.linked e he
        exact ⟨hpub' e hp, hrest⟩
    case unpublished =>
      intro e hp
      have hed : e ≠ d := by
        rintro rfl
        exact false_ne_true (hp.symm.trans hpubd)
      exact hs.table.unpublished e ((published_link hed).symm.trans hp)
    case published_lt =>
      intro e hp
      by_cases hed : e = d
      · exact hed ▸ hlt
      · exact hs.table.published_lt e ((published_link hed).symm.trans hp)
    case queue =>
      intro e he
      obtain ⟨hp, hl, hf⟩ := hs.table.queue e he
      exact ⟨hpub' e hp, hstay e hp hl, hf⟩
  case refs =>
    refine { hs.refs with count := ?count, linked := ?linked }
    case count =>
      intro e he
      show s.cache.refcount e = _
      rw [Sys.link, countP_cons_ref]
      rcases linked_link.1 he with rfl | hold
      · -- the caller's reference is the first one
        have hzero : s.refs.countP (fun r => decide (r.2 = e)) = 0 := by
          refine countP_eq_zero.2 fun r hr hre => hnot ?_
          have hre : r.2 = e := of_decide_eq_true hre
          exact hre ▸ hs.refs.linked r.1 r.2 hr
        rw [hone, hzero, if_pos rfl]
      · have hed : e ≠ d := by
          rintro rfl
          exact hnot hold
        rw [if_neg hed]
        exact hs.refs.count e hold
    case linked =>
      intro g e hg
      rcases mem_cons.1 hg with heq | hg
      · cases heq
        exact linked_link.2 (.inl rfl)
      · exact linked_link.2 (.inr (hs.refs.linked g e hg))
  case threads =>
    refine { hs.threads with
      frees := ?frees, own := ?own, parents := ?parents
      gone := fun e hp hl hf => hs.threads.gone e (hgone e hp hl).1 (hgone e hp hl).2 hf }
    case frees =>
      intro u e hu
      obtain ⟨hp, hl, hrest⟩ := hs.threads.frees u e hu
      exact ⟨hpub' e hp, hstay e hp hl, hrest⟩
    case own =>
      intro u e hu
      obtain ⟨hp, hrest⟩ := hs.threads.own u e hu
      have hed : e ≠ d := by
        rintro rfl
        exact hnone u hu
      exact ⟨(published_link hed).trans hp, hrest⟩
    case parents =>
      intro e p he hp
      refine mem_cons_of_mem _ ?_
      by_cases hed : e = d
      · subst hed
        exact hparent p hp
      · refine hs.threads.parents e p ?_ hp
        rcases he with he | he
        · exact .inl ((linked_link.1 he).resolve_left hed)
        · exact .inr he

/-! ### Memory given back -/

lemma freed_slabFree (he : e ≠ d) : (c.slabFree d).freed e = c.freed e := by
  simp [slabFree, he]

/-- A dentry that is in no list can be freed. -/
lemma TableInv.slabFree (ht : TableInv c) (hnot : ¬ c.Linked d) (hlt : d < c.next)
    (hq : d ∉ c.rcuQueue) : TableInv (c.slabFree d) := by
  refine { ht with linked := ?linked, fresh := ?fresh, queue := ?queue }
  case linked =>
    intro e he
    have hed : e ≠ d := by
      rintro rfl
      exact hnot he
    rw [freed_slabFree hed]
    exact ht.linked e he
  case fresh =>
    intro e he
    rw [freed_slabFree (hlt.trans_le he).ne']
    exact ht.fresh e he
  case queue =>
    intro e he
    have hed : e ≠ d := by
      rintro rfl
      exact hq he
    rw [freed_slabFree hed]
    exact ht.queue e he

/-- The dentry of a lost race was never in the cache. -/
lemma Inv.slabFree_own (hs : Inv s) (hpub : s.cache.published d = false) (hlt : d < s.cache.next)
    (hnone : ∀ u, (s.pc u).own ≠ some d) : Inv (s.withCache (s.cache.slabFree d)) := by
  have hfreed : ∀ e, s.cache.published e = true →
      (s.cache.slabFree d).freed e = s.cache.freed e := by
    intro e he
    refine freed_slabFree ?_
    rintro rfl
    exact false_ne_true (hpub.symm.trans he)
  obtain ⟨ht, hr, hpc⟩ := hs
  refine ⟨ht.slabFree (ht.not_linked hpub) hlt fun hq => ?_, { hr with }, { hpc with
    frees := ?frees, own := ?own
    gone := fun e hp hl hf => hpc.gone e hp hl ((hfreed e hp).symm.trans hf) }⟩
  · exact false_ne_true (hpub.symm.trans (ht.queue d hq).1)
  case frees =>
    intro u e hu
    obtain ⟨hp, hl, hf, hq⟩ := hpc.frees u e hu
    exact ⟨hp, hl, (hfreed e hp).trans hf, hq⟩
  case own =>
    intro u e hu
    obtain ⟨hp, hlt, hf, hc⟩ := hpc.own u e hu
    have hed : e ≠ d := by
      rintro rfl
      exact hnone u hu
    exact ⟨hp, hlt, (freed_slabFree hed).trans hf, hc⟩

variable [DecidableEq ι]

/-! ### Steps of one thread -/

section

variable (hs : Inv s) {f : Pc → Option ℕ}
include hs

/-- A thread goes on with the dentry it frees; what it owns then, it owns alone. -/
lemma Inv.gotoOf (hf : pc.frees = (s.pc t).frees)
    (ho : ∀ d, pc.own = some d → (s.cache.published d = false ∧ d < s.cache.next ∧
      s.cache.freed d = false ∧ s.cache.refcount d = 1) ∧ ∀ u, u ≠ t → (s.pc u).own ≠ some d)
    (hk : ∀ d p, pc.keepsParent = some d → (s.cache.dentry d).parent = some p →
      (.child d, p) ∈ s.refs) : Inv (s.goto t pc) := by
  have hfrees : ∀ u, ((s.goto t pc).pc u).frees = (s.pc u).frees :=
    (forall_update_iff s.pc fun u pc => pc.frees = (s.pc u).frees).2 ⟨hf, fun _ _ => rfl⟩
  refine ⟨hs.table, hs.refs, ?_⟩
  constructor
  case frees => exact fun u d hu => hs.threads.frees u d (hfrees u ▸ hu)
  case frees_inj =>
    exact fun u v d hu hv => hs.threads.frees_inj u v d (hfrees u ▸ hu) (hfrees v ▸ hv)
  case own =>
    intro u d hu
    simp only [goto, update_apply] at hu
    split_ifs at hu
    · exact (ho d hu).1
    · exact hs.threads.own u d hu
  case own_inj =>
    intro u v d hu hv
    simp only [goto, update_apply] at hu hv
    split_ifs at hu hv with hut hvt hvt
    · rw [hut, hvt]
    · exact absurd hv ((ho d hu).2 v hvt)
    · exact absurd hu ((ho d hv).2 u hut)
    · exact hs.threads.own_inj u v d hu hv
  case gone =>
    exact fun d hp hl hfr => (hs.threads.gone d hp hl hfr).imp_right
      fun ⟨u, hu⟩ => ⟨u, (hfrees u).trans hu⟩
  case parents =>
    rintro d p (hd | hd | ⟨u, hu⟩) hp
    · exact hs.threads.parents d p (.inl hd) hp
    · exact hs.threads.parents d p (.inr (.inl hd)) hp
    · simp only [goto, update_apply] at hu
      split_ifs at hu
      · exact hk d p hu hp
      · exact hs.threads.parents d p (.inr (.inr ⟨u, hu⟩)) hp

lemma Inv.goto (hpc : s.pc t = old) (hf : pc.frees = old.frees)
    (ho : ∀ d, pc.own = some d → old.own = some d)
    (hk : ∀ d, pc.keepsParent = some d → old.keepsParent = some d) : Inv (s.goto t pc) := by
  subst hpc
  refine hs.gotoOf hf (fun d hd => ⟨hs.threads.own t d (ho d hd), fun u hu hown => ?_⟩)
    fun d p hd hp => hs.threads.parents d p (.inr (.inr ⟨t, hk d hd⟩)) hp
  exact hu (hs.threads.own_inj t u d (ho d hd) hown)

lemma Inv.goto_free (hpc : s.pc t = old) (hf : old.frees = none := by rfl)
    (hf' : pc.frees = none := by rfl) (ho : pc.own = none := by rfl)
    (hk : pc.keepsParent = none := by rfl) : Inv (s.goto t pc) :=
  hs.goto hpc (hf'.trans hf.symm) (fun d hd => by simp [ho] at hd) (fun d hd => by simp [hk] at hd)

/-- A reference given back; a child that gives one back does not count on it any more. -/
lemma Inv.drop (hmem : (h, d) ∈ s.refs)
    (hchild : ∀ c, h = .child c → ¬ s.KeepsParent c) : Inv (s.drop h d) := by
  have hd := hs.refs.linked h d hmem
  refine ⟨hs.table.withRefcount _, ?_, ?_⟩
  · constructor
    case count =>
      intro e he
      have hcount := hs.refs.count e he
      have hperm := (perm_cons_erase hmem).countP_eq fun r => decide (r.2 = e)
      rw [countP_cons_ref] at hperm
      rw [hperm] at hcount
      by_cases hed : e = d
      · subst hed
        simp only [drop, subRef, update_self]
        rw [if_pos rfl] at hcount
        rw [hcount, dec_succ]
      · rw [if_neg hed] at hcount
        simpa [Sys.drop, Cache.subRef, hed] using hcount
    case linked => exact fun g e hg => hs.refs.linked g e (mem_of_mem_erase hg)
    case lt => exact update_lt hs.refs.lt (dec_lt (hs.refs.lt d)) d
  · refine { hs.threads with own := hs.own_update hd, parents := ?_ }
    intro c p hc hp
    refine (mem_erase_of_ne ?_).2 (hs.threads.parents c p hc hp)
    intro heq
    cases heq
    exact hchild c rfl hc

omit hs in
lemma of_goto {p : Pc} (hf : f p = some d) (u : ι) (e : ℕ)
    (he : f ((s.goto t p).pc u) = some e) : (u = t ∧ e = d) ∨ f (s.pc u) = some e := by
  simp only [goto, update_apply] at he
  split_ifs at he with hut
  · exact .inl ⟨hut, some.inj (he.symm.trans hf)⟩
  · exact .inr he

omit hs in
/-- Where it has nothing in hand any more, the others have what they had. -/
lemma of_goto_none (hf : f pc = none) {u : ι} (he : f ((s.goto t pc).pc u) = some e) :
    u ≠ t ∧ f (s.pc u) = some e := by
  simp only [goto, update_apply] at he
  split_ifs at he with hut
  · cases hf.symm.trans he
  · exact ⟨hut, he⟩

lemma Inv.gotoOwn (hf : (s.pc t).frees = none)
    (hown : s.cache.published d = false ∧ d < s.cache.next ∧ s.cache.freed d = false ∧
      s.cache.refcount d = 1) (hnone : ∀ u, (s.pc u).own ≠ some d)
    (hparent : ∀ p, (s.cache.dentry d).parent = some p → (.child d, p) ∈ s.refs) :
    Inv (s.goto t (.candidate d)) := by
  refine hs.gotoOf hf.symm ?_ ?_
  · rintro _ ⟨⟩
    exact ⟨hown, fun u _ => hnone u⟩
  · rintro _ p ⟨⟩
    exact hparent p

/-- **`dentry_alloc`**: the new dentry belongs to its thread alone. -/
lemma Inv.alloc (hf : (s.pc t).frees = none) {x : Dentry} (hp : ∀ p ∈ x.parent, s.cache.CanTake p) :
    Inv ((s.alloc x).goto t (.candidate s.cache.next)) := by
  have hs1 := hs.dentryAlloc x
  have hpub : s.cache.published s.cache.next = false := by
    by_contra hne
    exact (hs.table.published_lt _ (not_eq_false _ ▸ hne)).false
  have hfresh := hs.table.fresh _ le_rfl
  have hnone : ∀ u, (s.pc u).own ≠ some s.cache.next := by
    intro u hu
    exact (hs.threads.own u _ hu).2.1.false
  have hdentry : (s.cache.dentryAlloc x).dentry s.cache.next = x := by simp [Cache.dentryAlloc]
  have hone : (s.cache.dentryAlloc x).refcount s.cache.next = 1 := by simp [Cache.dentryAlloc]
  unfold Sys.alloc
  cases hxp : x.parent with
  | none =>
    refine hs1.gotoOwn hf ⟨hpub, lt_succ_self _, hfresh, hone⟩ hnone ?_
    intro p hparent
    have hparent : ((s.cache.dentryAlloc x).dentry s.cache.next).parent = some p := hparent
    rw [hdentry, hxp] at hparent
    cases hparent
  | some p =>
    obtain ⟨hlink, hlt⟩ := hp p hxp
    have hne : p ≠ s.cache.next := (hs.table.linked_lt hlink).ne
    have hcan : (s.cache.dentryAlloc x).CanTake p := by
      refine ⟨(hs.table.linked_dentryAlloc x).2 hlink, ?_⟩
      simpa [Cache.dentryAlloc, hne] using hlt
    refine (hs1.take (h := .child s.cache.next) hcan).gotoOwn hf
      ⟨hpub, lt_succ_self _, hfresh, ?_⟩ hnone ?_
    · show ((s.cache.dentryAlloc x).addRef p).refcount s.cache.next = 1
      simpa [addRef, hne.symm] using hone
    · intro q hq
      have hq : ((s.cache.dentryAlloc x).dentry s.cache.next).parent = some q := hq
      rw [hdentry, hxp] at hq
      cases hq
      exact mem_cons_self

/-- What a thread knows of the dentry it has not linked yet. -/
lemma Inv.unowned (ho : (s.pc t).own = some d) (pc : Pc) (hpc : pc.own = none)
    (u : ι) : ((s.goto t pc).pc u).own ≠ some d := by
  intro hown
  obtain ⟨hu, hown⟩ := of_goto_none hpc hown
  exact hu (hs.threads.own_inj t u d ho hown)

/-- **The locked section of `dcache_install`.** -/
lemma Inv.publish (hpc : s.pc t = .candidate d) (ok : Bool) :
    Inv ((s.publish t d ok).goto t .idle) := by
  have ho : (s.pc t).own = some d := by rw [hpc]; rfl
  obtain ⟨hpub, hlt, hfr, hone⟩ := hs.threads.own t d ho
  have hparent := fun p => hs.threads.parents d p (.inr (.inr ⟨t, by rw [hpc]; rfl⟩))
  have hs1 : Inv (s.goto t .idle) := hs.goto_free hpc
  have hnone := hs.unowned ho .idle rfl
  show Inv ((s.goto t .idle).publish t d ok)
  unfold Sys.publish Cache.installLocked
  split
  · have hs2 := hs1.grow ok
    unfold dcacheGrowLocked at hs2 ⊢
    cases ok
    · exact hs2.link hpub hlt hfr hone hnone hparent
    · exact hs2.link hpub hlt hfr hone hnone hparent
  · exact hs1.link hpub hlt hfr hone hnone hparent

lemma Inv.startFree (hpc : s.pc t = .idle) (hd : d ∈ s.cache.rcuQueue) :
    Inv ((s.startFree d).goto t (.freeing d)) := by
  obtain ⟨hpub, hnot, hfr⟩ := hs.table.queue d hd
  have hpct : ((s.startFree d).goto t (.freeing d)).pc t = .freeing d := by simp [Sys.goto]
  have hqueue : ∀ e, e ∈ ((s.startFree d).goto t (.freeing d)).cache.rcuQueue ↔
      e ≠ d ∧ e ∈ s.cache.rcuQueue := fun e => hs.table.queue_nodup.mem_erase_iff
  have hown {u : ι} {e : ℕ} (hu : (((s.startFree d).goto t (.freeing d)).pc u).own = some e) :=
    of_goto_none (f := own) rfl hu
  obtain ⟨ht, hr, hp⟩ := hs
  constructor
  case table =>
    exact { ht with
      queue_nodup := ht.queue_nodup.erase d
      queue := fun e he => ht.queue e (mem_of_mem_erase he) }
  case refs => exact { hr with }
  case threads =>
    constructor
    case frees =>
      intro u e hu
      rcases of_goto (f := frees) rfl u e hu with ⟨-, rfl⟩ | hu'
      · exact ⟨hpub, hnot, hfr, fun hq => ((hqueue e).1 hq).1 rfl⟩
      · obtain ⟨hpe, hle, hfe, hqe⟩ := hp.frees u e hu'
        exact ⟨hpe, hle, hfe, fun hq => hqe ((hqueue e).1 hq).2⟩
    case frees_inj =>
      -- the callbacks that ran before are of dentries that were not in the queue
      have hnone : ∀ u, (s.pc u).frees ≠ some d := fun u hu => (hp.frees u d hu).2.2.2 hd
      intro u v e hu hv
      rcases of_goto (f := frees) rfl u e hu with ⟨hut, rfl⟩ | hu
      · exact ((of_goto (f := frees) rfl v e hv).resolve_right (hnone v)).1.trans hut.symm
      · rcases of_goto (f := frees) rfl v e hv with ⟨-, rfl⟩ | hv
        · exact absurd hu (hnone u)
        · exact hp.frees_inj u v e hu hv
    case own => exact fun u e hu => hp.own u e (hown hu).2
    case own_inj => exact fun u v e hu hv => hp.own_inj u v e (hown hu).2 (hown hv).2
    case gone =>
      intro e hpe hle hfe
      by_cases hed : e = d
      · exact .inr ⟨t, by rw [hpct, hed]; rfl⟩
      · rcases hp.gone e hpe hle hfe with hq | ⟨u, hu⟩
        · exact .inl ((hqueue e).2 ⟨hed, hq⟩)
        · have hut : u ≠ t := by
            rintro rfl
            rw [hpc] at hu
            cases hu
          exact .inr ⟨u, (congrArg frees (update_of_ne hut _ _)).trans hu⟩
    case parents =>
      intro e p he hpar
      refine hp.parents e p ?_ hpar
      rcases he with he | he | ⟨u, hu⟩
      · exact .inl he
      · exact .inr (.inl ((hqueue e).1 he).2)
      · rcases of_goto (f := keepsParent) rfl u e hu with ⟨-, rfl⟩ | hu
        · exact .inr (.inl hd)
        · exact .inr (.inr ⟨u, hu⟩)

lemma Inv.finishFree (hpc : s.pc t = .freeSlab d) :
    Inv ((s.withCache (s.cache.slabFree d)).goto t .idle) := by
  have hfd : (s.pc t).frees = some d := by rw [hpc]; rfl
  obtain ⟨hpub, hnot, -, hq⟩ := hs.threads.frees t d hfd
  -- the other threads have other dentries in hand
  have hback {u : ι} {f : Pc → Option ℕ} {e : ℕ} (hidle : f .idle = none) :=
    of_goto_none (s := s.withCache (s.cache.slabFree d)) (t := t) (u := u) (e := e) hidle
  obtain ⟨ht, hr, hp⟩ := hs
  refine ⟨ht.slabFree hnot (ht.published_lt d hpub) hq, { hr with }, ?_⟩
  constructor
  case frees =>
    intro u e hu
    obtain ⟨hut, hold⟩ := hback rfl hu
    obtain ⟨hpe, hl, hf, hqe⟩ := hp.frees u e hold
    have hed : e ≠ d := by
      rintro rfl
      exact hut (hp.frees_inj t u e hfd hold)
    exact ⟨hpe, hl, (freed_slabFree hed).trans hf, hqe⟩
  case frees_inj =>
    exact fun u v e hu hv => hp.frees_inj u v e (hback rfl hu).2 (hback rfl hv).2
  case own =>
    intro u e hu
    obtain ⟨hpe, hlt, hf, hc⟩ := hp.own u e (hback rfl hu).2
    have hed : e ≠ d := by
      rintro rfl
      exact false_ne_true (hpe.symm.trans hpub)
    exact ⟨hpe, hlt, (freed_slabFree hed).trans hf, hc⟩
  case own_inj =>
    exact fun u v e hu hv => hp.own_inj u v e (hback rfl hu).2 (hback rfl hv).2
  case gone =>
    intro e hpe hl hf
    have hed : e ≠ d := by
      rintro rfl
      have hf : (s.cache.slabFree e).freed e = false := hf
      simp [slabFree] at hf
    rcases hp.gone e hpe hl ((freed_slabFree hed).symm.trans hf) with hqe | ⟨u, hu⟩
    · exact .inl hqe
    · have hut : u ≠ t := by
        rintro rfl
        exact hed (some.inj (hu.symm.trans hfd))
      exact .inr ⟨u, (congrArg frees (update_of_ne hut _ _)).trans hu⟩
  case parents =>
    intro e p he hpar
    refine hp.parents e p ?_ hpar
    exact he.imp_right (Or.imp_right fun ⟨u, hu⟩ => ⟨u, (hback rfl hu).2⟩)

end

end Makaos.Dcache
