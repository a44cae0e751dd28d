import Makaos.Fs.DcacheInv

/-!
The life of a dentry, over every run of the cache.

* `Inv.step`: **every step keeps the invariant**, as long as no dentry is taken out under a caller.
* `dentry_lifetime`: **every dentry is linked, or waits for its one free, or is freed.**
* `lru_referenced`: a dentry stays on the LRU list while a lookup holds a reference on it.
-/

namespace Makaos.Dcache

open Transition Option List Bool
open HashChains

variable {ι : Type*} [DecidableEq ι] {s s' : Sys ι} {d e p : ℕ} {t : ι}
variable {c : Cache}

/-! ### The steps of a call -/

/-- A child that does not count on its parent any more gives its reference back. -/
lemma Inv.dropParent (hs : Inv s) {pc old : Pc} (hold : s.pc t = old)
    (hk : old.keepsParent = some d) (hf : pc.frees = old.frees)
    (ho : ∀ e, pc.own = some e → old.own = some e) (hpc : pc.keepsParent = none)
    (hpar : (s.cache.dentry d).parent = some p) : Inv ((s.drop (.child d) p).goto t pc) := by
  subst hold
  have hmem := hs.threads.parents d p (.inr (.inr ⟨t, hk⟩)) hpar
  have hs1 : Inv (s.goto t pc) := hs.goto rfl hf ho fun e he => by simp [hpc] at he
  show Inv ((s.goto t pc).drop (.child d) p)
  refine hs1.drop hmem ?_
  rintro c hc (hl | hq | ⟨u, hu⟩)
  all_goals obtain rfl : d = c := by cases hc; rfl
  -- its thread is the only one that has it in hand, and it is not in the cache
  · rcases Pc.own_or_frees hk with hown | hfrees
    · exact hs.table.not_linked (hs.threads.own t d hown).1 hl
    · exact (hs.threads.frees t d hfrees).2.1 hl
  · rcases Pc.own_or_frees hk with hown | hfrees
    · exact false_ne_true ((hs.threads.own t d hown).1.symm.trans (hs.table.queue d hq).1)
    · exact (hs.threads.frees t d hfrees).2.2.2 hq
  · have hut : u ≠ t := by
      rintro rfl
      simp [Sys.goto, hpc] at hu
    have hu : (s.pc u).keepsParent = some d := by simpa [Sys.goto, hut] using hu
    rcases Pc.own_or_frees hk with hown | hfrees <;> rcases Pc.own_or_frees hu with hown' | hfrees'
    · exact hut (hs.threads.own_inj t u d hown hown')
    · exact false_ne_true
        ((hs.threads.own t d hown).1.symm.trans (hs.threads.frees u d hfrees').1)
    · exact false_ne_true
        ((hs.threads.own u d hown').1.symm.trans (hs.threads.frees t d hfrees).1)
    · exact hut (hs.threads.frees_inj t u d hfrees hfrees')

/-- The name is there already: the caller gets the dentry that is linked. -/
lemma Inv.bump (hs : Inv s) (hpc : s.pc t = .bump d e) (he : s.cache.CanTake e) :
    Inv (((s.withCache (s.cache.slabFree d)).take (.caller t) e).goto t .idle) := by
  have ho : (s.pc t).own = some d := by rw [hpc]; rfl
  obtain ⟨hpub, hlt, -, -⟩ := hs.threads.own t d ho
  have hs1 : Inv (s.goto t .idle) := hs.goto_free hpc
  have hs2 := hs1.slabFree_own hpub hlt (hs.unowned ho .idle rfl)
  exact hs2.take he

lemma Inv.runStep (hs : Inv s) {ok : Bool} (hok : s.cache.InHand (s.pc t))
    (h : s.runStep t ok = some s') : Inv s' := by
  unfold Sys.runStep at h
  split at h
  · cases h
  next d hpc =>
    rw [hpc] at hok
    cases h
    exact (hs.take hok).goto_free hpc
  next d hpc =>
    rw [hpc] at hok
    cases h
    exact (hs.putLocked hok).goto_free hpc
  next x hpc =>
    cases h
    exact (hs.shrink _).goto_free hpc
  next x hpc =>
    rw [hpc] at hok
    split at h
    · cases h
      exact hs.alloc (by rw [hpc]; rfl) hok
    · cases h
      exact hs.goto_free hpc
  next d hpc =>
    split at h
    next e hfind =>
      cases h
      exact hs.goto hpc rfl (fun _ he => he) fun _ he => he
    · cases h
      exact hs.publish hpc ok
  next d e hpc =>
    cases h
    cases hpar : (s.cache.dentry d).parent with
    | none => exact hs.goto hpc rfl (fun _ hc => hc) nofun
    | some p => exact hs.dropParent hpc rfl rfl (fun _ hc => hc) rfl hpar
  next d e hpc =>
    rw [hpc] at hok
    cases h
    exact hs.bump hpc hok
  next d hpc =>
    split at h
    · cases h
      exact hs.goto hpc rfl nofun nofun
    next p hpar =>
      dsimp only at h
      split at h
      case isTrue | isFalse =>
        cases h
        exact hs.dropParent hpc rfl rfl nofun rfl hpar
  next d p hpc =>
    rw [hpc] at hok
    cases h
    exact (hs.lruAppend hok).goto hpc rfl nofun nofun
  next d hpc =>
    cases h
    exact (hs.finishFree hpc).withLru _ hs.table.lru_nodup hs.table.lru_linked

/-- **Every step keeps the invariant.** -/
theorem Inv.step [Fintype ι] {a : ι × Act} (hs : Inv s) (hok : LinkedUse s a)
    (h : dcacheStep s a = some s') : Inv s' := by
  obtain ⟨t, a⟩ := a
  unfold dcacheStep at h
  split at h
  next t ok heq =>
    cases heq
    exact hs.runStep hok h
  next t a hrun heq =>
    cases heq
    split at h
    · cases h
    next hpc =>
      have hpc : s.pc t = .idle := not_not.1 hpc
      cases a with
      | lookup n =>
        dsimp only at h
        split at h
        · cases h
          exact hs
        next d hfind =>
          cases h
          exact hs.goto_free hpc
      | put d =>
        dsimp only at h
        obtain ⟨hmem, h⟩ := ite_none_right_eq_some.mp h
        have hs' : Inv (s.drop (.caller t) d) := hs.drop hmem nofun
        split at h
        · cases h
          exact hs'.goto_free hpc
        · cases h
          exact hs'
      | install x =>
        dsimp only at h
        split at h
        · cases h
          exact hs
        · split at h
          case isTrue | isFalse =>
            cases h
            exact hs.goto_free hpc
      | invalidate parentIno name =>
        cases h
        exact hs.invalidate hok
      | invalidateSubtree dirIno =>
        cases h
        exact hs.invalidateSubtree hok
      | shrink max =>
        cases h
        exact hs.shrink max
      | callback d =>
        dsimp only at h
        obtain ⟨hd, rfl⟩ := ite_some_none_eq_some.mp h
        exact hs.startFree hpc hd.1
      | run ok => exact absurd rfl (hrun ok)

/-! ### Every run -/

omit [DecidableEq ι] in
lemma Inv.boot : Inv (boot : Sys ι) := by
  have hnot : ∀ d, ¬ Cache.init.Linked d := fun d hd => absurd hd not_mem_nil
  constructor
  case table =>
    constructor
    case cap_pos => exact (by norm_num : 0 < 256)
    case placed => exact Table.Placed.empty _
    case linked => exact fun d hd => absurd hd (hnot d)
    case gone | published_lt => exact fun d hd => absurd hd false_ne_true
    case unpublished | fresh => exact fun d _ => rfl
    case lru_nodup | queue_nodup => exact nodup_nil
    case lru_linked | queue => exact fun d hd => absurd hd not_mem_nil
  case refs =>
    exact ⟨fun d hd => absurd hd (hnot d), fun h d hd => absurd hd not_mem_nil,
      fun d => by show 0 < 2 ^ 32; norm_num⟩
  case threads =>
    constructor
    case frees | frees_inj | own | own_inj => exact nofun
    case gone => exact fun d hd => absurd hd false_ne_true
    case parents =>
      rintro d p (hd | hd | ⟨t, ht⟩)
      · exact absurd hd (hnot d)
      · exact absurd hd not_mem_nil
      · cases ht

lemma TableInv.inOneChain (ht : TableInv c) (hd : c.Linked d) : c.InOneChain d := by
  refine ⟨c.place d c.table.cap, count_eq_one_of_mem (ht.placed.nodup _) hd, ?_⟩
  intro b hb hmem
  exact hb (ht.placed.place_eq b d hmem).symm

lemma TableInv.linked_of_mem (ht : TableInv c) {b : ℕ} (hd : d ∈ c.table.buckets b) :
    c.Linked d := by
  show d ∈ c.table.buckets (c.place d c.table.cap)
  rwa [ht.placed.place_eq b d hd]

lemma TableInv.linked_of_inOneChain (ht : TableInv c) (hd : c.InOneChain d) : c.Linked d := by
  obtain ⟨b, hb, -⟩ := hd
  exact ht.linked_of_mem (count_pos_iff.1 (hb ▸ Nat.one_pos))

lemma TableInv.inNoChain (ht : TableInv c) (hd : ¬ c.Linked d) : c.InNoChain d :=
  fun _ hmem => hd (ht.linked_of_mem hmem)

omit [DecidableEq ι] in
lemma Inv.lifetime (hs : Inv s) : Lifetime s := by
  have hwait : ∀ d, s.Waiting d → ¬ s.cache.Linked d ∧ s.cache.freed d = false := by
    rintro d (hd | ⟨t, ht⟩)
    · exact (hs.table.queue d hd).2
    · obtain ⟨-, hl, hf, -⟩ := hs.threads.frees t d ht
      exact ⟨hl, hf⟩
  constructor
  case one_of =>
    intro d hp
    by_cases hd : s.cache.Linked d
    · exact .inl ⟨hs.table.inOneChain hd, fun hw => (hwait d hw).1 hd, (hs.table.linked d hd).2.2⟩
    · cases hf : s.cache.freed d with
      | false => exact .inr (.inl ⟨hs.table.inNoChain hd, hs.threads.gone d hp hd hf, rfl⟩)
      | true =>
        refine .inr (.inr ⟨hs.table.inNoChain hd, fun hw => ?_, rfl⟩)
        exact false_ne_true ((hwait d hw).2.symm.trans hf)
  case handed_linked =>
    exact fun d hd => (hs.table.linked d (hs.table.linked_of_inOneChain hd)).2.1
  case handed_gone => exact fun d hp hd => hs.table.gone d hp (hd _)
  case single =>
    refine ⟨hs.table.queue_nodup, fun d t ht => ⟨(hs.threads.frees t d ht).2.2.2, fun u hu => ?_⟩⟩
    exact hs.threads.frees_inj t u d ht hu
  case lru =>
    exact ⟨hs.table.lru_nodup, fun d hd => hs.table.inOneChain (hs.table.lru_linked d hd)⟩
  case unreferenced =>
    intro d hd h hmem
    have hzero := (hs.table.linked d (hs.refs.linked h d hmem)).2.1
    omega

/-- **The life of a dentry**: in every run in which no dentry is taken out of the cache under a
caller, every dentry is in one hash chain, or waits for its one deferred free, or is freed; it is on
the LRU list only while it is linked, it is handed to the deferred free once, and nobody holds a
reference on it then or later. -/
theorem dentry_lifetime [Fintype ι] (acts : List (ι × Act))
    (hrun : exec dcacheStep boot acts = some s)
    (hok : Meets dcacheStep LinkedUse boot acts) : Lifetime s :=
  (exec_invariant Inv.step hrun hok Inv.boot).lifetime

/-- A name in the root directory. -/
def cachedName : Dentry := ⟨⟨2, dcacheNameHash [97], [97]⟩, 12, none⟩

/-- Two threads install the same name at once and give their references back, one looks it up
again, and the other one invalidates it at last. -/
def oneName : List (Fin 2 × Act) :=
  [(0, .install cachedName), (0, .run true), (1, .install cachedName), (1, .run true),
    (0, .run true), (1, .run true), (1, .run true), (1, .run true), (0, .put 0), (1, .put 0),
    (1, .run true), (0, .lookup cachedName.toName), (0, .run true), (0, .put 0), (0, .run true),
    (1, .invalidate 2 [97]), (1, .callback 0), (1, .run true), (1, .run true)]

theorem dentry_lifetime_oneName :
    ∃ s : Sys (Fin 2), exec dcacheStep boot oneName = some s ∧ Lifetime s := by
  have hok : Meets dcacheStep LinkedUse (boot : Sys (Fin 2)) oneName := by
    decide +kernel
  exact exists_of_run (fun s => s.cache.freed 0 = true ∧ s.cache.handed 0 = 1)
    fun s hrun _ => dentry_lifetime oneName hrun hok

/-- **A dentry stays on the LRU list while it is referenced**: installed, given back, and looked up
again. -/
theorem lru_referenced : ∃ (acts : List (Fin 1 × Act)) (s : Sys (Fin 1)),
      exec dcacheStep boot acts = some s ∧
        0 ∈ s.cache.lru ∧ s.cache.refcount 0 = 1 ∧ (.caller 0, 0) ∈ s.refs := by
  let acts : List (Fin 1 × Act) :=
    [(0, .install cachedName), (0, .run true), (0, .run true), (0, .put 0), (0, .run true),
      (0, .lookup cachedName.toName), (0, .run true)]
  exact ⟨acts, exists_of_any dcacheStep boot acts _⟩

end Makaos.Dcache
