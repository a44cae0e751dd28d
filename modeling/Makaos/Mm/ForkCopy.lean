import Makaos.Mm.AccessRun

/-!
The copy of an address space by a fork, entry by entry.

* `Copied`: an entry with its copies in the parent and the child.
* `CopyInv`: the state of the loop over the entries.
* `Forked`: the state after a fork, with the entries of parent and child side by side.
-/

namespace Makaos

open List Option Prod

namespace World

variable {K : Set ℕ} {w w₁ w' : World} {held : List ℕ} {f i n : ℕ} {sp : AddrSpace} {v : Vma}
  {e : Pte} {c : Cloning} {w₂ : World} {k : PageKind} {c' : Cloning}

/-! ### Copying an entry -/

/-- **An entry and its copies** `s` in the parent and `d` in the child: it is kept outside private
memory; in private memory both are read-only, or the child gets a copy of a pinned page. -/
inductive Copied (w w₁ : World) (k : PageKind) (e : Pte) : Pte → Pte → Prop
  | kept : k ≠ .priv → Copied w w₁ k e e e
  | cow {s : Pte} : k = .priv → s.frame = e.frame → ¬ Writable s → Copied w w₁ k e s s
  | copy {f : ℕ} : k = .priv → f ∈ w.mem.free → f ∉ w₁.mem.free →
      w₁.mem.bytes f = w.mem.bytes e.frame → Copied w w₁ k e e ⟨f, e.flags⟩

/-- Frames in use keep their bytes. -/
structure Calm (w w₁ : World) : Prop where
  spaces : w₁.spaces = w.spaces
  cache : w₁.cache = w.cache
  shmems : w₁.shmems = w.shmems
  files : w₁.files = w.files
  free : w₁.mem.free ⊆ w.mem.free
  bytes : ∀ f ∉ w.mem.free, w₁.mem.bytes f = w.mem.bytes f

lemma Calm.trans (h1 : Calm w w₁) (h2 : Calm w₁ w₂) : Calm w w₂ where
  spaces := h2.spaces.trans h1.spaces
  cache := h2.cache.trans h1.cache
  shmems := h2.shmems.trans h1.shmems
  files := h2.files.trans h1.files
  free := h2.free.trans h1.free
  bytes f hf := (h2.bytes f fun hf' => hf (h1.free hf')).trans (h1.bytes f hf)

lemma Copied.mono {s d : Pte} (h : Copied w w₁ k e s d) (hfree : w₂.mem.free ⊆ w₁.mem.free)
    (hbytes : ∀ f ∉ w₁.mem.free, w₂.mem.bytes f = w₁.mem.bytes f) : Copied w w₂ k e s d := by
  cases h with
  | kept hk => exact .kept hk
  | cow hk hf hw => exact .cow hk hf hw
  | copy hk hf hf1 hb => exact .copy hk hf (fun hf2 => hf1 (hfree hf2)) ((hbytes _ hf1).trans hb)

/-- The kind of a page by the VMAs. -/
def kindIn (vmas : List Vma) (n : ℕ) : PageKind :=
  (mmVmaFind vmas (n * pageSize)).elim .priv kindOf

lemma not_writable_cow (e : Pte) : ¬ Writable { e with flags := e.flags &&& ~~~ pageWritable } := by
  show ¬ (e.flags &&& ~~~ pageWritable &&& pageWritable != 0#64) = true
  rw [BitVec.and_assoc]
  simp [pageWritable]

lemma calm_refInc (w : World) (ts : Outcomes) (f : ℕ) :
    Calm w (({ w with tables := ts } : World).refInc f) where
  spaces := rfl
  cache := rfl
  shmems := rfl
  files := rfl
  free := by rw [refInc, onMem, (PhysMem.refInc_spec _ f).2.1]
  bytes g _ := by rw [refInc, onMem, (PhysMem.refInc_spec _ f).1]

/-- **One entry is copied.** -/
lemma cloneEntry_copied {vmas : List Vma}
    (h : cloneEntry vmas c n e = (true, c')) : Calm c.world c'.world ∧ ∃ s d,
      c'.dst = c.dst.insert n d ∧ (c'.src = c.src ∧ s = e ∨ c'.src = c.src.insert n s) ∧
      Copied c.world c'.world (kindIn vmas n) e s d := by
  rw [cloneEntry] at h
  cases ht : c.world.tables.next with
  | mk ok ts =>
    rw [ht] at h
    cases ok with
    | false => exact absurd (congrArg fst h) (by simp)
    | true =>
      dsimp only at h
      -- the branches follow the kind of the page
      have hkind : kindIn vmas n =
          if ((mmVmaFind vmas (n * pageSize)).bind Vma.shmem).isSome then .shared
          else if ((mmVmaFind vmas (n * pageSize)).map fun v => hasFlag v.flags vmaMmio) =
            some true then .device else .priv := by
        rw [kindIn]
        cases mmVmaFind vmas (n * pageSize) with
        | none => rfl
        | some v => simp [kindOf]
      split at h
      next hsh =>
        rw [if_pos hsh] at hkind
        obtain ⟨-, rfl⟩ := Prod.mk.inj h
        exact ⟨calm_refInc c.world ts e.frame, e, e, rfl, .inl ⟨rfl, rfl⟩, .kept (by simp [hkind])⟩
      next hsh =>
        rw [if_neg hsh] at hkind
        split at h
        next hmm =>
          rw [if_pos hmm] at hkind
          obtain ⟨-, rfl⟩ := Prod.mk.inj h
          exact ⟨⟨rfl, rfl, rfl, rfl, fun _ => id, fun _ _ => rfl⟩, e, e, rfl,
            .inl ⟨rfl, rfl⟩, .kept (by simp [hkind])⟩
        next hmm =>
          rw [if_neg hmm] at hkind
          split at h
          · rcases ({ c.world with tables := ts } : World).alloc_cases with hal | ⟨f, hf, hal⟩
            · rw [hal] at h
              exact absurd (congrArg fst h) (by simp)
            · rw [hal] at h
              obtain ⟨-, rfl⟩ := Prod.mk.inj h
              refine ⟨⟨rfl, rfl, rfl, rfl, Finset.erase_subset _ _, fun g hg => ?_⟩, e,
                ⟨f, e.flags⟩, rfl, .inl ⟨rfl, rfl⟩, .copy hkind hf ?_ ?_⟩
              · exact Function.update_of_ne (fun hgf => hg (by rw [hgf]; exact hf)) _ _
              · exact Finset.notMem_erase f _
              · exact PhysMem.copyFrame_self _ f e.frame
          · obtain ⟨-, rfl⟩ := Prod.mk.inj h
            exact ⟨calm_refInc c.world ts e.frame, _, _, rfl, .inr rfl,
              .cow hkind rfl (not_writable_cow e)⟩

/-! ### The loop -/

/-- **The state of a copy**: pages that are done have their copies, the others are untouched, and
the child's new frames are all different. -/
structure CopyInv (w : World) (sp : AddrSpace) (c : Cloning) : Prop where
  calm : Calm w c.world
  child : ∀ n d, c.dst.lookup n = some d → ∃ e s, sp.pt.lookup n = some e ∧
    c.src.lookup n = some s ∧ Copied w c.world (kindIn sp.mm.vmas n) e s d
  todo : ∀ n, c.dst.lookup n = none → c.src.lookup n = sp.pt.lookup n
  fresh : ∀ n m d d', c.dst.lookup n = some d → c.dst.lookup m = some d' →
    d.frame = d'.frame → d.frame ∈ w.mem.free → n = m

lemma Copied.not_free {s d : Pte} (h : Copied w w₁ k e s d)
    (hfree : w₁.mem.free ⊆ w.mem.free) (hf : e.frame ∉ w.mem.free) : d.frame ∉ w₁.mem.free := by
  cases h with
  | kept _ => exact fun hd => hf (hfree hd)
  | cow _ hs _ => exact fun hd => hf (hs ▸ hfree hd)
  | copy _ _ hf1 _ => exact hf1

lemma CopyInv.cloneEntry (h : CopyInv w sp c)
    (hused : ∀ n e, sp.pt.lookup n = some e → e.frame ∉ w.mem.free)
    (hn : sp.pt.lookup n = some e) (hnone : c.dst.lookup n = none)
    (hc : cloneEntry sp.mm.vmas c n e = (true, c')) :
    CopyInv w sp c' ∧ ∀ m, (c'.dst.lookup m).isSome ↔ m = n ∨ (c.dst.lookup m).isSome := by
  obtain ⟨hcalm, s, d, hdst, hsrc, hcopy⟩ := cloneEntry_copied hc
  have hsn : c'.src.lookup n = some s := by
    rcases hsrc with ⟨hsrc, rfl⟩ | hsrc
    · rw [hsrc, h.todo n hnone, hn]
    · rw [hsrc]
      exact AList.lookup_insert _
  have hsm : ∀ m ≠ n, c'.src.lookup m = c.src.lookup m := by
    intro m hm
    rcases hsrc with ⟨hsrc, -⟩ | hsrc
    · rw [hsrc]
    · rw [hsrc]
      exact AList.lookup_insert_ne hm
  have hdn : c'.dst.lookup n = some d := by rw [hdst]; exact AList.lookup_insert _
  have hdm : ∀ m ≠ n, c'.dst.lookup m = c.dst.lookup m := fun m hm => by
    rw [hdst]
    exact AList.lookup_insert_ne hm
  have hcopy' : Copied w c'.world (kindIn sp.mm.vmas n) e s d := by
    cases hcopy with
    | kept hk => exact .kept hk
    | cow hk hf hw => exact .cow hk hf hw
    | copy hk hf hf' hb =>
      exact .copy hk (h.calm.free hf) hf' (hb.trans (h.calm.bytes _ (hused n e hn)))
  -- the frames of earlier copies are in use, so a new one is different
  have hnew : ∀ m d', c.dst.lookup m = some d' → d.frame = d'.frame → d.frame ∉ w.mem.free := by
    intro m d' hm hframe hfree
    obtain ⟨e', s', he', -, hcopy1⟩ := h.child m d' hm
    have hd' := hcopy1.not_free h.calm.free (hused m e' he')
    cases hcopy with
    | kept _ => exact hused n e hn hfree
    | cow _ hs _ => exact hused n e hn (hs ▸ hfree)
    | copy _ hf _ _ => exact hd' (hframe ▸ hf)
  refine ⟨⟨h.calm.trans hcalm, fun m d' hm => ?_, fun m hm => ?_,
    fun m m' d1 d2 h1 h2 hf hfree => ?_⟩, fun m => ?_⟩
  · rcases eq_or_ne m n with rfl | hne
    · rw [hdn] at hm
      cases hm
      exact ⟨e, s, hn, hsn, hcopy'⟩
    · rw [hdm m hne] at hm
      obtain ⟨e', s', he', hs', hcopy1⟩ := h.child m d' hm
      exact ⟨e', s', he', (hsm m hne).trans hs', hcopy1.mono hcalm.free hcalm.bytes⟩
  · have hne : m ≠ n := by
      rintro rfl
      rw [hdn] at hm
      nomatch hm
    rw [hdm m hne] at hm
    exact (hsm m hne).trans (h.todo m hm)
  · rcases eq_or_ne m n with rfl | hm
    · rw [hdn] at h1
      cases h1
      by_contra hne
      rw [hdm m' (Ne.symm hne)] at h2
      exact hnew m' d2 h2 hf hfree
    · rw [hdm m hm] at h1
      rcases eq_or_ne m' n with rfl | hm'
      · rw [hdn] at h2
        cases h2
        exact absurd (hf ▸ hfree) (hnew m d1 h1 hf.symm)
      · rw [hdm m' hm'] at h2
        exact h.fresh m m' d1 d2 h1 h2 hf hfree
  · rcases eq_or_ne m n with rfl | hne
    · simp [hdn]
    · simp [hdm m hne, hne]

/-- **The loop over the entries** copies them all. -/
lemma CopyInv.cloneLoop (hused : ∀ n e, sp.pt.lookup n = some e → e.frame ∉ w.mem.free)
    (l : List (Σ _ : ℕ, Pte)) : ∀ {c c' : Cloning}, CopyInv w sp c →
    (∀ x ∈ l, sp.pt.lookup x.1 = some x.2 ∧ c.dst.lookup x.1 = none) →
    l.Pairwise (fun x y => x.1 ≠ y.1) → cloneLoop sp.mm.vmas l c = (true, c') →
    CopyInv w sp c' ∧ ∀ m, ((∃ x ∈ l, x.1 = m) ∨ (c.dst.lookup m).isSome) →
      (c'.dst.lookup m).isSome := by
  induction l with
  | nil =>
    rintro c c' h _ _ ⟨⟩
    exact ⟨h, fun m hm => hm.resolve_left (by simp)⟩
  | cons x rest ih =>
    intro c c' h htodo hnd hloop
    obtain ⟨n, e⟩ := x
    obtain ⟨hn, hnone⟩ := htodo _ mem_cons_self
    obtain ⟨hfresh, hnd⟩ := pairwise_cons.mp hnd
    rw [World.cloneLoop] at hloop
    cases hc : World.cloneEntry sp.mm.vmas c n e with
    | mk ok c1 =>
      rw [hc] at hloop
      cases ok with
      | false => exact absurd (congrArg fst hloop) (by simp)
      | true =>
        obtain ⟨h1, hdst⟩ := h.cloneEntry hused hn hnone hc
        have htodo1 : ∀ y ∈ rest, sp.pt.lookup y.1 = some y.2 ∧ c1.dst.lookup y.1 = none := by
          intro y hy
          obtain ⟨hy1, hy2⟩ := htodo y (mem_cons_of_mem _ hy)
          refine ⟨hy1, not_isSome_iff_eq_none.mp ?_⟩
          rw [hdst]
          rintro (heq | hsome)
          · exact hfresh y hy heq.symm
          · rw [hy2] at hsome
            cases hsome
        obtain ⟨h2, hall⟩ := ih h1 htodo1 hnd hloop
        refine ⟨h2, fun m hm => hall m ?_⟩
        rw [hdst]
        rcases hm with ⟨y, hy, rfl⟩ | hm
        · rcases mem_cons.mp hy with rfl | hy
          · exact .inr (.inl rfl)
          · exact .inl ⟨y, hy, rfl⟩
        · exact .inr (.inr hm)

/-! ### The state after a fork -/

lemma forkMm_success (hord : IntervalList.Ordered Vma.start Vma.stop sp.mm.vmas)
    (h : (w.forkMm i sp).1 = true) :
    ∃ c, cloneLoop sp.mm.vmas sp.pt.entries ⟨w, sp.pt, ∅⟩ = (true, c) ∧
      (w.forkMm i sp).2.spaces = c.world.spaces.set i { sp with pt := c.src } ++
        [⟨{ sp.mm with vmas := sp.mm.vmas.map copyVma }, c.dst⟩] ∧
      (w.forkMm i sp).2.mem = c.world.mem ∧ (w.forkMm i sp).2.cache = c.world.cache ∧
      (w.forkMm i sp).2.shmems = c.world.shmems ∧ (w.forkMm i sp).2.files = c.world.files := by
  obtain ⟨ok, c, ks, w₁, hloop, rfl, heq | heq | ⟨rfl, heq⟩⟩ := w.forkMm_cases i sp hord
  · rw [heq] at h
    nomatch h
  · rw [heq] at h
    nomatch h
  · rw [heq]
    exact ⟨c, hloop, rfl, rfl, rfl, rfl, rfl⟩

/-- **The state after a fork**: the entries of parent and child side by side. -/
structure Forked (w w' : World) (i : ℕ) : Prop where
  parent : i < w.spaces.length
  entry : ∀ j m, j ≠ i → j ≠ w.spaces.length → w'.entry j m = w.entry j m
  missing : ∀ m, w.entry i m = none → w'.entry i m = none ∧ w'.entry w.spaces.length m = none
  copied : ∀ m e, w.entry i m = some e → ∃ s d, w'.entry i m = some s ∧
    w'.entry w.spaces.length m = some d ∧ Copied w w' (w.kind i m) e s d
  fresh : ∀ n m d d', w'.entry w.spaces.length n = some d → w'.entry w.spaces.length m = some d' →
    d.frame = d'.frame → d.frame ∈ w.mem.free → n = m
  vmaOf : ∀ j a, j ≠ w.spaces.length → w'.vmaOf j a = w.vmaOf j a
  vmaOf_child : ∀ a, w'.vmaOf w.spaces.length a = (w.vmaOf i a).map copyVma
  vmas : ∀ sp' ∈ w'.spaces, ∃ sp ∈ w.spaces, ∀ v' ∈ sp'.mm.vmas, v' ∈ sp.mm.vmas ∨
    ∃ v ∈ sp.mm.vmas, v' = copyVma v
  cache : w'.cache = w.cache
  shmems : w'.shmems = w.shmems
  files : w'.files = w.files
  free : w'.mem.free ⊆ w.mem.free
  bytes : ∀ f ∉ w.mem.free, w'.mem.bytes f = w.mem.bytes f

lemma find_copyVma (vmas : List Vma) (a : ℕ) :
    mmVmaFind (vmas.map copyVma) a = (mmVmaFind vmas a).map copyVma := by
  rw [mmVmaFind, find?_map]
  rfl

/-- The same frames and address spaces, with other outcomes to come. -/
lemma forkMm_forked (h : Isolated K w) (hs : w.spaces[i]? = some sp) {ks ts : Outcomes}
    (hfork : (({ w with kmalloc := ks, tables := ts } : World).forkMm i sp).1 = true) :
    Forked w (({ w with kmalloc := ks, tables := ts } : World).forkMm i sp).2 i := by
  obtain ⟨c, hloop, hsp, hmem, hcache, hshmems, hfiles⟩ :=
    forkMm_success (h.vmas sp (List.mem_of_getElem? hs)).ordered hfork
  have hused : ∀ n e, sp.pt.lookup n = some e → e.frame ∉ w.mem.free := fun n e hn =>
    h.entry_not_free ((entry_of_space hs n).trans hn)
  have hinit : CopyInv w sp ⟨{ w with kmalloc := ks, tables := ts }, sp.pt, ∅⟩ :=
    ⟨⟨rfl, rfl, rfl, rfl, fun _ => id, fun _ _ => rfl⟩, by simp,
      fun _ _ => rfl, fun n m d d' hd => absurd hd (by simp)⟩
  obtain ⟨hinv, hall⟩ := CopyInv.cloneLoop hused sp.pt.entries hinit
    (fun x hx => ⟨lookup_of_mem_entries hx, rfl⟩) sp.pt.nodupKeys.pairwise_ne hloop
  have hcalm := hinv.calm
  have hlt := (List.getElem?_eq_some_iff.mp hs).1
  generalize (({ w with kmalloc := ks, tables := ts } : World).forkMm i sp).2 = w' at *
  rw [hcalm.spaces] at hsp
  have hlen : (w.spaces.set i { sp with pt := c.src }).length = w.spaces.length := length_set
  -- the address spaces afterwards
  have hparent : w'.spaces[i]? = some { sp with pt := c.src } := by
    rw [hsp, getElem?_append_left (hlen ▸ hlt), getElem?_set_self hlt]
  have hchild : w'.spaces[w.spaces.length]? =
      some ⟨{ sp.mm with vmas := sp.mm.vmas.map copyVma }, c.dst⟩ := by
    rw [hsp, ← hlen, getElem?_concat_length]
  have hother : ∀ j, j ≠ i → j ≠ w.spaces.length → w'.spaces[j]? = w.spaces[j]? := by
    intro j hji hjl
    rw [hsp]
    rcases Nat.lt_or_gt_of_ne hjl with hj | hj
    · rw [getElem?_append_left (hlen ▸ hj), getElem?_set_ne hji.symm]
    · rw [getElem?_eq_none (by simp; omega), getElem?_eq_none (by omega)]
  have hkind : ∀ m, w.kind i m = kindIn sp.mm.vmas m := fun m => by
    rw [kind, vmaOf_of_space hs, kindIn]
  exact {
    parent := hlt
    entry := fun j m hji hjl => by rw [World.entry, hother j hji hjl, World.entry]
    missing := fun m hm => by
      rw [entry_of_space hs] at hm
      have hdst : c.dst.lookup m = none := by
        by_contra hd
        obtain ⟨d, hd⟩ := ne_none_iff_exists'.mp hd
        obtain ⟨e, s, he, -⟩ := hinv.child m d hd
        rw [hm] at he
        cases he
      rw [entry_of_space hparent, entry_of_space hchild]
      exact ⟨(hinv.todo m hdst).trans hm, hdst⟩
    copied := fun m e hm => by
      rw [entry_of_space hs] at hm
      have hentry : (⟨m, e⟩ : Σ _ : ℕ, Pte) ∈ sp.pt.entries := AList.mem_lookup_iff.mp hm
      obtain ⟨d, hd⟩ := isSome_iff_exists.mp (hall m (.inl ⟨_, hentry, rfl⟩))
      obtain ⟨e', s, he', hsrc, hcop⟩ := hinv.child m d hd
      cases he'.symm.trans hm
      rw [entry_of_space hparent, entry_of_space hchild, hkind]
      exact ⟨s, d, hsrc, hd, hcop.mono (hmem ▸ fun _ => id) fun _ _ => hmem ▸ rfl⟩
    fresh := fun n m d d' hn hm => by
      rw [entry_of_space hchild] at hn hm
      exact hinv.fresh n m d d' hn hm
    vmaOf := fun j a hjl => by
      rcases eq_or_ne j i with rfl | hji
      · rw [vmaOf_of_space hparent, vmaOf_of_space hs]
      · rw [World.vmaOf, hother j hji hjl, World.vmaOf]
    vmaOf_child := fun a => by rw [vmaOf_of_space hchild, vmaOf_of_space hs, find_copyVma]
    vmas := fun sp' hsp' => by
      rw [hsp, mem_append, mem_singleton] at hsp'
      rcases hsp' with hsp' | rfl
      · rcases mem_or_eq_of_mem_set hsp' with hmem | rfl
        · exact ⟨sp', hmem, fun v hv => .inl hv⟩
        · exact ⟨sp, mem_of_getElem? hs, fun v hv => .inl hv⟩
      · refine ⟨sp, mem_of_getElem? hs, fun v' hv' => .inr ?_⟩
        obtain ⟨v, hv, rfl⟩ := mem_map.mp hv'
        exact ⟨v, hv, rfl⟩
    cache := hcache.trans hcalm.cache
    shmems := hshmems.trans hcalm.shmems
    files := hfiles.trans hcalm.files
    free := hmem ▸ hcalm.free
    bytes := fun f hf => hmem ▸ hcalm.bytes f hf }

lemma fork_forked (h : Isolated K w) (hfork : (w.fork i).1 = true) : Forked w (w.fork i).2 i := by
  obtain ⟨ks, ts, heq | ⟨sp, hs, heq⟩⟩ := w.fork_cases i
  · rw [heq] at hfork
    nomatch hfork
  · rw [heq] at hfork ⊢
    exact forkMm_forked h hs hfork

end World

end Makaos
