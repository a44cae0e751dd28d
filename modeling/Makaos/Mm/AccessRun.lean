import Makaos.Lib.Transition
import Makaos.Mm.UserAccess

/-!
Runs of loads and stores.

* `Isolated.faultMissing`, `Isolated.faultCow`: faults keep processes apart and change no value.
* `userRun`: a run of accesses.
-/

namespace Makaos

open World List Option AddrSpace Finset Function
variable {addr : ℕ}

namespace World

variable {K : Set ℕ} {w w₁ w' : World} {held : List ℕ} {f i n : ℕ} {sp : AddrSpace} {v : Vma}
  {e : Pte}

/-! ### One entry is set -/

lemma OnlyEntries.vmaOf (h : OnlyEntries i w w') (j a : ℕ) : w'.vmaOf j a = w.vmaOf j a := by
  rcases h with hsp | ⟨sp, pt, hs, hsp⟩
  · rw [World.vmaOf, hsp, World.vmaOf]
  · rw [World.vmaOf, hsp, World.vmaOf, List.getElem?_set]
    split
    case isFalse => rfl
    case isTrue hij =>
      subst hij
      rw [if_pos (List.getElem?_eq_some_iff.mp hs).1, hs]
      rfl

/-- One entry is set, and the holders of frames stay as they are. -/
structure EntrySet (w w' : World) (i n : ℕ) (e : Pte) : Prop where
  entry : ∀ j m, w'.entry j m = if j = i ∧ m = n then some e else w.entry j m
  vmaOf : ∀ j a, w'.vmaOf j a = w.vmaOf j a
  vmas : ∀ sp' ∈ w'.spaces, ∃ sp ∈ w.spaces, sp'.mm = sp.mm
  cache : w'.cache = w.cache
  shmems : w'.shmems = w.shmems
  files : w'.files = w.files
  free : w'.mem.free ⊆ w.mem.free

lemma entrySet_of (hs : w.spaces[i]? = some sp) (hsp : w'.spaces =
    w.spaces.set i { sp with pt := sp.pt.insert n e }) (hc : w'.cache = w.cache)
    (hsh : w'.shmems = w.shmems) (hf : w'.files = w.files) (hfree : w'.mem.free ⊆ w.mem.free) :
    EntrySet w w' i n e where
  entry j m := by
    have hw : w'.entry j m = (w.setSpace i { sp with pt := sp.pt.insert n e }).entry j m := by
      rw [entry, hsp]
      rfl
    rw [hw]
    rcases eq_or_ne j i with rfl | hj
    · rw [entry_setSpace hs]
      rcases eq_or_ne m n with rfl | hm
      · rw [if_pos ⟨rfl, rfl⟩]
        exact AList.lookup_insert _
      · rw [if_neg fun h => hm h.2, entry_of_space hs]
        exact AList.lookup_insert_ne hm
    · rw [if_neg fun h => hj h.1, entry_setSpace_ne hj]
  vmaOf := OnlyEntries.vmaOf (.inr ⟨sp, _, hs, hsp⟩)
  vmas sp' hsp' := by
    rw [hsp] at hsp'
    rcases mem_or_eq_of_mem_set hsp' with hmem | rfl
    · exact ⟨sp', hmem, rfl⟩
    · exact ⟨sp, mem_of_getElem? hs, rfl⟩
  cache := hc
  shmems := hsh
  files := hf
  free := hfree

namespace EntrySet

variable (hset : EntrySet w w' i n e)

include hset

lemma entry_self : w'.entry i n = some e := (hset.entry i n).trans (if_pos ⟨rfl, rfl⟩)

lemma entry_ne {j m : ℕ} (hne : ¬ (j = i ∧ m = n)) : w'.entry j m = w.entry j m :=
  (hset.entry j m).trans (if_neg hne)

lemma kind (j m : ℕ) : w'.kind j m = w.kind j m := by rw [World.kind, hset.vmaOf, World.kind]

lemma holds (f : ℕ) (h : Holder) : w'.Holds f h ↔ w.Holds f h :=
  holds_congr f h hset.cache hset.shmems

lemma entry_cases {j m : ℕ} {e' : Pte} (he : w'.entry j m = some e') :
    (j = i ∧ m = n) ∧ e' = e ∨ ¬ (j = i ∧ m = n) ∧ w.entry j m = some e' := by
  rcases Classical.em (j = i ∧ m = n) with ⟨rfl, rfl⟩ | hne
  · exact .inl ⟨⟨rfl, rfl⟩, some.inj (he.symm.trans hset.entry_self)⟩
  · exact .inr ⟨hne, (hset.entry_ne hne).symm.trans he⟩

lemma of_mapped {k : PageKind}
    (h : ∃ j m e', w'.entry j m = some e' ∧ w'.kind j m = k ∧ e'.frame = f) :
    (∃ j m e', w.entry j m = some e' ∧ w.kind j m = k ∧ e'.frame = f) ∨
      f = e.frame ∧ w.kind i n = k := by
  obtain ⟨j, m, e', he', hk, hf⟩ := h
  rw [hset.kind] at hk
  rcases hset.entry_cases he' with ⟨⟨rfl, rfl⟩, rfl⟩ | ⟨-, he'⟩
  · exact .inr ⟨hf.symm, hk⟩
  · exact .inl ⟨j, m, e', he', hk, hf⟩

lemma of_private (h : w'.Private f) : w.Private f ∨ f = e.frame ∧ w.kind i n = .priv := by
  rcases h with h | ⟨ino, idx, hc⟩
  · exact (hset.of_mapped h).imp_left .inl
  · exact .inl (.inr ⟨ino, idx, (hset.holds f _).mp hc⟩)

lemma of_public (h : w'.Public f) : w.Public f ∨ f = e.frame ∧ w.kind i n = .shared := by
  rcases h with h | ⟨o, idx, hc⟩
  · exact (hset.of_mapped h).imp_left .inl
  · exact .inl (.inr ⟨o, idx, (hset.holds f _).mp hc⟩)

end EntrySet

/-- **What an entry must satisfy**: its frame is of the kind of its page, and a writable page of
private memory has it alone. -/
structure Admits (w : World) (i n : ℕ) (e : Pte) : Prop where
  device : ∀ j m e', w.entry j m = some e' → w.kind j m = .device → e'.frame ≠ e.frame
  notPublic : w.kind i n ≠ .shared → ¬ w.Public e.frame
  notPrivate : w.kind i n ≠ .priv → ¬ w.Private e.frame
  held : w.kind i n = .priv → Writable e → ∀ h, ¬ w.Holds e.frame h
  only : w.kind i n = .priv → ∀ j m e', w.entry j m = some e' → w.kind j m = .priv →
    e'.frame = e.frame → (j = i ∧ m = n) ∨ ¬ Writable e' ∧ ¬ Writable e

lemma admits_new (hent : ∀ j m e', w.entry j m = some e' → e'.frame ≠ e.frame)
    (hheld : ∀ h, ¬ w.Holds e.frame h) : Admits w i n e where
  device j m e' he' _ := hent j m e' he'
  notPublic _ hp := hp.elim (fun ⟨j, m, e', he', _, hef⟩ => hent j m e' he' hef)
    fun ⟨_, _, hh⟩ => hheld _ hh
  notPrivate _ hp := hp.elim (fun ⟨j, m, e', he', _, hef⟩ => hent j m e' he' hef)
    fun ⟨_, _, hh⟩ => hheld _ hh
  held _ _ := hheld
  only _ j m e' he' _ hef := absurd hef (hent j m e' he')

lemma Isolated.setEntry (h : Isolated K w) (hset : EntrySet w w' i n e) (hfile : FileInv K w')
    (hfree : e.frame ∉ w'.mem.free) (hadm : Admits w i n e) : Isolated K w' where
  file := hfile
  vmas sp' hsp' := by
    obtain ⟨sp, hsp, hmm⟩ := hset.vmas sp' hsp'
    rw [hmm]
    exact h.vmas sp hsp
  backing sp' hsp' v hv := by
    obtain ⟨sp, hsp, hmm⟩ := hset.vmas sp' hsp'
    rw [hmm] at hv
    have hsh : ∀ o, w'.shmem o = w.shmem o := fun o => by rw [shmem, hset.shmems, shmem]
    simp only [hsh]
    exact h.backing sp hsp v hv
  device j m e' he' hk := by
    rw [hset.kind] at hk
    rcases hset.entry_cases he' with ⟨⟨rfl, rfl⟩, rfl⟩ | ⟨-, he'⟩
    · refine ⟨hfree, fun hp => ?_, fun hp => ?_⟩
      · exact (hset.of_private hp).elim (hadm.notPrivate (by simp [hk]))
          fun hp => by simp [hk] at hp
      · exact (hset.of_public hp).elim (hadm.notPublic (by simp [hk])) fun hp => by simp [hk] at hp
    · obtain ⟨hf, hpriv, hpub⟩ := h.device j m e' he' hk
      have hframe := hadm.device j m e' he' hk
      exact ⟨fun hf' => hf (hset.free hf'),
        fun hp => (hset.of_private hp).elim hpriv fun hp => hframe hp.1,
        fun hp => (hset.of_public hp).elim hpub fun hp => hframe hp.1⟩
  exclusive j m e' he' hk hw := by
    rw [hset.kind] at hk
    rcases hset.entry_cases he' with ⟨⟨rfl, rfl⟩, rfl⟩ | ⟨hne, he'⟩
    · refine ⟨fun hd hh => hadm.held hk hw hd ((hset.holds _ hd).mp hh), ?_⟩
      intro j' m' e' he' hk' hf
      rcases hset.entry_cases he' with ⟨heq, -⟩ | ⟨-, he'⟩
      · exact heq
      · rw [hset.kind] at hk'
        exact (hadm.only hk j' m' e' he' hk' hf).resolve_right fun hnw => hnw.2 hw
    · obtain ⟨hheld, honly⟩ := h.exclusive j m e' he' hk hw
      refine ⟨fun hd hh => hheld hd ((hset.holds _ hd).mp hh), ?_⟩
      intro j' m' e'' he'' hk'' hf
      rw [hset.kind] at hk''
      rcases hset.entry_cases he'' with ⟨⟨rfl, rfl⟩, rfl⟩ | ⟨-, he''⟩
      · exact absurd hw ((hadm.only hk'' j m e' he' hk hf.symm).resolve_left hne).1
      · exact honly j' m' e'' he'' hk'' hf
  apart f hpriv hpub := by
    rcases hset.of_private hpriv with hpriv | ⟨rfl, hk⟩
    · rcases hset.of_public hpub with hpub | ⟨rfl, hk⟩
      · exact h.apart f hpriv hpub
      · exact hadm.notPrivate (by simp [hk]) hpriv
    · rcases hset.of_public hpub with hpub | ⟨-, hk'⟩
      · exact hadm.notPublic (by simp [hk]) hpub
      · rw [hk] at hk'
        exact absurd hk' (by decide)

/-- Values stay if the entry shows what the page showed before. -/
lemma EntrySet.value (hset : EntrySet w w' i n e) (h : Isolated K w)
    (hb : ∀ f ∉ w.mem.free, w'.mem.bytes f = w.mem.bytes f)
    (hself : ∀ a, a / pageSize = n → (w.vmaOf i a).isSome →
      w.value i a = some (w'.mem.bytes e.frame (a % pageSize))) (j a : ℕ) :
    w'.value j a = w.value j a := by
  obtain ⟨held, hown⟩ := h.file.owned
  rcases Classical.em (j = i ∧ a / pageSize = n) with ⟨rfl, rfl⟩ | hne
  · cases hv : w.vmaOf j a with
    | none => rw [value, hset.vmaOf, hv, value, hv]; rfl
    | some v =>
      rw [hself a rfl (by simp [hv]), value, hset.vmaOf, hv, hset.entry_self]
      rfl
  · have hobj := objBytes_congr hset.shmems fun f o idx hh => hb f (hown.taken f _ hh)
    rw [World.value, hset.vmaOf, hset.entry_ne hne, World.value]
    refine congrArg (Option.bind _) (funext fun v => ?_)
    cases he : w.entry j (a / pageSize) with
    | some e' => exact congrArg some (congrFun (hb _ (h.entry_not_free he)) _)
    | none =>
      have hsh : w'.vmaShmem? v = w.vmaShmem? v := by
        simp only [vmaShmem?, shmem, hset.shmems]
      show w'.absentByte v a = w.absentByte v a
      simp only [absentByte, hset.files, hsh, hobj]

/-! ### A page that is missing -/

lemma not_writable_pteFlags (hw : hasFlag v.flags vmaW = false) :
    ¬ Writable ⟨f, mmVmaPteFlags v.flags⟩ := by
  show ¬ (mmVmaPteFlags v.flags &&& pageWritable != 0#64) = true
  rw [mmVmaPteFlags, hw]
  cases hasFlag v.flags vmaX <;> decide

/-- The frame that was found may be mapped. -/
lemma Found.admits (h : Isolated K w) (h1 : Isolated K w₁) (hr : Resolved w w₁)
    (hv : w.vmaOf i addr = some v) {page : ℕ} (hf : Found w w₁ v page f) :
    Admits w₁ i (addr / pageSize) ⟨f, mmVmaPteFlags v.flags⟩ := by
  have hk : w₁.kind i (addr / pageSize) = kindOf v := by rw [hr.kind, kind_of_vma h.vmas hv]
  cases hf with
  | fresh hsh hfree hheld =>
    have hent : ∀ j m e', w₁.entry j m = some e' → e'.frame ≠ f := fun j m e' he' hef =>
      h.entry_not_free ((hr.entry j m).symm.trans he') (hef.symm ▸ hfree)
    exact admits_new hent hheld
  | @clean ino idx hpriv hw hc =>
    have hp : w₁.Private f := .inr ⟨ino, idx, hc⟩
    have hnw : ¬ Writable ⟨f, mmVmaPteFlags v.flags⟩ := not_writable_pteFlags hw
    exact {
      device := fun j m e' he' hd hef => (h1.device j m e' he' hd).2.1 (hef.symm ▸ hp)
      notPublic := fun _ => h1.apart f hp
      notPrivate := fun hne => absurd (hk.trans hpriv) hne
      held := fun _ hw' => absurd hw' hnw
      only := fun _ j m e' he' hk' hef => .inr ⟨fun hw' =>
        (h1.exclusive j m e' he' hk' hw').1 (.cache ino idx) (hef.symm ▸ hc), hnw⟩ }
  | @object o hsh ho =>
    have hp : w₁.Public f := .inr ⟨o, objIdx v page, ho⟩
    have hk : w₁.kind i (addr / pageSize) = .shared := by
      rw [hk, kindOf_eq_shared, hsh]
      rfl
    exact {
      device := fun j m e' he' hd hef => (h1.device j m e' he' hd).2.2 (hef.symm ▸ hp)
      notPublic := fun hne => absurd hk hne
      notPrivate := fun _ hp' => h1.apart f hp' hp
      held := fun hk' => by rw [hk] at hk'; exact absurd hk' (by decide)
      only := fun hk' => by rw [hk] at hk'; exact absurd hk' (by decide) }

lemma Resolved.setTables (hr : Resolved w w₁) (ts : Outcomes) :
    Resolved w { w₁ with tables := ts } :=
  { hr with }

lemma FaultShowsOk.page {b : ℕ} (h : FaultShowsOk w i addr) (hv : w.vmaOf i addr = some v)
    (hvb : w.vmaOf i b = some v) (halign : alignDown b = alignDown addr) : FaultShowsOk w i b := by
  intro sp v' k hs hfind hk
  rw [vmaOf_of_space hs] at hv hvb
  obtain rfl := some.inj (hfind.symm.trans hvb)
  rw [halign]
  exact h sp v' k hs hv hk

section

variable (h : Isolated K w)
include h

/-- **A fault on a missing page** keeps processes apart, and no value changes. -/
lemma Isolated.faultMissing (hok : FaultShowsOk w i addr)
    (isWrite isIfetch : Bool) : Isolated K (w.faultMissing i addr isWrite isIfetch).2 ∧
      ∀ j a, (w.faultMissing i addr isWrite isIfetch).2.value j a = w.value j a := by
  have hmiss := faultMissing_missed w i addr isWrite isIfetch
  have hfile := (h.file.faultMissing hok isWrite isIfetch).1
  generalize (w.faultMissing i addr isWrite isIfetch).2 = w' at hmiss hfile
  cases hmiss with
  | refused => exact ⟨h, fun _ _ => rfl⟩
  | @noFrame sp v hs hv _ =>
    obtain ⟨hr, -⟩ := resolveFrame_resolved h ((vmaOf_of_space hs addr).trans hv) (alignDown addr)
    exact ⟨hr.isolated h hfile, hr.value h⟩
  | @dropped sp v f ts hs hv hf =>
    obtain ⟨hr, hfound⟩ := resolveFrame_resolved h ((vmaOf_of_space hs addr).trans hv)
      (alignDown addr)
    obtain ⟨held, hown⟩ := h.file.owned
    obtain ⟨leaked, hown1, -⟩ := hown.resolveFrame v (alignDown addr)
    rw [hf] at hown1
    have hr' := ((hfound f hf).refDec hr hown1).setTables ts
    exact ⟨hr'.isolated h hfile, hr'.value h⟩
  | @mapped sp v f ts hs hv hf hnone =>
    have hv' := (vmaOf_of_space hs addr).trans hv
    obtain ⟨hr, hfound⟩ := resolveFrame_resolved h hv' (alignDown addr)
    obtain ⟨h1, hframe⟩ := h.resolveFrame hv' hok
    have hs1 := (congrArg (·[i]?) hr.spaces).trans hs
    have hset : EntrySet (w.resolveFrame v (alignDown addr)).2
        ({ (w.resolveFrame v (alignDown addr)).2 with tables := ts }.setSpace i
          { sp with pt := sp.pt.insert (addr / pageSize) ⟨f, mmVmaPteFlags v.flags⟩ })
        i (addr / pageSize) ⟨f, mmVmaPteFlags v.flags⟩ :=
      entrySet_of hs1 rfl rfl rfl rfl fun _ => id
    have hadm := (hfound f hf).admits h h1 hr hv'
    refine ⟨h1.setEntry hset hfile (hframe f hf).1 hadm, fun j a => ?_⟩
    rw [← hr.value h]
    refine hset.value h1 (fun _ _ => rfl) (fun b hb hsome => ?_) j a
    -- the other bytes of the page lie in the same VMA
    obtain ⟨v', hvb⟩ := isSome_iff_exists.mp hsome
    rw [hr.vmaOf] at hvb
    have hsame := vmaOf_page h.vmas hvb
    rw [hb, vmaOf_page h.vmas hv'] at hsame
    cases hsame
    have halign : alignDown b = alignDown addr := by rw [alignDown, hb, alignDown]
    obtain ⟨-, hshow⟩ := h.resolveFrame hvb (hok.page hv' hvb halign)
    rw [halign] at hshow
    rw [value, hr.vmaOf, hvb, hr.entry, hb, entry_of_space hs, hnone, bind_some, hr.absentByte]
    exact (hshow f hf).2

/-! ### Copy on write -/

omit h in
lemma Owned.sole (h : Owned K w held) (hs : w.spaces[i]? = some sp)
    (hn : sp.pt.lookup n = some e) (hm : mmioPage sp.mm.vmas n = false)
    (hone : w.mem.refs e.frame = 1) : (∀ hd, ¬ w.Holds e.frame hd) ∧
      ∀ j m sp' e', w.spaces[j]? = some sp' → sp'.pt.lookup m = some e' →
        mmioPage sp'.mm.vmas m = false → e'.frame = e.frame → j = i ∧ m = n := by
  have hpos := owners_pos_of_lookup hs hn hm
  obtain ⟨hlt, hK⟩ := h.ram e.frame (Nat.add_pos_left hpos _)
  have hrefs := h.refs e.frame hlt hK
  -- without the entry the frame has no owner
  have hself : maps sp e.frame =
      maps { sp with pt := sp.pt.erase n } e.frame + 1 := by
    rw [maps, countP_erase hn, maps]
    simp [hm]
  have hset := owners_setSpace hs { sp with pt := sp.pt.erase n } e.frame
  have hzero : (w.setSpace i { sp with pt := sp.pt.erase n }).owners e.frame = 0 := by omega
  refine ⟨fun hd hh => ?_, fun j m sp' e' hs' hn' hm' hf => ?_⟩
  · have hh' : (w.setSpace i { sp with pt := sp.pt.erase n }).Holds e.frame hd :=
      (holds_congr e.frame hd).mpr hh
    have := owners_pos_of_holds hh'
    omega
  · by_contra hne
    have hlt := (List.getElem?_eq_some_iff.mp hs).1
    rcases eq_or_ne j i with rfl | hj
    · obtain rfl := some.inj (hs'.symm.trans hs)
      have hmn : m ≠ n := fun hmn => hne ⟨rfl, hmn⟩
      have := @owners_pos_of_lookup (w.setSpace j { sp' with pt := sp'.pt.erase n }) _ j m e'
        (getElem?_set_self hlt) ((AList.lookup_erase_ne hmn).trans hn') hm'
      rw [hf] at this
      omega
    · have := @owners_pos_of_lookup (w.setSpace i { sp with pt := sp.pt.erase n }) sp' j m e'
        ((getElem?_set_ne hj.symm).trans hs') hn' hm'
      rw [hf] at this
      omega

/-- **A write fault on a present page** keeps processes apart, and no value changes. -/
lemma Isolated.faultCow (addr : ℕ) : Isolated K (w.faultCow i addr).2 ∧
    ∀ j a, (w.faultCow i addr).2.value j a = w.value j a := by
  obtain ⟨held, hown⟩ := h.file.owned
  have hcow := faultCow_cowed w i addr
  have hown' := @Owned.faultCow K w held i hown (fun sp hs => h.vmas sp (mem_of_getElem? hs)) addr
  generalize (w.faultCow i addr).2 = w' at hcow hown'
  cases hcow with
  | same => exact ⟨h, fun _ _ => rfl⟩
  | noMem =>
    have hr := (quiet_picks w).resolved hown.taken
    exact ⟨hr.isolated h h.file.noMem, hr.value h⟩
  | @copied sp v e f hs hv hsh hmm hn hf hrc =>
    have he : w.entry i (addr / pageSize) = some e := (entry_of_space hs _).trans hn
    have hne : e.frame ≠ f := fun hef => h.entry_not_free he (hef.symm ▸ hf)
    obtain ⟨-, hbytes, -, hfree⟩ := refDec_spec (((w.taking f).mem).copyFrame f e.frame) e.frame
    have hrefs : (((w.taking f).mem).copyFrame f e.frame).refs e.frame ≠ 1 := by
      show update w.mem.refs f 1 e.frame ≠ 1
      rw [update_of_ne hne]
      omega
    have hset := @entrySet_of w ((((w.taking f).onMem (·.copyFrame f e.frame)).setSpace i
      { sp with pt := sp.pt.insert (addr / pageSize) ⟨f, mmVmaPteFlags v.flags⟩ }).refDec e.frame)
      i (addr / pageSize) sp ⟨f, mmVmaPteFlags v.flags⟩ hs rfl rfl rfl rfl fun g hg =>
        (hfree g hg).elim mem_of_mem_erase fun hg => absurd hg.2 hrefs
    have hold : ∀ g ≠ f, _ = w.mem.bytes g := fun g hg =>
      (congrFun hbytes g).trans (update_of_ne hg _ _)
    have hfile := h.file.write hf ⟨held, hown'⟩ rfl rfl hold
    have hself : f ∉ ((((w.taking f).mem).copyFrame f e.frame).refDec e.frame).free := fun hg =>
      (hfree f hg).elim (fun hg => notMem_erase f _ hg) fun hg => hne hg.1.symm
    have hadm := @admits_new w i (addr / pageSize) ⟨f, mmVmaPteFlags v.flags⟩
      (fun j m e' he' hef => h.entry_not_free he' (hef.symm ▸ hf))
      fun hd hh => hown.taken f hd hh hf
    refine ⟨h.setEntry hset hfile hself hadm, hset.value h ?_ ?_⟩
    · exact fun g hg => hold g fun hgf => hg (hgf.symm ▸ hf)
    · intro a ha hsome
      obtain ⟨v', hv'⟩ := isSome_iff_exists.mp hsome
      have hcopy := (congrFun hbytes f).trans (PhysMem.copyFrame_self _ f e.frame)
      rw [value, hv', bind_some, ha, he]
      exact congrArg some (congrFun hcopy (a % pageSize)).symm
  | @reused sp v e hs hv hsh hmm hn hrc =>
    have he : w.entry i (addr / pageSize) = some e := (entry_of_space hs _).trans hn
    have hk : w.kind i (addr / pageSize) = .priv := by
      rw [kind_of_vma h.vmas ((vmaOf_of_space hs addr).trans hv), kindOf_eq_priv]
      exact ⟨hsh, hmm⟩
    have hp : w.Private e.frame := .inl ⟨i, addr / pageSize, e, he, hk, rfl⟩
    have hnot : ∀ {j m sp'}, w.spaces[j]? = some sp' → w.kind j m = .priv →
        mmioPage sp'.mm.vmas m = false := by
      intro j m sp' hs' hk'
      rw [← Bool.not_eq_true, ← kind_eq_device h.vmas hs', hk']
      decide
    obtain ⟨hheld, honly⟩ := hown.sole hs hn (hnot hs hk) hrc
    have hset := @entrySet_of w (w.setSpace i { sp with
        pt := sp.pt.insert (addr / pageSize) ⟨e.frame, e.flags ||| pageWritable⟩ })
      i (addr / pageSize) sp ⟨e.frame, e.flags ||| pageWritable⟩ hs rfl rfl rfl rfl fun _ => id
    have hfile := h.file.congr ⟨held, hown'⟩
    have hadm : Admits w i (addr / pageSize) ⟨e.frame, e.flags ||| pageWritable⟩ := {
      device := fun j m e' he' hd hef => (h.device j m e' he' hd).2.1 (hef.symm ▸ hp)
      notPublic := fun _ => h.apart e.frame hp
      notPrivate := fun hne => absurd hk hne
      held := fun _ _ => hheld
      only := fun _ j m e' he' hk' hef => by
        obtain ⟨sp', hs', hn'⟩ := bind_eq_some_iff.mp he'
        exact .inl (honly j m sp' e' hs' hn' (hnot hs' hk') hef) }
    have hfree : e.frame ∉ w.mem.free := h.entry_not_free he
    refine ⟨h.setEntry hset hfile hfree hadm, hset.value h (fun _ _ => rfl) fun a ha hsome => ?_⟩
    obtain ⟨v', hv'⟩ := isSome_iff_exists.mp hsome
    rw [value, hv', bind_some, ha, he]
    rfl

/-! ### Accesses -/

/-- What holds of an access: its page may be missing and show a part of a file. -/
def AccessOk (w : World) (i addr : ℕ) : Prop :=
  w.entry i (addr / pageSize) = none → FaultShowsOk w i addr

/-- **An access** keeps processes apart, and no value changes before the store. -/
lemma Isolated.access (hok : AccessOk w i addr) (isWrite : Bool) :
    Isolated K (w.access i addr isWrite).2 ∧
      (∀ j a, (w.access i addr isWrite).2.value j a = w.value j a) ∧
      (∀ j a, (w.access i addr isWrite).2.vmaOf j a = w.vmaOf j a) ∧
      ∀ e, (w.access i addr isWrite).1 = some e →
        (w.access i addr isWrite).2.entry i (addr / pageSize) = some e := by
  rw [World.access]
  cases he : w.entry i (addr / pageSize) with
  | none =>
    dsimp only
    obtain ⟨hiso, hval⟩ := h.faultMissing (hok he) isWrite false
    have hvma := (faultMissing_onlyEntries w i addr isWrite false).vmaOf
    generalize w.faultMissing i addr isWrite false = r at hiso hval hvma
    obtain ⟨res, w₁⟩ := r
    cases res with
    | killed => exact ⟨hiso, hval, hvma, nofun⟩
    | resolved => exact ⟨hiso, hval, hvma, fun e he => he⟩
  | some e =>
    dsimp only
    split
    case isFalse =>
      refine ⟨h, fun _ _ => rfl, fun _ _ => rfl, ?_⟩
      rintro _ ⟨⟩
      exact he
    case isTrue =>
      obtain ⟨hiso, hval⟩ := @Isolated.faultCow K w i h addr
      have hvma := (faultCow_onlyEntries w i addr).vmaOf
      generalize w.faultCow i addr = r at hiso hval hvma
      obtain ⟨res, w₁⟩ := r
      cases res with
      | killed => exact ⟨hiso, hval, hvma, nofun⟩
      | resolved => exact ⟨hiso, hval, hvma, fun e he => he⟩

lemma Isolated.userRead (hok : AccessOk w i addr) :
    Isolated K (w.userRead i addr).2 ∧ (∀ j a, (w.userRead i addr).2.value j a = w.value j a) ∧
      (∀ j a, (w.userRead i addr).2.vmaOf j a = w.vmaOf j a) ∧
      ∀ b, (w.userRead i addr).1 = some b → (w.vmaOf i addr).isSome → w.value i addr = some b := by
  obtain ⟨hiso, hval, hvma, hent⟩ := h.access hok false
  rw [World.userRead]
  generalize w.access i addr false = r at hiso hval hvma hent
  obtain ⟨o, w₁⟩ := r
  cases o with
  | none => exact ⟨hiso, hval, hvma, nofun⟩
  | some e =>
    refine ⟨hiso, hval, hvma, fun b hb hsome => ?_⟩
    obtain ⟨v, hv⟩ := isSome_iff_exists.mp hsome
    rwa [← hval, value, hvma, hv, bind_some, hent e rfl]

/-- A store through an entry. -/
def stored (w : World) (e : Pte) (addr : ℕ) (b : UInt8) : World :=
  w.onMem (·.store e.frame (addr % pageSize) b)

/-- No cached page is written, and a private page is written for its process only. -/
lemma Isolated.frame_ne (he : w.entry i n = some e) (hw : Writable e) :
    (∀ ino idx, ¬ w.Holds e.frame (.cache ino idx)) ∧
      ∀ j m e', w.entry j m = some e' → w.kind j m = .priv → e'.frame = e.frame →
        j = i ∧ m = n := by
  cases hk : w.kind i n with
  | priv =>
    obtain ⟨hheld, honly⟩ := h.exclusive i n e he hk hw
    exact ⟨fun ino idx => hheld _, honly⟩
  | shared =>
    have hpub : w.Public e.frame := .inl ⟨i, n, e, he, hk, rfl⟩
    refine ⟨fun ino idx hc => h.apart _ (.inr ⟨ino, idx, hc⟩) hpub, ?_⟩
    exact fun j m e' he' hk' hef => absurd hpub (h.apart _ (.inl ⟨j, m, e', he', hk', hef⟩))
  | device =>
    have hpriv := (h.device i n e he hk).2.1
    refine ⟨fun ino idx hc => hpriv (.inr ⟨ino, idx, hc⟩), ?_⟩
    exact fun j m e' he' hk' hef => absurd (.inl ⟨j, m, e', he', hk', hef⟩) hpriv

lemma Isolated.stored (he : w.entry i n = some e) (hw : Writable e) (addr : ℕ)
    (b : UInt8) : Isolated K (w.stored e addr b) where
  __ := h
  file := by
    obtain ⟨held, hown⟩ := h.file.owned
    refine h.file.congr ⟨held, { hown with }⟩ fun c hc => ?_
    refine PhysMem.store_of_ne _ (fun hce => ?_) _ _
    exact (h.frame_ne he hw).1 c.ino c.pgIdx ⟨c, hc, rfl, rfl, hce⟩

/-- **A store** changes one byte of private memory at most: the one it is for. -/
lemma Isolated.stored_value (he : w.entry i (addr / pageSize) = some e)
    (hw : Writable e) (b : UInt8) {j a : ℕ} (hv : w.vmaOf j a = some v) (hk : kindOf v = .priv) :
    (w.stored e addr b).value j a = if j = i ∧ a = addr then some b else w.value j a := by
  have hkind := (kind_of_vma h.vmas hv).trans hk
  cases he' : w.entry j (a / pageSize) with
  | none =>
    rw [value_of_absent hv he', value_of_absent (w := w.stored e addr b) hv he']
    have hne : ¬ (j = i ∧ a = addr) := by
      rintro ⟨rfl, rfl⟩
      rw [he] at he'
      cases he'
    rw [if_neg hne]
    have hsh : v.shmem = none := (kindOf_eq_priv.mp hk).1
    simp only [absentByte, vmaShmem?, hsh, filter_none]
    rfl
  | some e' =>
    rw [value_of_entry hv he', value_of_entry (w := w.stored e addr b) hv he',
      show (w.stored e addr b).mem = w.mem.store e.frame (addr % pageSize) b from rfl]
    rcases eq_or_ne e'.frame e.frame with hef | hef
    · obtain ⟨rfl, hpage⟩ := (h.frame_ne he hw).2 j (a / pageSize) e' he' hkind hef
      rw [hef, PhysMem.store_self]
      have haddr : a % pageSize = addr % pageSize ↔ a = addr := by
        rw [pageSize] at hpage ⊢
        omega
      simp only [haddr, true_and]
      split <;> rfl
    · rw [PhysMem.store_of_ne _ hef, if_neg]
      rintro ⟨rfl, rfl⟩
      rw [he] at he'
      cases he'
      exact hef rfl

/-! ### Runs -/

/-- A load or a store by a process. -/
inductive UserOp where
  | read (i addr : ℕ)
  | write (i addr : ℕ) (b : UInt8)

namespace UserOp

/-- The state afterwards. -/
def apply (w : World) : UserOp → World
  | .read i addr => (w.userRead i addr).2
  | .write i addr b => (w.userWrite i addr b).2

/-- The byte that the access writes for a process at an address, if it does. -/
def wrote (w : World) (p a : ℕ) : UserOp → Option UInt8
  | .read _ _ => none
  | .write i addr b => if p = i ∧ a = addr ∧ (w.userWrite i addr b).1 = true then some b else none

/-- The access shows the file if its page is missing. -/
def Ok (w : World) : UserOp → Prop
  | .read i addr => AccessOk w i addr
  | .write i addr _ => AccessOk w i addr

end UserOp

/-- A run of accesses. -/
abbrev userRun : World → List UserOp → World := Transition.run UserOp.apply

/-- Every access of the run meets the condition. -/
abbrev UserRunOk : World → List UserOp → Prop := Transition.RunMeets UserOp.apply UserOp.Ok

/-- **The last byte a process wrote** at an address in a run. -/
def lastWritten (p a : ℕ) : World → List UserOp → Option UInt8
  | _, [] => none
  | w, op :: ops => (lastWritten p a (UserOp.apply w op) ops).or (UserOp.wrote w p a op)

omit h in
lemma userWrite_cases (w : World) (i addr : ℕ) (b : UInt8) :
    (w.userWrite i addr b = (false, (w.access i addr true).2)) ∨
      ∃ e, (w.access i addr true).1 = some e ∧ Writable e ∧
        w.userWrite i addr b = (true, ((w.access i addr true).2).stored e addr b) := by
  rw [userWrite]
  generalize w.access i addr true = r
  obtain ⟨o, w₁⟩ := r
  cases o with
  | none => exact .inl rfl
  | some e =>
    dsimp only
    split_ifs with hw
    · exact .inr ⟨e, rfl, hw, rfl⟩
    · exact .inl rfl

/-- **One access** keeps processes apart, and changes private memory as its process wants. -/
lemma Isolated.apply (op : UserOp) (hok : UserOp.Ok w op) : Isolated K (UserOp.apply w op) ∧
      (∀ j a, (UserOp.apply w op).vmaOf j a = w.vmaOf j a) ∧
      ∀ p a v, w.vmaOf p a = some v → kindOf v = .priv →
        (UserOp.apply w op).value p a = (UserOp.wrote w p a op).or (w.value p a) := by
  cases op with
  | read i addr =>
    obtain ⟨hiso, hval, hvma, -⟩ := h.userRead hok
    exact ⟨hiso, hvma, fun p a v _ _ => hval p a⟩
  | write i addr b =>
    obtain ⟨hiso, hval, hvma, hent⟩ := h.access hok true
    rcases userWrite_cases w i addr b with hr | ⟨e, he, hw, hr⟩
    · simp only [UserOp.apply, UserOp.wrote, hr]
      refine ⟨hiso, hvma, fun p a v _ _ => ?_⟩
      rw [if_neg (by simp), hval]
      rfl
    · simp only [UserOp.apply, UserOp.wrote, hr]
      refine ⟨hiso.stored (hent e he) hw addr b, hvma, fun p a v hv hk => ?_⟩
      rw [hiso.stored_value (hent e he) hw b ((hvma p a).trans hv) hk, hval]
      simp only [and_true]
      split <;> rfl

end

/-- **Private memory along a run**: what the process wrote last, or what was there. -/
lemma Isolated.run (ops : List UserOp) : ∀ {w : World}, Isolated K w → UserRunOk w ops →
    Isolated K (userRun w ops) ∧ (∀ j a, (userRun w ops).vmaOf j a = w.vmaOf j a) ∧
      ∀ p a v, w.vmaOf p a = some v → kindOf v = .priv →
        (userRun w ops).value p a = (lastWritten p a w ops).or (w.value p a) := by
  induction ops with
  | nil => exact fun h _ => ⟨h, fun _ _ => rfl, fun _ _ _ _ _ => rfl⟩
  | cons op ops ih =>
    intro w h hok
    obtain ⟨h1, hvma1, hval1⟩ := h.apply op hok.1
    obtain ⟨h2, hvma2, hval2⟩ := ih h1 hok.2
    refine ⟨h2, fun j a => (hvma2 j a).trans (hvma1 j a), fun p a v hv hk => ?_⟩
    calc (userRun w (op :: ops)).value p a
        = (lastWritten p a (UserOp.apply w op) ops).or ((UserOp.apply w op).value p a) :=
          hval2 p a v ((hvma1 p a).trans hv) hk
      _ = (lastWritten p a (UserOp.apply w op) ops).or
            ((UserOp.wrote w p a op).or (w.value p a)) := by rw [hval1 p a v hv hk]
      _ = (lastWritten p a w (op :: ops)).or (w.value p a) := (Option.or_assoc).symm

end World

end Makaos
