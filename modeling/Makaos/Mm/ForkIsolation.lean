import Makaos.Mm.ForkCopy

/-!
Fork isolation: parent and child share no private memory, and they share all shared memory.

* `Forked.isolated`: a fork keeps processes apart; `Forked.value_child`: the child starts with the
  values of the parent.
* `Twin`: a shared page shows parent and child the same frame.
* `fork_isolates`: the main result.
-/

namespace Makaos

open World Option List
variable {p o idx a j addr : ℕ}

namespace World

variable {K : Set ℕ} {w w₁ w' : World} {held : List ℕ} {f i n : ℕ} {sp : AddrSpace} {v : Vma}
  {e : Pte}

/-! ### A fork keeps processes apart -/

lemma kindOf_copyVma (v : Vma) : kindOf (copyVma v) = kindOf v := by
  rw [kindOf, copyVma_shmem, copyVma_flags, kindOf]

/-- Where an entry after a fork comes from: from one with the same frame before, writable in private
memory only if it is that one, or it is a new copy. -/
inductive Origin (w w' : World) (i j m : ℕ) (e' : Pte) : Prop
  | old {j₀ : ℕ} {e : Pte} : w.entry j₀ m = some e → e'.frame = e.frame →
      w.kind j₀ m = w'.kind j m → (j₀ = j ∨ j = w.spaces.length ∧ j₀ = i) →
      (Writable e' → w'.kind j m = .priv → j₀ = j ∧ e' = e) → Origin w w' i j m e'
  | new : j = w.spaces.length → e'.frame ∈ w.mem.free → w'.kind j m = .priv → Origin w w' i j m e'

namespace Forked

variable (hF : Forked w w' i)

include hF

lemma kind (m : ℕ) (hj : j ≠ w.spaces.length) : w'.kind j m = w.kind j m := by
  rw [World.kind, hF.vmaOf j _ hj, World.kind]

lemma kind_child (m : ℕ) : w'.kind w.spaces.length m = w.kind i m := by
  rw [World.kind, hF.vmaOf_child, World.kind]
  cases w.vmaOf i (m * pageSize) with
  | none => rfl
  | some v => exact kindOf_copyVma v

lemma parent_ne : i ≠ w.spaces.length := Nat.ne_of_lt hF.parent

lemma holds (f : ℕ) (h : Holder) : w'.Holds f h ↔ w.Holds f h :=
  holds_congr f h hF.cache hF.shmems

lemma origin {m : ℕ} {e' : Pte} (he' : w'.entry j m = some e') : Origin w w' i j m e' := by
  rcases eq_or_ne j w.spaces.length with rfl | hjl
  · -- the child
    cases he : w.entry i m with
    | none =>
      rw [(hF.missing m he).2] at he'
      nomatch he'
    | some e =>
      obtain ⟨s, d, -, hd, hcopy⟩ := hF.copied m e he
      cases hd.symm.trans he'
      have hk := hF.kind_child m
      cases hcopy with
      | kept hne =>
        exact .old he rfl hk.symm (.inr ⟨rfl, rfl⟩) fun _ hp => absurd (hk.symm.trans hp) hne
      | cow _ hf hw => exact .old he hf hk.symm (.inr ⟨rfl, rfl⟩) fun hw' => absurd hw' hw
      | copy hp hf _ _ => exact .new rfl hf (hk.trans hp)
  · have hk := hF.kind m hjl
    rcases eq_or_ne j i with rfl | hji
    · -- the parent
      cases he : w.entry j m with
      | none =>
        rw [(hF.missing m he).1] at he'
        nomatch he'
      | some e =>
        obtain ⟨s, d, hs, -, hcopy⟩ := hF.copied m e he
        cases hs.symm.trans he'
        cases hcopy with
        | kept _ | copy _ _ _ _ => exact .old he rfl hk.symm (.inl rfl) fun _ _ => ⟨rfl, rfl⟩
        | cow _ hf hw => exact .old he hf hk.symm (.inl rfl) fun hw' => absurd hw' hw
    · rw [hF.entry j m hji hjl] at he'
      exact .old he' rfl hk.symm (.inl rfl) fun _ _ => ⟨rfl, rfl⟩

lemma of_private (h : w'.Private f) : w.Private f ∨ f ∈ w.mem.free := by
  rcases h with ⟨j, m, e', he', hk, rfl⟩ | ⟨ino, idx, hc⟩
  · cases hF.origin he' with
    | old he hf hk' _ _ => exact .inl (.inl ⟨_, m, _, he, hk'.trans hk, hf.symm⟩)
    | new _ hfree _ => exact .inr hfree
  · exact .inl (.inr ⟨ino, idx, (hF.holds f _).mp hc⟩)

lemma of_public (h : w'.Public f) : w.Public f := by
  rcases h with ⟨j, m, e', he', hk, rfl⟩ | ⟨o, idx, ho⟩
  · cases hF.origin he' with
    | old he hf hk' _ _ => exact .inl ⟨_, m, _, he, hk'.trans hk, hf.symm⟩
    | new _ _ hp =>
      rw [hk] at hp
      exact absurd hp (by decide)
  · exact .inr ⟨o, idx, (hF.holds f _).mp ho⟩

/-- **A fork** keeps processes apart. -/
lemma isolated (h : Isolated K w) (hown : ∃ held, Owned K w' held)
    (hvmas : ∀ sp ∈ w'.spaces, VmasOk sp.mm.vmas) : Isolated K w' where
  file := h.file.congr hown (fun c hc => hF.bytes _ (h.file.not_free hc))
    (fun c hc => ⟨c, hF.cache ▸ hc, rfl, rfl, rfl⟩) hF.files
  vmas := hvmas
  backing sp' hsp' v' hv' := by
    obtain ⟨sp, hsp, hcopy⟩ := hF.vmas sp' hsp'
    have hsh : ∀ o, w'.shmem o = w.shmem o := fun o => by rw [shmem, hF.shmems, shmem]
    simp only [hsh]
    rcases hcopy v' hv' with hv | ⟨v, hv, rfl⟩
    · exact h.backing sp hsp v' hv
    · simp only [copyVma_shmem, copyVma_flags, vmaFile?, copyVma_file]
      exact h.backing sp hsp v hv
  device j m e' he' hk := by
    cases hF.origin he' with
    | old he hf hk' _ _ =>
      obtain ⟨hfree, hpriv, hpub⟩ := h.device _ m _ he (hk'.trans hk)
      rw [hf]
      exact ⟨fun hf' => hfree (hF.free hf'),
        fun hp => (hF.of_private hp).elim hpriv hfree, fun hp => hpub (hF.of_public hp)⟩
    | new _ _ hp =>
      rw [hk] at hp
      exact absurd hp (by decide)
  exclusive j m e' he' hk hw := by
    obtain ⟨held, howned⟩ := h.file.owned
    cases hF.origin he' with
    | new hjl hfree _ =>
      refine ⟨fun hd hh => howned.taken _ hd ((hF.holds _ hd).mp hh) hfree, ?_⟩
      intro j' m' e'' he'' hk'' hf
      cases hF.origin he'' with
      | old he hf' _ _ _ => exact absurd (hf' ▸ hf ▸ hfree) (h.entry_not_free he)
      | new hjl' _ _ =>
        subst hjl hjl'
        exact ⟨rfl, (hF.fresh m m' e' e'' he' he'' hf.symm hfree).symm⟩
    | @old j0 e he hf hk' _ hself =>
      obtain ⟨rfl, rfl⟩ := hself hw hk
      have hpriv := hk'.trans hk
      obtain ⟨hheld, honly⟩ := h.exclusive j0 m e' he hpriv hw
      refine ⟨fun hd hh => hheld hd ((hF.holds _ hd).mp hh), ?_⟩
      intro j' m' e'' he'' hk'' hf''
      cases hF.origin he'' with
      | new _ hfree _ => exact absurd (hf'' ▸ hfree) (h.entry_not_free he)
      | @old j1 e1 he1 hf1 hk1 hj1 _ =>
        obtain ⟨rfl, rfl⟩ := honly j1 m' e1 he1 (hk1.trans hk'') (hf1.symm.trans hf'')
        rcases hj1 with rfl | ⟨rfl, rfl⟩
        · exact ⟨rfl, rfl⟩
        · -- the child's copy of a page that stays writable has a new frame
          obtain ⟨s, d, hs, hd, hcopy⟩ := hF.copied m' e' he
          cases hs.symm.trans he'
          cases hd.symm.trans he''
          cases hcopy with
          | kept hne => exact absurd hpriv hne
          | cow _ _ hnw => exact absurd hw hnw
          | copy _ hfree _ _ => exact absurd (hf'' ▸ hfree) (h.entry_not_free he)
  apart f hpriv hpub := by
    obtain ⟨held, howned⟩ := h.file.owned
    have hpub := hF.of_public hpub
    rcases hF.of_private hpriv with hpriv | hfree
    · exact h.apart f hpriv hpub
    · rcases hpub with ⟨j, m, e', he', -, rfl⟩ | ⟨o, idx, ho⟩
      · exact h.entry_not_free he' hfree
      · exact howned.taken f _ ho hfree

lemma absentByte (h : Isolated K w) (v : Vma) (a : ℕ) : w'.absentByte v a = w.absentByte v a := by
  obtain ⟨held, howned⟩ := h.file.owned
  have hobj := objBytes_congr hF.shmems fun f o idx hh => hF.bytes f (howned.taken f _ hh)
  have hsh : w'.vmaShmem? v = w.vmaShmem? v := by simp only [vmaShmem?, shmem, hF.shmems]
  simp only [World.absentByte, hF.files, hsh, hobj]

lemma value (h : Isolated K w) (hj : j ≠ w.spaces.length) (a : ℕ) : w'.value j a = w.value j a := by
  rw [World.value, hF.vmaOf j a hj, World.value]
  refine congrArg (Option.bind _) (funext fun v => ?_)
  cases he : w.entry j (a / pageSize) with
  | none =>
    have he' : w'.entry j (a / pageSize) = none := by
      rcases eq_or_ne j i with rfl | hji
      · exact (hF.missing _ he).1
      · rw [hF.entry j _ hji hj, he]
    rw [he']
    exact hF.absentByte h v a
  | some e =>
    have hframe : ∃ s, w'.entry j (a / pageSize) = some s ∧ s.frame = e.frame := by
      rcases eq_or_ne j i with rfl | hji
      · obtain ⟨s, d, hs, -, hcopy⟩ := hF.copied _ e he
        cases hcopy with
        | kept _ | copy _ _ _ _ => exact ⟨e, hs, rfl⟩
        | cow _ hf _ => exact ⟨s, hs, hf⟩
      · exact ⟨e, by rw [hF.entry j _ hji hj, he], rfl⟩
    obtain ⟨s, hs, hsf⟩ := hframe
    rw [hs]
    dsimp only
    rw [hsf, hF.bytes _ (h.entry_not_free he)]

omit hF in
lemma absentByte_copyVma (w : World) (v : Vma) (a : ℕ) :
    w.absentByte (copyVma v) a = w.absentByte v a := by
  have hfile : vmaFile? (copyVma v) = vmaFile? v := by simp [vmaFile?]
  have hsh : w.vmaShmem? (copyVma v) = w.vmaShmem? v := by simp [vmaShmem?]
  rw [World.absentByte, hfile, hsh, World.absentByte]
  cases hk : vmaFile? v with
  | some k =>
    have hsome : v.file.isSome := by
      rw [vmaFile?] at hk
      obtain ⟨-, hk⟩ := ite_none_right_eq_some.mp hk
      simp [hk]
    dsimp only
    rw [(copyVma_fileOff hsome).1, (copyVma_fileOff hsome).2, copyVma_start]
  | none =>
    dsimp only
    cases ho : w.vmaShmem? v with
    | none => rfl
    | some o =>
      have hsome : v.shmem.isSome := by simp [(filter_eq_some_iff.mp ho).1]
      dsimp only
      rw [objIdx, copyVma_start, copyVma_shmemPgoff hsome, objIdx]

/-- **The child starts with the values of the parent.** -/
lemma value_child (h : Isolated K w) (a : ℕ) : w'.value w.spaces.length a = w.value i a := by
  rw [World.value, hF.vmaOf_child, World.value]
  cases w.vmaOf i a with
  | none => rfl
  | some v =>
    dsimp only [map_some, bind_some]
    cases he : w.entry i (a / pageSize) with
    | none =>
      rw [(hF.missing _ he).2]
      exact (hF.absentByte h _ a).trans (absentByte_copyVma w v a)
    | some e =>
      have hused := hF.bytes _ (h.entry_not_free he)
      obtain ⟨s, d, -, hd, hcopy⟩ := hF.copied _ e he
      rw [hd]
      dsimp only
      cases hcopy with
      | kept _ => rw [hused]
      | cow _ hf _ => rw [hf, hused]
      | copy _ _ _ hb => rw [hb]

end Forked

/-! ### Shared pages -/

/-- **A shared page of two processes**: both map one frame, or each of them maps the frame of the
object or nothing yet. -/
def Twin (w : World) (i j n o idx : ℕ) : Prop :=
  (∃ e e', w.entry i n = some e ∧ w.entry j n = some e' ∧ e'.frame = e.frame) ∨
    ∀ p, p = i ∨ p = j → ∀ e, w.entry p n = some e → w.objPage o idx = some (some e.frame)

/-- What an access leaves of a shared page: its entry, the page of the object, and a new entry maps
that page. -/
structure SharedStep (w w' : World) (p n o idx : ℕ) : Prop where
  entry : ∀ e, w.entry p n = some e → w'.entry p n = some e
  page : ∀ f, w.objPage o idx = some (some f) → w'.objPage o idx = some (some f)
  new : ∀ e, w.entry p n = none → w'.entry p n = some e → w'.objPage o idx = some (some e.frame)

lemma SharedStep.of_eq (he : w'.entry p n = w.entry p n)
    (hp : ∀ f, w.objPage o idx = some (some f) → w'.objPage o idx = some (some f)) :
    SharedStep w w' p n o idx :=
  ⟨fun e h => he.trans h, hp, fun e hn hs => by rw [he, hn] at hs; nomatch hs⟩

lemma Twin.step (h : Twin w i j n o idx) (hi : SharedStep w w' i n o idx)
    (hj : SharedStep w w' j n o idx) : Twin w' i j n o idx := by
  rcases h with ⟨e, e', he, he', hf⟩ | hall
  · exact .inl ⟨e, e', hi.entry e he, hj.entry e' he', hf⟩
  · refine .inr fun p hp e he => ?_
    have hstep : SharedStep w w' p n o idx := by
      rcases hp with rfl | rfl
      · exact hi
      · exact hj
    cases hold : w.entry p n with
    | none => exact hstep.new e hold he
    | some e0 =>
      obtain rfl := some.inj ((hstep.entry e0 hold).symm.trans he)
      exact hstep.page _ (hall p hp e0 hold)

/-- The page lies in a VMA with an object. -/
def SharedPage (w : World) (p n o idx : ℕ) : Prop :=
  ∃ v, w.vmaOf p (n * pageSize) = some v ∧ v.shmem = some o ∧ idx = objIdx v (n * pageSize)

lemma Resolved.objPage (hr : Resolved w w₁) (ht : w.Taken) (h : w.objPage o idx = some (some f)) :
    w₁.objPage o idx = some (some f) := by
  rw [← holds_object_iff] at h ⊢
  exact (hr.holds f (ht f _ h) _).mpr h

section

variable (h : Isolated K w)
include h

lemma faultMissing_shared {addr p o idx : ℕ} (hp : SharedPage w p n o idx)
    (isWrite isIfetch : Bool) :
    SharedStep w (w.faultMissing i addr isWrite isIfetch).2 p n o idx := by
  obtain ⟨held, howned⟩ := h.file.owned
  have hmiss := faultMissing_missed w i addr isWrite isIfetch
  generalize (w.faultMissing i addr isWrite isIfetch).2 = w' at hmiss
  cases hmiss with
  | refused => exact .of_eq rfl fun _ => id
  | @noFrame sp v hs hv _ | @dropped sp v f ts hs hv hf =>
    obtain ⟨hr, -⟩ := resolveFrame_resolved h ((vmaOf_of_space hs addr).trans hv) (alignDown addr)
    exact .of_eq (hr.entry p n) fun f => hr.objPage howned.taken
  | @mapped sp v f ts hs hv hf hnone =>
    have hv' := (vmaOf_of_space hs addr).trans hv
    obtain ⟨hr, hfound⟩ := resolveFrame_resolved h hv' (alignDown addr)
    have hs1 := (congrArg (·[i]?) hr.spaces).trans hs
    have hset := @entrySet_of (w.resolveFrame v (alignDown addr)).2
      ({ (w.resolveFrame v (alignDown addr)).2 with tables := ts }.setSpace i
        { sp with pt := sp.pt.insert (addr / pageSize) ⟨f, mmVmaPteFlags v.flags⟩ })
      i (addr / pageSize) sp ⟨f, mmVmaPteFlags v.flags⟩ hs1 rfl rfl rfl rfl fun _ => id
    rcases Classical.em (p = i ∧ n = addr / pageSize) with ⟨rfl, rfl⟩ | hne
    · refine ⟨fun e he => ?_, fun g => hr.objPage howned.taken, fun e _ he => ?_⟩
      · rw [entry_of_space hs, hnone] at he
        nomatch he
      · obtain rfl := some.inj (hset.entry_self.symm.trans he)
        obtain ⟨v1, hv1, hsh, rfl⟩ := hp
        obtain rfl := some.inj (hv1.symm.trans (vmaOf_page h.vmas hv'))
        have hk : kindOf v1 = .shared := by rw [kindOf_eq_shared, hsh]; rfl
        cases hfound f hf with
        | fresh hne _ _ => exact absurd hk hne
        | clean hpriv _ _ => exact absurd (hk.symm.trans hpriv) (by decide)
        | @object o' ho' hheld =>
          obtain rfl := some.inj (hsh.symm.trans ho')
          exact (holds_object_iff _ _).mp hheld
    · exact .of_eq ((hset.entry_ne hne).trans (hr.entry p n)) fun g => hr.objPage howned.taken

lemma faultCow_shared {addr p o idx : ℕ} (hp : SharedPage w p n o idx) :
    SharedStep w (w.faultCow i addr).2 p n o idx := by
  -- a page without an object is another page
  have hkept : ∀ {sp v e}, w.spaces[i]? = some sp → mmVmaFind sp.mm.vmas addr = some v →
      v.shmem = none →
      (w.setSpace i { sp with pt := sp.pt.insert (addr / pageSize) e }).entry p n =
        w.entry p n := by
    intro sp v e hs hv hsh
    rcases eq_or_ne p i with rfl | hpi
    · rw [entry_setSpace hs, entry_of_space hs]
      refine AList.lookup_insert_ne fun hn => ?_
      subst hn
      obtain ⟨v1, hv1, hsh1, -⟩ := hp
      have hpage := vmaOf_page h.vmas ((vmaOf_of_space hs addr).trans hv)
      cases hv1.symm.trans hpage
      rw [hsh] at hsh1
      nomatch hsh1
    · exact entry_setSpace_ne hpi n _
  have hcow := faultCow_cowed w i addr
  generalize (w.faultCow i addr).2 = w' at hcow
  cases hcow with
  | same | noMem => exact .of_eq rfl fun _ => id
  | @copied sp v e f hs hv hsh _ _ _ _ =>
    exact .of_eq (hkept hs hv hsh) fun _ => id
  | @reused sp v e hs hv hsh _ _ _ =>
    exact .of_eq (hkept hs hv hsh) fun _ => id

lemma access_shared {p o idx : ℕ} (hp : SharedPage w p n o idx) (addr : ℕ)
    (isWrite : Bool) : SharedStep w (w.access i addr isWrite).2 p n o idx := by
  rw [access]
  cases w.entry i (addr / pageSize) with
  | none =>
    have hstep := @faultMissing_shared K w i n h addr p o idx hp isWrite false
    dsimp only
    generalize w.faultMissing i addr isWrite false = r at hstep
    obtain ⟨res, w₁⟩ := r
    cases res <;> exact hstep
  | some e =>
    dsimp only
    split
    case isFalse => exact .of_eq rfl fun _ => id
    case isTrue =>
      have hstep := @faultCow_shared K w i n h addr p o idx hp
      generalize w.faultCow i addr = r at hstep
      obtain ⟨res, w₁⟩ := r
      cases res <;> exact hstep

lemma apply_shared (hp : SharedPage w p n o idx) (op : UserOp) :
    SharedStep w (UserOp.apply w op) p n o idx := by
  cases op with
  | read i addr =>
    have hstep := @access_shared K w i n h p o idx hp addr false
    rw [UserOp.apply, userRead]
    generalize w.access i addr false = r at hstep
    obtain ⟨e, w₁⟩ := r
    cases e <;> exact hstep
  | write i addr b =>
    have hstep := @access_shared K w i n h p o idx hp addr true
    rw [UserOp.apply]
    rcases userWrite_cases w i addr b with hr | ⟨e, -, -, hr⟩
    · rwa [hr]
    · rw [hr]
      exact ⟨hstep.entry, hstep.page, hstep.new⟩

omit h in
/-- **Shared pages along a run.** -/
lemma Twin.run (ops : List UserOp) : ∀ {w : World} {i j n o idx : ℕ}, Isolated K w →
    UserRunOk w ops → SharedPage w i n o idx → SharedPage w j n o idx → Twin w i j n o idx →
    Twin (userRun w ops) i j n o idx := by
  induction ops with
  | nil => exact fun _ _ _ _ ht => ht
  | cons op ops ih =>
    intro w i j n o idx h hok hi hj ht
    obtain ⟨h1, hvma, -⟩ := h.apply op hok.1
    have hpage : ∀ {p}, SharedPage w p n o idx → SharedPage (UserOp.apply w op) p n o idx := by
      rintro p ⟨v, hv, hsh, hidx⟩
      exact ⟨v, (hvma p _).trans hv, hsh, hidx⟩
    exact ih h1 hok.2 (hpage hi) (hpage hj) (ht.step (apply_shared h hi op) (apply_shared h hj op))

/-- A page that maps what the object has shows what the object shows. -/
lemma value_of_object (hv : w.vmaOf p a = some v) (ho : v.shmem = some o)
    (hmap : ∀ e, w.entry p (a / pageSize) = some e →
      w.objPage o (objIdx v (alignDown a)) = some (some e.frame)) :
    w.value p a = w.absentByte v a := by
  obtain ⟨sp, hs, hfind⟩ := bind_eq_some_iff.mp hv
  obtain ⟨hsh, -⟩ := h.backing sp (mem_of_getElem? hs) v (mem_of_find?_eq_some hfind)
  have hobj : w.vmaShmem? v = some o := by
    rw [vmaShmem?, ho, filter_some, if_pos (hsh o ho).2]
  rw [value, hv, bind_some]
  cases he : w.entry p (a / pageSize) with
  | none => rfl
  | some e =>
    rw [absentByte, (hsh o ho).1]
    dsimp only
    rw [hobj]
    dsimp only
    rw [objBytes, hmap e he]
    rfl

/-- **Two processes see the same byte** of a shared page. -/
lemma Twin.value (hi : w.vmaOf i a = some v)
    (hj : w.vmaOf j a = some (copyVma v)) (ho : v.shmem = some o)
    (ht : Twin w i j (a / pageSize) o (objIdx v (alignDown a))) : w.value i a = w.value j a := by
  rcases ht with ⟨e, e', he, he', hf⟩ | hall
  · rw [World.value, hi, bind_some, he, World.value, hj, bind_some, he']
    dsimp only
    rw [hf]
  · have hidx : objIdx (copyVma v) (alignDown a) = objIdx v (alignDown a) := by
      rw [objIdx, copyVma_start, copyVma_shmemPgoff (by simp [ho]), objIdx]
    calc w.value i a = w.absentByte v a := value_of_object h hi ho (hall i (.inl rfl))
      _ = w.absentByte (copyVma v) a := (Forked.absentByte_copyVma w v a).symm
      _ = w.value j a := by
          refine (value_of_object h hj ((copyVma_shmem v).trans ho) fun e he => ?_).symm
          rw [hidx]
          exact hall j (.inr rfl) e he

lemma userWrite_value {b : UInt8} (hok : AccessOk w p a) (hv : (w.vmaOf p a).isSome)
    (hw : (w.userWrite p a b).1 = true) : (w.userWrite p a b).2.value p a = some b := by
  obtain ⟨-, -, hvma, hent⟩ := h.access hok true
  obtain ⟨v, hv⟩ := isSome_iff_exists.mp hv
  rcases userWrite_cases w p a b with hr | ⟨e, he, -, hr⟩
  · rw [hr] at hw
    cases hw
  · rw [hr]
    refine (value_of_entry (w := (w.access p a true).2.stored e a b) ((hvma p a).trans hv)
      (hent e he)).trans ?_
    exact congrArg some ((PhysMem.store_self _ _ _ b _).trans (if_pos rfl))

/-! ### Reads that are served -/

/-- The page is there, or there is memory for it and something to show. -/
def Served (w : World) (p a : ℕ) : Prop :=
  (w.entry p (a / pageSize)).isSome ∨
    Ample 1 w ∧ ∃ v, w.vmaOf p a = some v ∧ (w.faultPage v (alignDown a)).isSome

omit h in
lemma faultMissing_alignDown (h : ∀ sp ∈ w.spaces, VmasOk sp.mm.vmas) (hv : w.vmaOf i addr = some v)
    (isWrite isIfetch : Bool) : w.faultMissing i addr isWrite isIfetch =
      w.faultMissing i (alignDown addr) isWrite isIfetch := by
  obtain ⟨sp, hs, hfind⟩ := bind_eq_some_iff.mp hv
  have hpage := (h sp (mem_of_getElem? hs)).find_page hfind
  have halign : alignDown (alignDown addr) = alignDown addr :=
    alignDown_eq_self (pageAligned_alignDown addr)
  rw [faultMissing, faultMissing, hs, halign]
  dsimp only
  rw [hfind, show mmVmaFind sp.mm.vmas (alignDown addr) = some v from hpage]

omit h in
lemma faultMissing_resolved {isWrite isIfetch : Bool} (hnone : w.entry i (addr / pageSize) = none)
    (he : (w.faultMissing i addr isWrite isIfetch).2.entry i (addr / pageSize) = some e) :
    (w.faultMissing i addr isWrite isIfetch).1 = .resolved := by
  rw [faultMissing] at he ⊢
  cases hs : w.spaces[i]? with
  | none =>
    rw [hs] at he
    rw [hnone] at he
    cases he
  | some sp =>
    rw [hs] at he
    dsimp only at he ⊢
    cases hv : mmVmaFind sp.mm.vmas addr with
    | none =>
      rw [hv, hnone] at he
      cases he
    | some v =>
      rw [hv] at he
      dsimp only at he ⊢
      split at he
      · exact absurd (hnone.symm.trans he) (by simp)
      next hw =>
        rw [if_neg hw]
        split at he
        · exact absurd (hnone.symm.trans he) (by simp)
        next hx =>
          rw [if_neg hx]
          have hsp := resolveFrame_spaces w v (alignDown addr)
          generalize w.resolveFrame v (alignDown addr) = r at he hsp ⊢
          obtain ⟨o, w₁⟩ := r
          have hnone1 : w₁.entry i (addr / pageSize) = none := by
            rwa [entry, show w₁.spaces = w.spaces from hsp]
          cases o with
          | none => exact absurd (hnone1.symm.trans he) (by simp)
          | some f =>
            dsimp only at he ⊢
            rw [install] at he ⊢
            split at he
            next hp => rw [if_pos hp]
            next hp =>
              rw [if_neg hp]
              rw [mapPage] at he ⊢
              cases ht : w₁.tables.next with
              | mk ok ts =>
                rw [ht] at he
                cases ok with
                | false => exact absurd (hnone1.symm.trans he) (by simp)
                | true => rfl

lemma userRead_served (hs : Served w p a) : (w.userRead p a).1.isSome := by
  rw [userRead, access]
  cases he : w.entry p (a / pageSize) with
  | some e => simp
  | none =>
    obtain ⟨hample, v, hv, hpage⟩ := hs.resolve_left (by simp [he])
    obtain ⟨sp, hsp, hfind⟩ := bind_eq_some_iff.mp hv
    obtain ⟨held, hown⟩ := h.file.owned
    have hspec := @faultMissing_spec K w held p sp v hown (alignDown a) (pageAligned_alignDown a)
      hsp ((h.vmas sp (mem_of_getElem? hsp)).find_page hfind)
      (by rw [alignDown_div, ← entry_of_space hsp]; exact he) false false
      ⟨by simp, by simp⟩ hample.frames hample.kmalloc hample.reads hample.tables
    obtain ⟨⟨g, shared⟩, hg⟩ := isSome_iff_exists.mp hpage
    rw [hg] at hspec
    obtain ⟨f, hf, -⟩ := hspec
    rw [alignDown_div, ← faultMissing_alignDown h.vmas hv] at hf
    have hres := faultMissing_resolved he hf
    dsimp only
    generalize w.faultMissing p a false false = r at hf hres
    obtain ⟨res, w₁⟩ := r
    subst hres
    dsimp only at hf ⊢
    rw [hf]
    rfl

/-! ### Parent and child -/

lemma Isolated.fork (hfork : (w.fork i).1 = true) :
    Isolated K (w.fork i).2 ∧ Forked w (w.fork i).2 i := by
  obtain ⟨held, hown⟩ := h.file.owned
  have hF := fork_forked h hfork
  have hown' : Owned K (w.fork i).2 held :=
    hown.fork fun sp hs => ⟨h.vmas sp (mem_of_getElem? hs), .inl hfork⟩
  exact ⟨hF.isolated h ⟨held, hown'⟩ (fork_vmas h.vmas hown), hF⟩

lemma Isolated.accessOk_shared (hv : w.vmaOf p a = some v)
    (hk : kindOf v = .shared) : AccessOk w p a := by
  intro _ sp v' k hs hfind hfile
  have hpriv := (h.kindOf_backing ((vmaOf_of_space hs a).trans hfind)).1 k hfile
  cases ((vmaOf_of_space hs a).trans hfind).symm.trans hv
  rw [hk] at hpriv
  exact absurd hpriv (by decide)

lemma shared_value (hfork : (w.fork i).1 = true) {ops : List UserOp}
    (hok : UserRunOk (w.fork i).2 ops) (hv : w.vmaOf i a = some v) (hk : kindOf v = .shared) {q : ℕ}
    (hp : p = i ∨ p = w.spaces.length) (hq : q = i ∨ q = w.spaces.length) :
    (userRun (w.fork i).2 ops).value p a = (userRun (w.fork i).2 ops).value q a := by
  obtain ⟨h', hF⟩ := h.fork hfork
  obtain ⟨hrun, hvma, -⟩ := h'.run ops hok
  obtain ⟨o, ho⟩ := isSome_iff_exists.mp (kindOf_eq_shared.mp hk)
  have hvi : (w.fork i).2.vmaOf i a = some v := (hF.vmaOf i a hF.parent_ne).trans hv
  have hvc : (w.fork i).2.vmaOf w.spaces.length a = some (copyVma v) := by
    rw [hF.vmaOf_child, hv]
    rfl
  have hpi : SharedPage (w.fork i).2 i (a / pageSize) o (objIdx v (alignDown a)) :=
    ⟨v, vmaOf_page h'.vmas hvi, ho, rfl⟩
  have hpc : SharedPage (w.fork i).2 w.spaces.length (a / pageSize) o (objIdx v (alignDown a)) := by
    refine ⟨copyVma v, vmaOf_page h'.vmas hvc, (copyVma_shmem v).trans ho, ?_⟩
    rw [objIdx, objIdx, copyVma_start, copyVma_shmemPgoff (by simp [ho])]
    rfl
  -- at the fork both map the same frame, or nothing
  have htwin : Twin (w.fork i).2 i w.spaces.length (a / pageSize) o (objIdx v (alignDown a)) := by
    cases he : w.entry i (a / pageSize) with
    | none =>
      obtain ⟨hi, hc⟩ := hF.missing _ he
      refine .inr fun p hp e hpe => ?_
      rcases hp with rfl | rfl
      · exact absurd (hi.symm.trans hpe) (by simp)
      · exact absurd (hc.symm.trans hpe) (by simp)
    | some e =>
      obtain ⟨s, d, hs, hd, hcopy⟩ := hF.copied _ e he
      have hkind := (kind_of_vma h.vmas hv).trans hk
      rw [hkind] at hcopy
      cases hcopy with
      | kept _ => exact .inl ⟨e, e, hs, hd, rfl⟩
      | cow hpriv _ _ | copy hpriv _ _ _ => exact absurd hpriv (by decide)
  have hval := (Twin.run ops h' hok hpi hpc htwin).value hrun ((hvma i a).trans hvi)
    ((hvma _ a).trans hvc) ho
  rcases hp with rfl | rfl <;> rcases hq with rfl | rfl
  · rfl
  · exact hval
  · exact hval.symm
  · rfl

end

/-- **Fork isolation.**  After a fork and any run of loads and stores, a load of a private byte by
the parent or the child gives what that process wrote last, or the value at the fork; a shared byte
is the same for both, and what one of them stores the other loads.  A load is served if the page is
there or can be made. -/
theorem fork_isolates {K : Set ℕ} {w : World} {i : ℕ} (h : Isolated K w)
    (hfork : (w.fork i).1 = true) (ops : List UserOp) (hok : UserRunOk (w.fork i).2 ops)
    {a : ℕ} {v : Vma} (hv : w.vmaOf i a = some v) {p : ℕ} (hp : p = i ∨ p = w.spaces.length) :
    (kindOf v = .priv → AccessOk (userRun (w.fork i).2 ops) p a →
      ∀ b, ((userRun (w.fork i).2 ops).userRead p a).1 = some b →
        some b = (lastWritten p a (w.fork i).2 ops).or (w.value i a)) ∧
    (kindOf v = .shared → ∀ q, q = i ∨ q = w.spaces.length →
      (∀ b c, ((userRun (w.fork i).2 ops).userRead p a).1 = some b →
        ((userRun (w.fork i).2 ops).userRead q a).1 = some c → b = c) ∧
      ∀ b c, ((userRun (w.fork i).2 ops).userWrite p a b).1 = true →
        (((userRun (w.fork i).2 ops).userWrite p a b).2.userRead q a).1 = some c → c = b) ∧
    (Served (userRun (w.fork i).2 ops) p a →
      ((userRun (w.fork i).2 ops).userRead p a).1.isSome) := by
  obtain ⟨h', hF⟩ := h.fork hfork
  obtain ⟨hrun, hvma, hval⟩ := h'.run ops hok
  -- the VMA of the address in either process
  have hvma' : ∀ q, q = i ∨ q = w.spaces.length → ∃ u, (w.fork i).2.vmaOf q a = some u ∧
      kindOf u = kindOf v := by
    rintro q (rfl | rfl)
    · exact ⟨v, (hF.vmaOf q a hF.parent_ne).trans hv, rfl⟩
    · exact ⟨copyVma v, by rw [hF.vmaOf_child, hv]; rfl, kindOf_copyVma v⟩
  refine ⟨fun hk hacc b hb => ?_, fun hk q hq => ⟨fun b c hb hc => ?_, fun b c hw hc => ?_⟩,
    userRead_served hrun⟩
  · obtain ⟨u, hu, hku⟩ := hvma' p hp
    obtain ⟨-, -, -, hread⟩ := hrun.userRead hacc
    have hstart : (w.fork i).2.value p a = w.value i a := by
      rcases hp with rfl | rfl
      · exact hF.value h hF.parent_ne a
      · exact hF.value_child h a
    rw [← hread b hb (by rw [hvma, hu]; rfl), hval p a u hu (hku.trans hk), hstart]
  · obtain ⟨u, hu, hku⟩ := hvma' p hp
    obtain ⟨u', hu', hku'⟩ := hvma' q hq
    have hbval := (hrun.userRead (hrun.accessOk_shared ((hvma p a).trans hu)
      (hku.trans hk))).2.2.2 b hb (by rw [hvma, hu]; rfl)
    have hcval := (hrun.userRead (hrun.accessOk_shared ((hvma q a).trans hu')
      (hku'.trans hk))).2.2.2 c hc (by rw [hvma, hu']; rfl)
    rw [shared_value h hfork hok hv hk hp hq, hcval] at hbval
    exact (some.inj hbval).symm
  · obtain ⟨u, hu, hku⟩ := hvma' p hp
    obtain ⟨u', hu', hku'⟩ := hvma' q hq
    have hacc := hrun.accessOk_shared ((hvma p a).trans hu) (hku.trans hk)
    have hok1 : UserRunOk (w.fork i).2 (ops ++ [.write p a b]) := hok.concat hacc
    have hlast : userRun (w.fork i).2 (ops ++ [.write p a b]) =
        ((userRun (w.fork i).2 ops).userWrite p a b).2 := foldl_concat ..
    obtain ⟨hrun1, hvma1, -⟩ := h'.run _ hok1
    have hsame := shared_value h hfork hok1 hv hk hp hq
    have hwrote := userWrite_value hrun hacc (by rw [hvma, hu]; rfl) hw
    rw [hlast] at hrun1 hvma1 hsame
    have hcval := (hrun1.userRead (hrun1.accessOk_shared ((hvma1 q a).trans hu')
      (hku'.trans hk))).2.2.2 c hc (by rw [hvma1, hu']; rfl)
    rw [hwrote, hcval] at hsame
    exact (some.inj hsame).symm

/-- The two mappings of `shortAndWhole`, with memory for a fork. -/
def twoMappings : World :=
  { shortAndWhole with kmalloc := replicate 12 true, tables := replicate 8 true }

lemma Isolated.of_empty (hfile : FileInv K w) (hempty : ∀ sp ∈ w.spaces, sp.pt = ∅)
    (hvmas : ∀ sp ∈ w.spaces, VmasOk sp.mm.vmas) (hbacking : ∀ sp ∈ w.spaces, ∀ v ∈ sp.mm.vmas,
      (∀ o, v.shmem = some o → vmaFile? v = none ∧ (w.shmem o).isSome) ∧
      (hasFlag v.flags vmaMmio = true → vmaFile? v = none))
    (hone : w.cache = [] ∨ w.shmems = []) : Isolated K w := by
  have hent : ∀ i n e, w.entry i n ≠ some e := by
    intro i n e he
    obtain ⟨sp, hs, hn⟩ := bind_eq_some_iff.mp he
    rw [hempty sp (mem_of_getElem? hs)] at hn
    cases hn
  refine ⟨hfile, hvmas, hbacking, fun i n e he => absurd he (hent i n e),
    fun i n e he => absurd he (hent i n e), ?_⟩
  rintro f (⟨i, n, e, he, -⟩ | ⟨ino, idx, c, hc, -⟩) (⟨i', n', e', he', -⟩ | ⟨o, idx', s, ho, -⟩)
  · exact hent i n e he
  · exact hent i n e he
  · exact hent i' n' e' he'
  · rcases hone with hone | hone
    · rw [hone] at hc
      cases hc
    · rw [shmem, hone] at ho
      cases ho

lemma twoMappings_isolated : Isolated {0} twoMappings := by
  have hfile : FileInv {0} twoMappings := by
    obtain ⟨⟨held, hown⟩, hagree, hshows⟩ := shortAndWhole_fileInv
    exact ⟨⟨held, { hown with }⟩, hagree, hshows⟩
  refine Isolated.of_empty hfile ?_ ?_ ?_ (.inl rfl) <;>
    rw [show twoMappings.spaces = shortAndWhole.spaces from rfl, shortAndWhole] <;>
    simp only [mem_singleton, forall_eq]
  · exact ⟨⟨by decide, by decide⟩, by decide, by decide⟩
  · simp only [mem_cons, not_mem_nil, or_false]
    rintro v (rfl | rfl) <;> exact ⟨by simp, by decide⟩

/-- **The child reads another value than the one at the fork**: the parent's load in the short
mapping fills the cache, and the child's first load of the page gives a zero for the seven that was
there. -/
theorem fork_then_short_mapping : Isolated {0} twoMappings ∧ (twoMappings.fork 0).1 = true ∧
    twoMappings.value 0 0x500900 = some 7 ∧
    lastWritten 1 0x500900 (twoMappings.fork 0).2 [.read 0 0x400000] = none ∧
    ((userRun (twoMappings.fork 0).2 []).userRead 1 0x500900).1 = some 7 ∧
    ((userRun (twoMappings.fork 0).2 [.read 0 0x400000]).userRead 1 0x500900).1 = some 0 :=
  ⟨twoMappings_isolated, by decide +kernel⟩

/-- The VMAs of `threeKinds`, with memory for a fork. -/
def threeKindsFork : World :=
  { threeKinds with
    kmalloc := replicate 12 true
    tables := replicate 12 true }

lemma threeKindsFork_isolated : Isolated {0} threeKindsFork := by
  have hfile : FileInv {0} threeKindsFork :=
    ⟨⟨[], { threeKinds_owned with }⟩, fun _ _ _ _ _ => rfl,
      fun e he => absurd he (by simp [threeKindsFork, threeKinds])⟩
  refine Isolated.of_empty hfile ?_ ?_ ?_ (.inl rfl) <;>
    rw [show threeKindsFork.spaces = threeKinds.spaces from rfl, threeKinds] <;>
    simp only [mem_singleton, forall_eq]
  · exact ⟨⟨by decide, by decide⟩, by decide, by decide⟩
  · simp only [mem_cons, not_mem_nil, or_false]
    rintro v (rfl | rfl | rfl)
    · exact ⟨nofun, by decide⟩
    · exact ⟨nofun, by decide⟩
    · refine ⟨fun o ho => ?_, by decide⟩
      cases ho
      exact ⟨by decide, by decide⟩

/-- The parent's store behind the fork is not the child's. -/
theorem child_keeps_value : ((userRun threeKindsFork [.write 0 0x400000 4]).fork 0).1 = true ∧
      some 4 = (lastWritten 1 0x400000 ((userRun threeKindsFork [.write 0 0x400000 4]).fork 0).2
        [.write 0 0x400000 9]).or
          ((userRun threeKindsFork [.write 0 0x400000 4]).value 0 0x400000) := by
  have hok : UserRunOk threeKindsFork [.write 0 0x400000 4] := by
    refine ⟨fun _ sp v k hs hv hk => ?_, trivial⟩
    cases hs
    cases hv
    exact absurd (hk.symm.trans (show _ = none by decide)) (by simp)
  refine ⟨by decide +kernel, (fork_isolates (threeKindsFork_isolated.run _ hok).1
    (by decide +kernel) [.write 0 0x400000 9] ⟨fun he => absurd he (by decide +kernel), trivial⟩
    (p := 1) rfl (.inr (by decide +kernel))).1 (by decide)
    (fun he => absurd he (by decide +kernel)) 4 (by decide +kernel)⟩

end World

end Makaos
