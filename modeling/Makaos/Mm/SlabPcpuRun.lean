import Makaos.Mm.SlabPcpuInv
import Makaos.Mm.SlabRun

/-!
The per-CPU slab layer over every interleaving of its steps.

* `SameWord`: the `cmpxchg` of an allocation that hits, hits the slot word that was loaded.
* `SlabPcpuInv.run`: one step of a task, case by case, keeps the invariant and is never stuck.
* `slab_one_place`: in every run whose steps satisfy `SameWord`, a slot is in one place.
* `stale_pop`: a run, with a task moved between its load and its `cmpxchg`, in which a slot is
  handed out twice.
-/

namespace Makaos

open Function SlabPcpu Option
open LinkChain Transition
variable {cls x : ℕ}

/-- The `cmpxchg` that an allocation is about to make. -/
structure Pop where
  cls : ℕ
  slot : ℕ
  snap : Snap
  next : Option ℕ

def Pc.pop : Pc → Option Pop
  | .allocCas cls slot snap next => some ⟨cls, slot, snap, next⟩
  | _ => none

namespace SlabPcpu

/-- The `cmpxchg` hits. -/
def Hits (s : SlabPcpu) (t : ℕ) (q : Pop) : Prop :=
  ((s.lanes (s.cpu t) q.cls).cmpxchg16b (some q.slot) q.snap.tid q.next).isSome

instance (s : SlabPcpu) (t : ℕ) (q : Pop) : Decidable (s.Hits t q) :=
  inferInstanceAs (Decidable (_ = true))

/-- If the step is the `cmpxchg` of an allocation and it hits, then on the slot word that was
loaded: the task is still on that CPU, and fewer than `2 ^ 64` updates have been made since. -/
def SameWord (s : SlabPcpu) : Action → Prop
  | .run t => ∀ q ∈ (s.pc t).pop, s.Hits t q →
      s.cpu t = q.snap.cpu ∧ (s.lanes (s.cpu t) q.cls).ver < q.snap.ver + 2 ^ 64
  | _ => True

instance (s : SlabPcpu) : (a : Action) → Decidable (s.SameWord a)
  | .run t => inferInstanceAs (Decidable (∀ q ∈ (s.pc t).pop, s.Hits t q → _ ∧ _))
  | .alloc _ _ => isTrue trivial
  | .free _ _ => isTrue trivial
  | .migrate _ _ => isTrue trivial
  | .write _ _ => isTrue trivial

lemma cmpxchg16b_some {w w' : Lane} {head new : Option ℕ} {tid : ℕ}
    (h : w.cmpxchg16b head tid new = some w') :
    w.head = head ∧ w.tid = tid ∧ w' = { w with head := new, ver := w.ver + 1 } := by
  rw [Lane.cmpxchg16b] at h
  obtain ⟨heq, h⟩ := ite_none_right_eq_some.mp h
  exact ⟨heq.1, heq.2, (some.inj h).symm⟩

end SlabPcpu

namespace SlabPcpuInv

variable {s : SlabPcpu} {L : ℕ → List ℕ} {loc : ℕ → Option Place} {t : ℕ} {o o' : Option SlabPcpu}

/-- The step is made and keeps the invariant. -/
inductive Goes (o : Option SlabPcpu) : Prop
  | intro {s' : SlabPcpu} {L' : ℕ → List ℕ} {loc' : ℕ → Option Place} (hs : o = some s')
      (h : SlabPcpuInv s' L' loc') : Goes o

lemma Goes.or (h : Goes o) : Goes (o.or o') := by
  obtain ⟨rfl, h⟩ := h
  exact ⟨rfl, h⟩

lemma Goes.or_right (h : Goes o') (ho : o = none) : Goes (o.or o') := by
  rwa [ho, none_or]

variable (h : SlabPcpuInv s L loc) {snap : Snap} {slot : ℕ} {page : ℕ}
include h

/-! ### `slab_pcpu_alloc` -/

lemma loose_popped {c : ℕ} (hx : (s.lanes c cls).head = some x) :
    Loose (s.setLane c cls { s.lanes c cls with
      head := s.link x, ver := (s.lanes c cls).ver + 1 }) (update loc x none) x := by
  have hloc := h.chains.loc_head (i := Place.lane c cls) hx
  refine ⟨update_self _ _ _, h.known x _ hloc, fun hmem => ?_, fun t ht => ?_⟩
  · rw [(h.out x hmem).1] at hloc
    nomatch hloc
  · rw [(h.held t x ht).1] at hloc
    nomatch hloc

lemma runAlloc_load (hpc : s.pc t = .allocLoad cls) : Goes (s.runAlloc t (.allocLoad cls)) := by
  rw [runAlloc]
  cases hhead : (s.lanes (s.cpu t) cls).head with
  | none =>
    exact ⟨rfl, h.goto hpc⟩
  | some slot =>
    exact ⟨rfl, h.goto hpc ⟨le_rfl, fun _ => hhead⟩⟩

lemma runAlloc_next (hpc : s.pc t = .allocNext cls slot snap) :
    Goes (s.runAlloc t (.allocNext cls slot snap)) := by
  have hsnap := h.pcs t
  rw [hpc] at hsnap
  exact ⟨rfl, h.goto hpc ⟨hsnap, fun _ => rfl⟩⟩

lemma runAlloc_cas {next : Option ℕ} (hpc : s.pc t = .allocCas cls slot snap next)
    (hgood : s.SameWord (.run t)) : Goes (s.runAlloc t (.allocCas cls slot snap next)) := by
  rw [runAlloc]
  cases hcas : (s.lanes (s.cpu t) cls).cmpxchg16b (some slot) snap.tid next with
  | none =>
    exact ⟨rfl, h.goto hpc⟩
  | some w =>
    obtain ⟨hhead, htid, rfl⟩ := cmpxchg16b_some hcas
    have hok := h.pcs t
    rw [hpc] at hok
    obtain ⟨⟨hle, _⟩, hnext⟩ := hok
    have hhit : s.Hits t ⟨cls, slot, snap, next⟩ := by
      rw [Hits, hcas]
      rfl
    obtain ⟨hcpu, hlt⟩ := hgood ⟨cls, slot, snap, next⟩ (by rw [hpc]; rfl) hhit
    dsimp only at hcpu hlt
    -- the word has not been updated since it was loaded, so what was read is still there
    have hver : (s.lanes snap.cpu cls).ver = snap.ver := by
      rw [← hcpu] at hle ⊢
      rw [Lane.tid, Snap.tid] at htid
      omega
    obtain rfl := hnext hver
    have hpop := h.popLane hhead
    have hout := hpop.handOut (h.loose_popped hhead)
    exact ⟨rfl, hout.goto hpc⟩

/-! ### `slab_pcpu_free` -/

lemma loose_of_held (hx : (s.pc t).held = some x) : Loose (s.goto t .idle) loc x := by
  obtain ⟨hnone, hnot, htr⟩ := h.held t x hx
  refine ⟨hnone, htr, hnot, fun t' ht' => ?_⟩
  rw [goto_pc] at ht'
  split_ifs at ht' with hne
  · exact absurd ht' (by simp [Pc.held])
  · exact hne (h.held_inj t' t x ht' hx)

lemma not_linked (hx : (s.pc t).held = some x)
    (hnot : (s.pc t).linked = none) (t' : ℕ) (hd : Option ℕ) : (s.pc t').linked ≠ some (x, hd) := by
  intro ht'
  obtain rfl := h.held_inj t' t x (Pc.held_of_linked ht') hx
  rw [hnot] at ht'
  nomatch ht'

lemma runFree_spec (hx : (s.pc t).held = some x) : Goes (s.runFree t (s.pc t)) := by
  have hok := h.pcs t
  have hidle : SlabPcpuInv (s.goto t .idle) L loc :=
    h.goto rfl trivial (by cases hpc : s.pc t <;> simp_all [Pc.chain, Pc.held])
  have hloose := h.loose_of_held hx
  cases hpc : s.pc t with
  | freeActive ptr page cls =>
    rw [runFree]
    split
    case isTrue | isFalse =>
      exact ⟨rfl, h.goto hpc⟩
  | freeLoad ptr page cls | remoteLoad ptr page =>
    exact ⟨rfl, h.goto hpc⟩
  | freeLink ptr page cls head tid | remoteLink ptr page head =>
    obtain rfl : ptr = x := by
      rw [hpc] at hx
      exact some.inj hx
    have hset := h.setLink (h.held t ptr hx).1 (h.not_linked hx (by rw [hpc]; rfl)) head
    exact ⟨rfl, hset.goto hpc (update_self _ _ _)⟩
  | freeCas ptr page cls head tid =>
    rw [hpc] at hx hok
    obtain rfl : ptr = x := some.inj hx
    rw [runFree]
    cases hcas : (s.lanes (s.cpu t) cls).cmpxchg16b head tid (some ptr) with
    | none =>
      exact ⟨rfl, h.goto hpc⟩
    | some w =>
      obtain ⟨hhead, _, rfl⟩ := cmpxchg16b_some hcas
      exact ⟨rfl, hidle.pushLane hloose (hok.trans hhead.symm)⟩
  | remoteCas ptr page old =>
    rw [hpc] at hx hok
    obtain rfl : ptr = x := some.inj hx
    rw [runFree]
    split_ifs with heq
    · exact ⟨rfl, hidle.pushRemote hloose (hok.trans heq.symm)⟩
    · exact ⟨rfl, h.goto hpc⟩
  | _ => simp [hpc, Pc.held] at hx

end SlabPcpuInv

namespace SlabPcpu

/-- Where a slot can be, as far as callers are concerned. -/
inductive Spot where
  | handedOut
  | chain (c cls : ℕ)
  | freelist (base : ℕ)
  | remoteFree (base : ℕ)
  deriving DecidableEq, Repr

/-- The slot is at the spot. -/
def At (s : SlabPcpu) (x : ℕ) : Spot → Prop
  | .handedOut => x ∈ s.out
  | .chain c cls => OnChain s.link (s.lanes c cls).head x
  | .freelist base => OnChain s.link (s.headers base).freelist x
  | .remoteFree base => OnChain s.link (s.headers base).remoteFree x

end SlabPcpu

namespace SlabPcpuInv

variable {s : SlabPcpu} {L : ℕ → List ℕ} {loc : ℕ → Option Place} {t : ℕ} {o o' : Option SlabPcpu}
variable (h : SlabPcpuInv s L loc) {snap : Snap} {slot : ℕ} {page : ℕ}
include h

/-! ### `slab_refill` -/

lemma grabPartialBatch_nil (cls want : ℕ) :
    grabPartialBatch cls want s = some ([], s) := by
  cases want with
  | zero => rfl
  | succ want =>
    rw [grabPartialBatch]
    simp only [h.noPartial]

lemma runRefill_enter (hpc : s.pc t = .refill cls) : Goes (s.runRefill t (.refill cls)) := by
  have hirq := h.reschedule (update s.irqOff (s.cpu t) (some t)) s.cpu
  rw [runRefill]
  cases (s.lanes (s.cpu t) cls).active with
  | none | some page =>
    exact ⟨rfl, hirq.goto hpc⟩

/-- `pmm_slab_demote_or_keep`: the chain is taken along, or the page is parked. -/
lemma runRefill_demote (hpc : s.pc t = .demote cls page) :
    Goes (s.runRefill t (.demote cls page)) := by
  obtain ⟨s1, loc1, hdrain, h1, hpc1, hcpu1, hlanes1⟩ := h.drain page
  have hp1 : s1.pc t = .demote cls page := by rw [hpc1, hpc]
  cases hfl : (s1.headers page).freelist with
  | some fl =>
    have hkeep : s.demoteOrKeep cls page =
        some (some fl, s1.setHeader page { s1.headers page with freelist := none }) := by
      simp only [demoteOrKeep, hdrain, hfl]
    rw [runRefill, hkeep]
    exact ⟨rfl, h1.takePage hp1 rfl rfl rfl hfl.symm rfl (fun _ => trivial) rfl⟩
  | none =>
    have hpark : s.demoteOrKeep cls page =
        some (none, (s1.setHeader page { s1.headers page with onList := .full }).setCache cls
          { s1.caches cls with full := page :: (s1.caches cls).full }) := by
      simp only [demoteOrKeep, hdrain, hfl, setHeader]
    rw [runRefill, hpark]
    have hact := (h1.park cls page).setActive (s1.cpu t) cls none
    exact ⟨rfl, hact.goto (t := t) hp1⟩

/-- Steps 3a to 3c: the partial lists and the empty list are empty. -/
lemma runRefill_search {pc : Pc} (hpc : s.pc t = pc)
    (hpcs : pc = .acquire cls ∨ pc = .acquireBatch cls ∨ pc = .acquireEmpty cls) :
    Goes (s.runRefill t pc) := by
  rcases hpcs with rfl | rfl | rfl
  · rw [runRefill]
    simp only [h.noCpuPartial]
    exact ⟨rfl, h.goto hpc⟩
  · have hbatch : s.refillBatch (s.cpu t) cls = some (none, s) := by
      simp only [refillBatch, h.grabPartialBatch_nil]
    rw [runRefill, hbatch]
    exact ⟨rfl, h.goto hpc⟩
  · rw [runRefill, grabEmpty]
    simp only [h.noEmpty]
    exact ⟨rfl, h.goto hpc⟩

/-- Step 3d: a fresh page, or none. -/
lemma runRefill_grow (hpc : s.pc t = .acquireGrow cls) :
    Goes (s.runRefill t (.acquireGrow cls)) := by
  have hcls : cls < kmallocCacheCount := h.class_lt t cls (by rw [hpc]; rfl)
  rw [runRefill]
  rcases h.grow_eq hcls with hnone | ⟨b, p, L', hsome, ho, hsub, hinv, hfree, htotal⟩
  · rw [hnone]
    exact ⟨rfl, h.goto hpc⟩
  · rw [hsome]
    obtain ⟨loc', h'⟩ := h.fresh hcls ho hsub hinv hfree htotal
    exact ⟨rfl, h'.goto hpc⟩

lemma runRefill_promote (hpc : s.pc t = .promote cls page) :
    Goes (s.runRefill t (.promote cls page)) := by
  have hact := h.setActive (s.cpu t) cls (some page)
  exact ⟨rfl, hact.takePage hpc rfl rfl rfl rfl rfl (fun _ => trivial) rfl⟩

lemma runRefill_publish {pc : Pc} (hpc : s.pc t = pc)
    (hpcs : (∃ cls fl found, pc = .publish cls fl found) ∨
      ∃ cls fl found head tid, pc = .publishCas cls fl found head tid) :
    Goes (s.runRefill t pc) := by
  rcases hpcs with ⟨cls, fl, found, rfl⟩ | ⟨cls, fl, found, head, tid, rfl⟩
  · exact ⟨rfl, h.goto hpc⟩
  · rw [runRefill]
    cases hcas : (s.lanes (s.cpu t) cls).cmpxchg16b head tid fl with
    | none =>
      exact ⟨rfl, h.goto hpc⟩
    | some w =>
      obtain ⟨_, _, rfl⟩ := cmpxchg16b_some hcas
      have hirq := h.reschedule (update s.irqOff (s.cpu t) none) s.cpu
      have hpc' : ({ s with irqOff := update s.irqOff (s.cpu t) none } :
        SlabPcpu).pc t = .publishCas cls fl found head tid := hpc
      have hpub := @publish cls t (s.cpu t) (if found then .allocLoad cls else .idle) _ _ _ hirq
        (by split <;> rfl) (by split <;> rfl)
        (fun _ => by split <;> trivial) (by
          rw [hpc']
          split
          · exact .inr rfl
          · exact .inl rfl)
      rw [hpc'] at hpub
      exact ⟨rfl, hpub⟩

/-! ### Steps and runs -/

/-- **One step of a task** that is in one of the functions: there is one, and it keeps the
invariant. -/
lemma run (hpc : s.pc t ≠ .idle) (hgood : s.SameWord (.run t)) :
    Goes ((s.runAlloc t (s.pc t)).or ((s.runRefill t (s.pc t)).or (s.runFree t (s.pc t)))) := by
  cases hp : s.pc t with
  | idle => exact absurd hp hpc
  | allocLoad cls => exact (h.runAlloc_load hp).or
  | allocNext cls slot snap => exact (h.runAlloc_next hp).or
  | allocCas cls slot snap next => exact (h.runAlloc_cas hp hgood).or
  | refill cls => exact (h.runRefill_enter hp).or.or_right rfl
  | demote cls page => exact (h.runRefill_demote hp).or.or_right rfl
  | acquire cls => exact (h.runRefill_search hp (.inl rfl)).or.or_right rfl
  | acquireBatch cls => exact (h.runRefill_search hp (.inr (.inl rfl))).or.or_right rfl
  | acquireEmpty cls => exact (h.runRefill_search hp (.inr (.inr rfl))).or.or_right rfl
  | acquireGrow cls => exact (h.runRefill_grow hp).or.or_right rfl
  | promote cls page => exact (h.runRefill_promote hp).or.or_right rfl
  | publish cls fl found =>
    exact (h.runRefill_publish hp (.inl ⟨cls, fl, found, rfl⟩)).or.or_right rfl
  | publishCas cls fl found head tid =>
    exact (h.runRefill_publish hp (.inr ⟨cls, fl, found, head, tid, rfl⟩)).or.or_right rfl
  | _ =>
    have hgoes := h.runFree_spec (t := t) (by rw [hp]; rfl)
    rw [hp] at hgoes
    exact (hgoes.or_right rfl).or_right rfl

/-- **One step of the system.** -/
lemma step {a : Action} (hgood : s.SameWord a) {s' : SlabPcpu}
    (hs : s.step a = some s') : ∃ L' loc', SlabPcpuInv s' L' loc' := by
  cases a with
  | alloc t cls =>
    rw [SlabPcpu.step] at hs
    obtain ⟨hidle, hs⟩ := ite_none_right_eq_some.mp hs
    split_ifs at hs with hcls
    · exact ⟨L, loc, some.inj hs ▸ h⟩
    · cases hs
      exact ⟨L, loc, h.startAlloc hidle.1 (not_le.mp hcls)⟩
  | free t x =>
    rw [SlabPcpu.step] at hs
    obtain ⟨hidle, hs⟩ := ite_none_right_eq_some.mp hs
    obtain ⟨hback, hloose⟩ := h.giveBack hidle.2.2
    dsimp only at hs
    split at hs
    · exact ⟨L, loc, some.inj hs ▸ hback⟩
    · cases hs
      exact ⟨L, loc, hback.takeUp hloose (by rw [show _ = _ from hidle.1]; rfl) rfl trivial rfl⟩
  | run t =>
    rw [SlabPcpu.step] at hs
    obtain ⟨-, hs⟩ := ite_none_right_eq_some.mp hs
    have hpc : s.pc t ≠ .idle := by
      intro hidle
      rw [hidle] at hs
      exact absurd hs (by simp [runAlloc, runRefill, runFree])
    obtain ⟨hrun, h'⟩ := h.run hpc hgood
    cases hrun.symm.trans hs
    exact ⟨_, _, h'⟩
  | migrate t c =>
    rw [SlabPcpu.step] at hs
    split at hs
    · nomatch hs
    · cases hs
      exact ⟨L, loc, h.reschedule s.irqOff _⟩
  | write x v =>
    rw [SlabPcpu.step] at hs
    obtain ⟨hx, rfl⟩ := ite_some_none_eq_some.mp hs
    refine ⟨L, loc, h.setLink (h.out x hx).1 (fun t hd hl => ?_) v⟩
    exact (h.held t x (Pc.held_of_linked hl)).2.1 hx

end SlabPcpuInv

/-! ### Reachable states -/

lemma SlabPcpu.init_inv {pmm : Pmm} {L : ℕ → List ℕ} (hinv : BuddyInv pmm L) (cpu : ℕ → ℕ)
    (link : ℕ → Option ℕ) : SlabPcpuInv (init pmm cpu link) L fun _ => none := by
  refine ⟨hinv, fun _ => rfl, fun _ => rfl, fun _ => rfl, fun _ _ => rfl, fun f hf => ?_,
    fun p => ⟨[], ?_, by simp⟩, by simp, by simp [init], ?_, ?_, fun _ => trivial, ?_⟩
  · exact absurd rfl hf
  · have : (init pmm cpu link).headAt p = none := by cases p <;> rfl
    rw [this]
    exact .nil
  · simp [init, Pc.held]
  · simp [init, Pc.held]
  · simp [init, Pc.allocCls]

lemma SlabPcpuInv.loc_of_at {s : SlabPcpu} {L : ℕ → List ℕ} {loc : ℕ → Option Place}
    (h : SlabPcpuInv s L loc) {p : Spot} (hx : s.At x p) : loc x = match p with
      | .handedOut => none
      | .chain c cls => some (.lane c cls)
      | .freelist base => some (.page base)
      | .remoteFree base => some (.remote base) := by
  cases p with
  | handedOut => exact (h.out x hx).1
  | _ => exact h.chains.onChain_iff.mp hx

/-- **A slot is in one place.**  Over a buddy allocator that satisfies its invariant, in every run
of any number of tasks on any CPUs, moved between CPUs at any point where interrupts are enabled,
in which each `cmpxchg` of an allocation that hits does so on the slot word that was loaded: no
slot is at two spots; what the next allocation pops is not handed out; and no task is stuck. -/
theorem slab_one_place {pmm : Pmm} {L : ℕ → List ℕ} (hinv : BuddyInv pmm L) {cpu : ℕ → ℕ}
    {link : ℕ → Option ℕ} {as : List SlabPcpu.Action} {s : SlabPcpu}
    (hrun : exec step (init pmm cpu link) as = some s)
    (hok : Meets step SameWord (init pmm cpu link) as) :
    (∀ x p p', s.At x p → s.At x p' → p = p') ∧
    (∀ t, ∀ q ∈ (s.pc t).pop, s.Hits t q → q.slot ∉ s.out) ∧
    ∀ t, s.pc t ≠ .idle → s.enabled t → s.SameWord (.run t) → ∃ s', s.step (.run t) = some s' := by
  have hstep : ∀ {s : SlabPcpu} {a s'}, (∃ L loc, SlabPcpuInv s L loc) → s.SameWord a →
      s.step a = some s' → ∃ L loc, SlabPcpuInv s' L loc := by
    rintro s a s' ⟨L, loc, h⟩ hgood hs
    exact h.step hgood hs
  obtain ⟨L', loc, h⟩ := exec_invariant hstep hrun hok ⟨L, _, init_inv hinv cpu link⟩
  have hone : ∀ x p p', s.At x p → s.At x p' → p = p' := by
    intro x p p' hp hp'
    have heq := (h.loc_of_at hp).symm.trans (h.loc_of_at hp')
    cases p <;> cases p' <;> simp_all
  refine ⟨hone, fun t q _ hhit hmem => ?_, fun t hpc hen hgood => ?_⟩
  · obtain ⟨w, hw⟩ := isSome_iff_exists.mp hhit
    have hchain : s.At q.slot (.chain (s.cpu t) q.cls) := by
      rw [At, (cmpxchg16b_some hw).1]
      exact .head q.slot
    exact absurd (hone q.slot _ .handedOut hchain hmem) (by simp)
  · obtain ⟨hs, -⟩ := h.run hpc hgood
    exact ⟨_, by rw [step, if_pos hen]; exact hs⟩

/-- Tasks 1 and 2 on CPU 0, task 3 on CPU 1, over 24 free frames. -/
def twoCpus : SlabPcpu :=
  SlabPcpu.init twentyFour (fun t => if t = 3 then 1 else 0) (fun _ => none)

/-- `n` steps of a task. -/
def runs (t n : ℕ) : List SlabPcpu.Action := List.replicate n (.run t)

/-- Two allocations and a free of one task, a run that meets the condition. -/
def allocAndFree : { as // Meets step SameWord twoCpus as } :=
  ⟨.alloc 2 9 :: runs 2 12 ++ .alloc 2 9 :: runs 2 3 ++ .free 2 (9 * pageSize) :: runs 2 4,
    by decide +kernel⟩

/-- The freed slot is back on the chain, and only there. -/
theorem freed_slot_one_place : ∃ s, exec step twoCpus allocAndFree.1 = some s ∧
    s.At (9 * pageSize) (.chain 0 9) ∧ ∀ p, s.At (9 * pageSize) p → p = .chain 0 9 := by
  obtain ⟨L, hinv⟩ := twentyFour_inv
  have hfacts : (exec step twoCpus allocAndFree.1).map (fun s => (s.lanes 0 9).head) =
      some (some (9 * pageSize)) := by decide +kernel
  obtain ⟨s, hs, hhead⟩ := map_eq_some_iff.mp hfacts
  have hat : s.At (9 * pageSize) (.chain 0 9) := by
    rw [At, hhead]
    exact .head _
  exact ⟨s, hs, hat, fun p hp => (slab_one_place hinv hs allocAndFree.2).1 _ _ _ hp hat⟩

/-! ### A stale pop -/

/-- Task 1 loads the head of CPU 0's chain, slot 11, and its link, slot 12.  Task 2 pops both on
CPU 0, and frees slot 11: it reads the active page on CPU 0, is moved to CPU 1 and pushes the slot
there, which makes the word of CPU 1 equal to the one that task 1 has loaded.  Task 1 is moved to
CPU 1. -/
def staleTrace : List SlabPcpu.Action :=
  .alloc 2 9 :: runs 2 12 ++ .alloc 2 9 :: runs 2 3 ++ .alloc 3 9 :: runs 3 12 ++
    .alloc 1 9 :: runs 1 2 ++ .alloc 2 9 :: runs 2 3 ++ .alloc 2 9 :: runs 2 3 ++
    .free 2 (11 * pageSize) :: runs 2 1 ++ .migrate 2 1 :: runs 2 3 ++ .migrate 1 1 :: runs 1 1

/-- **A slot handed out twice**: after `staleTrace` slot 12 is handed out and the head of CPU 1's
chain, and the next allocation on CPU 1 returns it. -/
theorem stale_pop : ∃ s s', exec step twoCpus staleTrace = some s ∧
    s.At (12 * pageSize) .handedOut ∧ s.At (12 * pageSize) (.chain 1 9) ∧
    exec step s (.alloc 3 9 :: runs 3 2) = some s' ∧ 12 * pageSize ∈ s'.out ∧
    ∃ q ∈ (s'.pc 3).pop, q.slot = 12 * pageSize ∧ s'.Hits 3 q := by
  have hfacts : ((exec step twoCpus staleTrace).bind fun s => (exec step s (.alloc 3 9 :: runs 3 2)).map
      fun s' => (decide (12 * pageSize ∈ s.out), (s.lanes 1 9).head,
        decide (12 * pageSize ∈ s'.out), (s'.pc 3).pop.map fun q =>
          (q.slot, decide (s'.Hits 3 q)))) =
      some (true, some (12 * pageSize), true, some (12 * pageSize, true)) := by decide +kernel
  obtain ⟨s, hs, hfacts⟩ := bind_eq_some_iff.mp hfacts
  obtain ⟨s', hs', hfacts⟩ := map_eq_some_iff.mp hfacts
  simp only [Prod.mk.injEq, decide_eq_true_eq, map_eq_some_iff] at hfacts
  obtain ⟨hout, hhead, hout', q, hq, hslot, hhit⟩ := hfacts
  refine ⟨s, s', hs, hout, ?_, hs', hout', q, hq, hslot, hhit⟩
  rw [At, hhead]
  exact .head _

end Makaos
