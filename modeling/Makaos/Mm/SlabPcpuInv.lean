import Makaos.Lib.Transition
import Makaos.Mm.SlabInv
import Makaos.Mm.SlabPcpu

/-!
The invariant of the per-CPU slab layer between any two steps.

* `Place`, `headAt`: the heads a free slot can hang off.
* `SlabPcpuInv`: the chains of these heads end and share no slot; the slots that are handed out and
  those that a task is about to free are on no chain; and what a task has read holds as long as the
  word it read it from has not changed.
* One lemma for each way in which slots change place.
-/

namespace Makaos

open Function SlabPcpu Option List Nat
open LinkChain
variable {x cls t c base : ℕ} {pc : Pc}

/-! ### Places -/

/-- Where a free slot hangs. -/
inductive Place where
  /-- off the slot word of a CPU for a class -/
  | lane (c cls : ℕ)
  /-- off the `freelist` of the page at the address -/
  | page (base : ℕ)
  /-- off the `remote_free` of the page at the address -/
  | remote (base : ℕ)
  /-- off the chain that a refill is about to publish -/
  | task (t : ℕ)
  deriving DecidableEq, Repr

namespace Pc

/-- The chain that a refill carries. -/
def chain : Pc → Option ℕ
  | .publish _ fl _ => fl
  | .publishCas _ fl _ _ _ => fl
  | _ => none

/-- The slot that a free is about to put back. -/
def held : Pc → Option ℕ
  | .freeActive ptr _ _ => some ptr
  | .freeLoad ptr _ _ => some ptr
  | .freeLink ptr _ _ _ _ => some ptr
  | .freeCas ptr _ _ _ _ => some ptr
  | .remoteLoad ptr _ => some ptr
  | .remoteLink ptr _ _ => some ptr
  | .remoteCas ptr _ _ => some ptr
  | _ => none

/-- The slot whose link is written, with what it must hold. -/
def linked : Pc → Option (ℕ × Option ℕ)
  | .freeCas ptr _ _ head _ => some (ptr, head)
  | .remoteCas ptr _ old => some (ptr, old)
  | _ => none

/-- The class an allocation is for. -/
def allocCls : Pc → Option ℕ
  | .allocLoad cls => some cls
  | .allocNext cls _ _ => some cls
  | .allocCas cls _ _ _ => some cls
  | .refill cls => some cls
  | .demote cls _ => some cls
  | .acquire cls => some cls
  | .acquireBatch cls => some cls
  | .acquireEmpty cls => some cls
  | .acquireGrow cls => some cls
  | .promote cls _ => some cls
  | .publish cls _ _ => some cls
  | .publishCas cls _ _ _ _ => some cls
  | _ => none

lemma held_of_linked {hd : Option ℕ} (h : pc.linked = some (x, hd)) : pc.held = some x := by
  cases pc <;> simp_all [linked, held]

end Pc

namespace SlabPcpu

variable {s s' : SlabPcpu}

/-- The head at a place. -/
def headAt (s : SlabPcpu) : Place → Option ℕ
  | .lane c cls => (s.lanes c cls).head
  | .page base => (s.headers base).freelist
  | .remote base => (s.headers base).remoteFree
  | .task t => (s.pc t).chain

lemma setLane_apply (s : SlabPcpu) (c cls : ℕ) (w : Lane) (c' cls' : ℕ) :
    (s.setLane c cls w).lanes c' cls' = if c' = c ∧ cls' = cls then w else s.lanes c' cls' := by
  by_cases hc : c' = c
  · subst hc
    by_cases hcls : cls' = cls
    · subst hcls
      simp [setLane]
    · simp [setLane, hcls]
  · simp [setLane, hc]

lemma headAt_setLane (s : SlabPcpu) (c cls : ℕ) (w : Lane) :
    (s.setLane c cls w).headAt = update s.headAt (.lane c cls) w.head := by
  funext p
  cases p with
  | lane c' cls' =>
    by_cases heq : c' = c ∧ cls' = cls
    · obtain ⟨rfl, rfl⟩ := heq
      simp [headAt, setLane_apply]
    · have hne : Place.lane c' cls' ≠ .lane c cls := by simpa using heq
      rw [update_of_ne hne]
      simp [headAt, setLane_apply, heq]
  | _ => rfl

lemma headAt_setHeader (s : SlabPcpu) (base : ℕ) (h : PageHeader) : (s.setHeader base h).headAt =
      update (update s.headAt (.page base) h.freelist) (.remote base) h.remoteFree := by
  funext p
  cases p with
  | page b | remote b =>
    by_cases hb : b = base
    · subst hb
      simp [headAt, setHeader]
    · simp [headAt, setHeader, hb]
  | _ => rfl

lemma headAt_goto (s : SlabPcpu) (t : ℕ) (pc : Pc) :
    (s.goto t pc).headAt = update s.headAt (.task t) pc.chain := by
  funext p
  cases p with
  | task t' =>
    by_cases ht : t' = t
    · subst ht
      simp [headAt, goto]
    · simp [headAt, goto, ht]
  | _ => rfl

lemma goto_pc (s : SlabPcpu) (t : ℕ) (pc : Pc) (t' : ℕ) :
    (s.goto t pc).pc t' = if t' = t then pc else s.pc t' := update_apply ..

/-! ### What a task relies on -/

/-- The address lies in a slab. -/
def Tracked (s : SlabPcpu) (x : ℕ) : Prop := s.trackers (x / pageSize) ≠ none

/-- The head that was loaded is the head as long as the word has not been updated. -/
def SnapOk (s : SlabPcpu) (cls slot : ℕ) (snap : Snap) : Prop :=
  snap.ver ≤ (s.lanes snap.cpu cls).ver ∧
    ((s.lanes snap.cpu cls).ver = snap.ver → (s.lanes snap.cpu cls).head = some slot)

/-- What the local variables of a task say about the state. -/
def PcOk (s : SlabPcpu) : Pc → Prop
  | .allocNext cls slot snap => s.SnapOk cls slot snap
  | .allocCas cls slot snap next =>
    s.SnapOk cls slot snap ∧ ((s.lanes snap.cpu cls).ver = snap.ver → s.link slot = next)
  | .freeCas ptr _ _ head _ => s.link ptr = head
  | .remoteCas ptr _ old => s.link ptr = old
  | _ => True

/-- A slot word that was updated or is unchanged. -/
def LaneLe (w w' : Lane) : Prop := w.ver ≤ w'.ver ∧ (w'.ver = w.ver → w'.head = w.head)

lemma LaneLe.refl (w : Lane) : LaneLe w w := ⟨le_rfl, fun _ => rfl⟩

lemma SnapOk.mono {slot : ℕ} {snap : Snap} (h : s.SnapOk cls slot snap)
    (hlane : ∀ c cls, LaneLe (s.lanes c cls) (s'.lanes c cls)) : s'.SnapOk cls slot snap := by
  obtain ⟨hle, hsame⟩ := hlane snap.cpu cls
  refine ⟨h.1.trans hle, fun hver => ?_⟩
  have heq : (s.lanes snap.cpu cls).ver = snap.ver := le_antisymm (hle.trans_eq hver) h.1
  rw [hsame (hver.trans heq.symm)]
  exact h.2 heq

/-- The steps of the others keep what a task relies on, if they update the words they change and
leave alone the links of the heads and of the slots it has linked. -/
lemma PcOk.mono (h : s.PcOk pc) (hlane : ∀ c cls, LaneLe (s.lanes c cls) (s'.lanes c cls))
    (hlink : ∀ c cls x, (s.lanes c cls).head = some x → s'.link x = s.link x)
    (hheld : ∀ x hd, pc.linked = some (x, hd) → s'.link x = s.link x) : s'.PcOk pc := by
  cases pc with
  | allocNext cls slot snap => exact SnapOk.mono h hlane
  | allocCas cls slot snap next =>
    obtain ⟨hsnap, hnext⟩ := h
    refine ⟨hsnap.mono hlane, fun hver => ?_⟩
    have heq : (s.lanes snap.cpu cls).ver = snap.ver :=
      le_antisymm ((hlane snap.cpu cls).1.trans_eq hver) hsnap.1
    rw [hlink snap.cpu cls slot (hsnap.2 heq)]
    exact hnext heq
  | freeCas ptr page cls head tid | remoteCas ptr page head => exact (hheld ptr head rfl).trans h
  | _ => trivial

end SlabPcpu

/-! ### The invariant -/

/-- **The invariant of the per-CPU slab layer**, with the contents `L` of the buddy lists and the
place `loc` of the slots on chains. -/
structure SlabPcpuInv (s : SlabPcpu) (L : ℕ → List ℕ) (loc : ℕ → Option Place) : Prop where
  buddy : BuddyInv s.pmm L
  geom : ∀ cls, (s.caches cls).geom = geomOf cls
  noPartial : ∀ cls, (s.caches cls).cachePartial = []
  noEmpty : ∀ cls, (s.caches cls).empty = []
  noCpuPartial : ∀ c cls, (s.lanes c cls).partialPages = []
  apart : ∀ f, s.trackers f ≠ none → f ∉ freeFrames L ∧ f < s.pmm.totalFrames
  chains : Chains s.link s.headAt loc
  known : ∀ x p, loc x = some p → s.Tracked x
  out : ∀ x ∈ s.out, loc x = none ∧ s.Tracked x
  held : ∀ t x, (s.pc t).held = some x → loc x = none ∧ x ∉ s.out ∧ s.Tracked x
  held_inj : ∀ t t' x, (s.pc t).held = some x → (s.pc t').held = some x → t = t'
  pcs : ∀ t, s.PcOk (s.pc t)
  class_lt : ∀ t cls, (s.pc t).allocCls = some cls → cls < kmallocCacheCount

namespace SlabPcpuInv

variable {s : SlabPcpu} {L : ℕ → List ℕ} {loc : ℕ → Option Place}

section

variable (h : SlabPcpuInv s L loc)
include h

/-- The task goes on with the same chain and the same slot, or drops the slot. -/
lemma goto {pc old : Pc} (hpc : s.pc t = old) (hok : s.PcOk pc := by trivial)
    (hchain : pc.chain = old.chain := by rfl)
    (hheld : pc.held = none ∨ pc.held = old.held := by first | exact .inl rfl | exact .inr rfl)
    (hcls : pc.allocCls = none ∨ pc.allocCls = old.allocCls := by
      first | exact .inl rfl | exact .inr rfl) : SlabPcpuInv (s.goto t pc) L loc := by
  subst hpc
  have hheld' : ∀ t' x, ((s.goto t pc).pc t').held = some x → (s.pc t').held = some x := by
    intro t' x hx
    rw [goto_pc] at hx
    split_ifs at hx with ht
    · subst ht
      rcases hheld with hnone | hsame
      · rw [hnone] at hx
        nomatch hx
      · rwa [← hsame]
    · exact hx
  refine { h with
    chains := ?_, pcs := fun t' => ?_, class_lt := fun t' cls hx => ?_
    held := fun t' x hx => h.held t' x (hheld' t' x hx)
    held_inj := fun t1 t2 x h1 h2 => h.held_inj t1 t2 x (hheld' t1 x h1) (hheld' t2 x h2) }
  · rw [headAt_goto, hchain]
    exact (update_eq_self (Place.task t) s.headAt).symm ▸ h.chains
  · rw [goto_pc]
    split
    · exact hok
    · exact h.pcs t'
  · rw [goto_pc] at hx
    split_ifs at hx with ht
    · subst ht
      rcases hcls with hnone | hsame
      · rw [hnone] at hx
        nomatch hx
      · exact h.class_lt t' cls (hsame ▸ hx)
    · exact h.class_lt t' cls hx

/-- A store to the link of a slot on no chain that no task has linked. -/
lemma setLink (hx : loc x = none) (hfree : ∀ t hd, (s.pc t).linked ≠ some (x, hd)) (v : Option ℕ) :
    SlabPcpuInv (s.setLink x v) L loc := by
  refine { h with
    chains := ?_
    pcs := fun t => (h.pcs t).mono (fun _ _ => .refl _) (fun c cls y hy => ?_) fun y hd hy => ?_ }
  · refine h.chains.frame fun a ha => update_of_ne ?_ _ _
    rintro rfl
    exact ha hx
  · refine update_of_ne ?_ _ _
    rintro rfl
    rw [h.chains.loc_head (i := Place.lane c cls) hy] at hx
    nomatch hx
  · refine update_of_ne ?_ _ _
    rintro rfl
    exact hfree t hd hy

/-- **Slots change place.**  A step may replace the lanes, the headers, the caches and the place of
a task, provided that the slot words it changes are updated, that the chains of the new heads are
those of the new places, and that no slot comes onto a chain that is handed out or held. -/
lemma transfer {s' : SlabPcpu} {loc' : ℕ → Option Place}
    (hcaches : ∀ cls, (s'.caches cls).geom = geomOf cls ∧ (s'.caches cls).cachePartial = [] ∧
      (s'.caches cls).empty = [])
    (hlane : ∀ c cls, LaneLe (s.lanes c cls) (s'.lanes c cls) ∧ (s'.lanes c cls).partialPages = [])
    (hchains : Chains s'.link s'.headAt loc') (hloc : ∀ x p, loc' x = some p → loc x ≠ none ∨
      (s.Tracked x ∧ x ∉ s.out ∧ ∀ t, (s'.pc t).held ≠ some x))
    (hpc : ∀ t, s'.pc t = s.pc t ∨ ((s'.pc t).held = none ∧ s'.PcOk (s'.pc t) ∧
      ∀ cls, (s'.pc t).allocCls = some cls → cls < kmallocCacheCount) := by exact fun _ => .inl rfl)
    (hlink : ∀ x, (loc x = none ∨ ∃ c cls, loc x = some (.lane c cls)) →
      s'.link x = s.link x := by exact fun _ _ => rfl)
    (hpmm : s'.pmm = s.pmm := by rfl) (htrackers : s'.trackers = s.trackers := by rfl)
    (hout : s'.out = s.out := by rfl) : SlabPcpuInv s' L loc' := by
  have htracked : ∀ x, s.Tracked x → s'.Tracked x := by
    intro x hx
    rwa [Tracked, htrackers]
  have hheld : ∀ t x, (s'.pc t).held = some x → (s.pc t).held = some x := by
    intro t x hx
    rcases hpc t with hsame | ⟨hnone, _⟩
    · rwa [← hsame]
    · rw [hnone] at hx
      nomatch hx
  refine ⟨hpmm ▸ h.buddy, fun cls => (hcaches cls).1, fun cls => (hcaches cls).2.1,
    fun cls => (hcaches cls).2.2, fun c cls => (hlane c cls).2, fun f hf => ?_, hchains,
    fun x p hx => ?_, fun x hx => ?_, fun t x hx => ?_,
    fun t t' x hx hx' => h.held_inj t t' x (hheld t x hx) (hheld t' x hx'), fun t => ?_,
    fun t cls hcls => ?_⟩
  · rw [htrackers] at hf
    rw [hpmm]
    exact h.apart f hf
  · rcases hloc x p hx with hsome | ⟨htr, _⟩
    · obtain ⟨q, hq⟩ := ne_none_iff_exists'.mp hsome
      exact htracked x (h.known x q hq)
    · exact htracked x htr
  · rw [hout] at hx
    obtain ⟨hnone, htr⟩ := h.out x hx
    refine ⟨?_, htracked x htr⟩
    by_contra hsome
    obtain ⟨p, hp⟩ := ne_none_iff_exists'.mp hsome
    rcases hloc x p hp with hne | ⟨_, hnot, _⟩
    · exact hne hnone
    · exact hnot hx
  · obtain ⟨hnone, hnot, htr⟩ := h.held t x (hheld t x hx)
    refine ⟨?_, hout ▸ hnot, htracked x htr⟩
    by_contra hsome
    obtain ⟨p, hp⟩ := ne_none_iff_exists'.mp hsome
    rcases hloc x p hp with hne | ⟨_, _, hfree⟩
    · exact hne hnone
    · exact hfree t hx
  · rcases hpc t with hsame | ⟨_, hok, _⟩
    · rw [hsame]
      refine (h.pcs t).mono (fun c cls => (hlane c cls).1) (fun c cls x hx => hlink x ?_)
        fun x hd hx => hlink x (.inl (h.held t x (Pc.held_of_linked hx)).1)
      exact .inr ⟨c, cls, h.chains.loc_head (i := Place.lane c cls) hx⟩
    · exact hok
  · rcases hpc t with hsame | ⟨_, _, hlt⟩
    · rw [hsame] at hcls
      exact h.class_lt t cls hcls
    · exact hlt cls hcls

lemma caches_ok (cls : ℕ) : (s.caches cls).geom = geomOf cls ∧
    (s.caches cls).cachePartial = [] ∧ (s.caches cls).empty = [] :=
  ⟨h.geom cls, h.noPartial cls, h.noEmpty cls⟩

lemma lane_ok {w : Lane} (hle : LaneLe (s.lanes c cls) w)
    (hpart : w.partialPages = []) (c' cls' : ℕ) :
    LaneLe (s.lanes c' cls') ((s.setLane c cls w).lanes c' cls') ∧
      ((s.setLane c cls w).lanes c' cls').partialPages = [] := by
  rw [setLane_apply]
  split_ifs with heq
  · obtain ⟨rfl, rfl⟩ := heq
    exact ⟨hle, hpart⟩
  · exact ⟨.refl _, h.noCpuPartial c' cls'⟩

end

lemma laneLe_bump (w : Lane) (hd : Option ℕ) :
    LaneLe w { w with head := hd, ver := w.ver + 1 } :=
  ⟨le_succ _, fun hver => absurd hver (succ_ne_self _)⟩

lemma popLane (h : SlabPcpuInv s L loc) (hx : (s.lanes c cls).head = some x) :
    SlabPcpuInv (s.setLane c cls
      { s.lanes c cls with head := s.link x, ver := (s.lanes c cls).ver + 1 }) L
      (update loc x none) := by
  refine h.transfer h.caches_ok (h.lane_ok (laneLe_bump _ _) (h.noCpuPartial c cls)) ?_
    fun y p hy => .inl (by simp [Transition.of_update hy nofun])
  rw [headAt_setLane]
  exact h.chains.pop (i := Place.lane c cls) hx

/-- What a slot that comes onto a chain satisfies. -/
structure Loose (s : SlabPcpu) (loc : ℕ → Option Place) (x : ℕ) : Prop where
  free : loc x = none
  tracked : s.Tracked x
  notOut : x ∉ s.out
  notHeld : ∀ t, (s.pc t).held ≠ some x

lemma Loose.hloc (hx : Loose s loc x) (q : Place) (y : ℕ) (p : Place)
    (hy : update loc x (some q) y = some p) :
    loc y ≠ none ∨ (s.Tracked y ∧ y ∉ s.out ∧ ∀ t, (s.pc t).held ≠ some y) := by
  by_cases hyx : y = x
  · subst hyx
    exact .inr ⟨hx.tracked, hx.notOut, hx.notHeld⟩
  · rw [update_of_ne hyx] at hy
    rw [hy]
    exact .inl (some_ne_none p)

lemma pushLane (h : SlabPcpuInv s L loc) (hx : Loose s loc x)
    (hlink : s.link x = (s.lanes c cls).head) :
    SlabPcpuInv (s.setLane c cls
      { s.lanes c cls with head := some x, ver := (s.lanes c cls).ver + 1 }) L
      (update loc x (some (.lane c cls))) := by
  refine h.transfer h.caches_ok (h.lane_ok (laneLe_bump _ _) (h.noCpuPartial c cls)) ?_ (hx.hloc _)
  rw [headAt_setLane]
  exact h.chains.push (i := Place.lane c cls) hx.free hlink

lemma lanes_ok (h : SlabPcpuInv s L loc) (c cls : ℕ) :
    LaneLe (s.lanes c cls) (s.lanes c cls) ∧ (s.lanes c cls).partialPages = [] :=
  ⟨.refl _, h.noCpuPartial c cls⟩

lemma pushRemote (h : SlabPcpuInv s L loc) (hx : Loose s loc x)
    (hlink : s.link x = (s.headers base).remoteFree) :
    SlabPcpuInv (s.setHeader base { s.headers base with remoteFree := some x }) L
      (update loc x (some (.remote base))) := by
  refine h.transfer h.caches_ok h.lanes_ok ?_ (hx.hloc _)
  rw [headAt_setHeader]
  have hsame : update s.headAt (Place.page base) (s.headers base).freelist = s.headAt :=
    update_eq_self (Place.page base) s.headAt
  rw [hsame]
  exact h.chains.push (i := Place.remote base) hx.free hlink

lemma relocate_ne_none {i : Place} {w : Option Place} {p : Place}
    (hx : Chains.relocate loc i w x = some p) : loc x ≠ none := by
  rw [Chains.relocate] at hx
  split_ifs at hx with heq
  · rw [heq]
    exact some_ne_none i
  · rw [hx]
    exact some_ne_none p

/-! ### Whole chains -/

section

variable (h : SlabPcpuInv s L loc)
include h

lemma walk_ends {a : ℕ} (ha : (s.headers base).remoteFree = some a) :
    ∃ r, tailOf s.link s.walkBound a 1 = some r := by
  obtain ⟨l, hl, hloc⟩ := h.chains (.remote base)
  rw [show s.headAt (.remote base) = some a from ha] at hl
  have hsub : l ⊆ range s.walkBound := by
    intro x hx
    have hlt := (h.apart _ (h.known x _ ((hloc x).mp hx))).2
    exact mem_range.mpr ((div_lt_iff_lt_mul pageSize_pos).mp hlt)
  have hlen := (subperm_of_subset hl.nodup hsub).length_le
  rw [length_range] at hlen
  exact isSome_iff_exists.mp (tailOf_isSome hl hlen)

/-- `drain_remote_into_freelist_locked`: the stack goes in front of the page's own chain. -/
lemma drain (base : ℕ) :
    ∃ s' loc', s.drainRemote base = some s' ∧ SlabPcpuInv s' L loc' ∧ s'.pc = s.pc ∧
      s'.cpu = s.cpu ∧ s'.lanes = s.lanes := by
  rw [drainRemote]
  cases hrem : (s.headers base).remoteFree with
  | none => exact ⟨s, loc, rfl, h, rfl, rfl, rfl⟩
  | some a =>
    obtain ⟨⟨tail, n⟩, hwalk⟩ := h.walk_ends hrem
    dsimp only
    rw [hwalk]
    obtain ⟨htail, hch⟩ := h.chains.splice (i := Place.remote base) (j := Place.page base)
      (by simp) hrem hwalk
    refine ⟨_, Chains.relocate loc (.remote base) (some (.page base)), rfl, ?_, rfl, rfl, rfl⟩
    refine h.transfer h.caches_ok h.lanes_ok ?_ (fun x p hx => .inl (relocate_ne_none hx))
      (fun _ => .inl rfl) fun x hx => ?_
    · rwa [headAt_setHeader]
    · refine update_of_ne ?_ _ _
      rintro rfl
      rw [htail] at hx
      simp at hx

lemma takePage {hd : PageHeader} {old : Pc} (hpc : s.pc t = old)
    (hfree : hd.freelist = none) (hremote : hd.remoteFree = (s.headers base).remoteFree)
    (hcarry : old.chain = none) (hchain : pc.chain = (s.headers base).freelist)
    (hheld : pc.held = none) (hok : ∀ s', PcOk s' pc) (hcls : pc.allocCls = old.allocCls) :
    SlabPcpuInv ((s.setHeader base hd).goto t pc) L
      (Chains.relocate loc (.page base) (some (.task t))) := by
  subst hpc
  refine h.transfer h.caches_ok h.lanes_ok ?_ (fun x p hx => .inl (relocate_ne_none hx)) fun t' => ?_
  · have hmove := h.chains.move (i := Place.page base) (j := Place.task t) (by simp) hcarry
    have hsame : (update s.headAt (Place.page base) none) (.remote base) =
        (s.headers base).remoteFree := update_of_ne (by simp) _ _
    rw [headAt_goto, headAt_setHeader, hfree, hremote, hchain, ← hsame,
      update_eq_self, update_comm (by simp)]
    exact hmove
  · rw [goto_pc]
    split
    · refine .inr ⟨hheld, hok _, fun cls' hcls' => h.class_lt t cls' ?_⟩
      rwa [← hcls]
    · exact .inl rfl

/-- A refill publishes the chain it carries: whatever was on the CPU's chain is lost. -/
lemma publish (hchain : pc.chain = none) (hheld : pc.held = none) (hok : ∀ s', PcOk s' pc)
    (hcls : pc.allocCls = none ∨ pc.allocCls = (s.pc t).allocCls) : SlabPcpuInv ((s.setLane c cls
      { s.lanes c cls with head := (s.pc t).chain, ver := (s.lanes c cls).ver + 1 }).goto t pc) L
      (Chains.relocate (Chains.relocate loc (.lane c cls) none) (.task t)
        (some (.lane c cls))) := by
  refine h.transfer h.caches_ok (h.lane_ok (laneLe_bump _ _) (h.noCpuPartial c cls)) ?_
    (fun x p hx => .inl ?_) fun t' => ?_
  · have hmove := (h.chains.drop (.lane c cls)).move (i := Place.task t) (j := Place.lane c cls)
      (by simp) (update_self _ _ _)
    rw [update_idem, update_of_ne (by simp)] at hmove
    rwa [headAt_goto, headAt_setLane, hchain]
  · obtain ⟨q, hq⟩ := ne_none_iff_exists'.mp (relocate_ne_none hx)
    exact relocate_ne_none hq
  · rw [goto_pc]
    split
    · refine .inr ⟨hheld, hok _, fun cls' hcls' => h.class_lt t cls' ?_⟩
      rcases hcls with hnone | hsame
      · rw [hnone] at hcls'
        nomatch hcls'
      · rwa [← hsame]
    · exact .inl rfl

/-! ### What moves no slot -/

lemma reschedule (irqOff : ℕ → Option ℕ) (cpu : ℕ → ℕ) :
    SlabPcpuInv { s with irqOff := irqOff, cpu := cpu } L loc :=
  { h with }

lemma setActive (c cls : ℕ) (a : Option ℕ) :
    SlabPcpuInv (s.setLane c cls { s.lanes c cls with active := a }) L loc := by
  refine h.transfer h.caches_ok (h.lane_ok ⟨le_rfl, fun _ => rfl⟩ (h.noCpuPartial c cls)) ?_
    fun x p hx => .inl (by simp [hx])
  rw [headAt_setLane]
  exact (update_eq_self (Place.lane c cls) s.headAt).symm ▸ h.chains

lemma park (cls base : ℕ) :
    SlabPcpuInv ((s.setHeader base { s.headers base with onList := .full }).setCache cls
      { s.caches cls with full := base :: (s.caches cls).full }) L loc := by
  refine h.transfer (fun cls' => ?_) h.lanes_ok ?_ fun x p hx => .inl (by simp [hx])
  · by_cases hcls : cls' = cls
    · subst hcls
      simpa [setCache] using h.caches_ok cls'
    · simpa [setCache, setHeader, hcls] using h.caches_ok cls'
  · have hhead : ((s.setHeader base { s.headers base with onList := .full }).setCache cls
        { s.caches cls with full := base :: (s.caches cls).full }).headAt =
        (s.setHeader base { s.headers base with onList := .full }).headAt := by
      funext p
      cases p <;> rfl
    have hpage : update s.headAt (Place.page base) (s.headers base).freelist =
        s.headAt := update_eq_self (Place.page base) s.headAt
    rw [hhead, headAt_setHeader, hpage]
    exact (update_eq_self (Place.remote base) s.headAt).symm ▸ h.chains

/-! ### Callers -/

lemma handOut (hx : Loose s loc x) : SlabPcpuInv { s with out := insert x s.out } L loc := by
  refine { h with out := fun y hy => ?_, held := fun t y hy => ?_ }
  · rcases Finset.mem_insert.mp hy with rfl | hy
    · exact ⟨hx.free, hx.tracked⟩
    · exact h.out y hy
  · obtain ⟨hnone, hnot, htr⟩ := h.held t y hy
    refine ⟨hnone, fun hmem => ?_, htr⟩
    rcases Finset.mem_insert.mp hmem with rfl | hmem
    · exact hx.notHeld t hy
    · exact hnot hmem

lemma startAlloc (hidle : s.pc t = .idle) (hcls : cls < kmallocCacheCount) :
    SlabPcpuInv (s.goto t (.allocLoad cls)) L loc := by
  refine h.transfer h.caches_ok h.lanes_ok ?_ (fun x p hx => .inl (by simp [hx])) fun t' => ?_
  · rw [headAt_goto]
    have hsame : s.headAt (.task t) = (Pc.allocLoad cls).chain := by
      rw [headAt, hidle]
      rfl
    rw [← hsame, update_eq_self]
    exact h.chains
  · rw [goto_pc]
    split
    · exact .inr ⟨rfl, trivial, fun cls' h' => some.inj h' ▸ hcls⟩
    · exact .inl rfl

lemma giveBack (hx : x ∈ s.out) :
    SlabPcpuInv { s with out := s.out.erase x } L loc ∧
      Loose { s with out := s.out.erase x } loc x := by
  obtain ⟨hnone, htr⟩ := h.out x hx
  refine ⟨{ h with
    out := fun y hy => h.out y (Finset.mem_of_mem_erase hy), held := fun t y hy => ?_ }, hnone, htr,
    Finset.notMem_erase x _, fun t ht => (h.held t x ht).2.1 hx⟩
  obtain ⟨hn, hnot, htr⟩ := h.held t y hy
  exact ⟨hn, fun hmem => hnot (Finset.mem_of_mem_erase hmem), htr⟩

lemma takeUp (hx : Loose s loc x) (hchain : pc.chain = (s.pc t).chain) (hheld : pc.held = some x)
    (hok : s.PcOk pc) (hcls : pc.allocCls = none) : SlabPcpuInv (s.goto t pc) L loc := by
  have hcase : ∀ t' y, ((s.goto t pc).pc t').held = some y →
      (t' = t ∧ y = x) ∨ (t' ≠ t ∧ (s.pc t').held = some y) := by
    intro t' y hy
    rw [goto_pc] at hy
    split_ifs at hy with ht
    · rw [hheld] at hy
      exact .inl ⟨ht, (some.inj hy).symm⟩
    · exact .inr ⟨ht, hy⟩
  refine { h with
    chains := ?_, held := fun t' y hy => ?_, held_inj := fun t1 t2 y h1 h2 => ?_
    pcs := fun t' => ?_, class_lt := fun t' cls hx' => ?_ }
  · rw [headAt_goto, hchain]
    exact (update_eq_self (Place.task t) s.headAt).symm ▸ h.chains
  · rcases hcase t' y hy with ⟨_, rfl⟩ | ⟨_, hy⟩
    · exact ⟨hx.free, hx.notOut, hx.tracked⟩
    · exact h.held t' y hy
  · rcases hcase t1 y h1 with ⟨ht1, hyx⟩ | ⟨_, hy1⟩ <;>
      rcases hcase t2 y h2 with ⟨ht2, hyx'⟩ | ⟨_, hy2⟩
    · rw [ht1, ht2]
    · exact absurd (hyx ▸ hy2) (hx.notHeld t2)
    · exact absurd (hyx' ▸ hy1) (hx.notHeld t1)
    · exact h.held_inj t1 t2 y hy1 hy2
  · rw [goto_pc]
    split
    · exact hok
    · exact h.pcs t'
  · rw [goto_pc] at hx'
    split at hx'
    · rw [hcls] at hx'
      nomatch hx'
    · exact h.class_lt t' cls hx'

end

/-! ### A fresh page -/

/-- The linking loop leaves the chain of the slots, in order. -/
lemma linkSlots_spec (link : ℕ → Option ℕ) {slots : List ℕ} (hnd : slots.Nodup) :
    Chain (linkSlots link slots).1 (linkSlots link slots).2 slots ∧
      ∀ a, a ∉ slots → (linkSlots link slots).1 a = link a := by
  induction slots with
  | nil => exact ⟨.nil, fun _ _ => rfl⟩
  | cons slot slots ih =>
    rw [nodup_cons] at hnd
    obtain ⟨hch, hsame⟩ := ih hnd.2
    refine ⟨.cons ?_, fun a ha => ?_⟩
    · show Chain (update (linkSlots link slots).1 slot
        (linkSlots link slots).2) (update (linkSlots link slots).1 slot
        (linkSlots link slots).2 slot) slots
      rw [update_self]
      refine hch.frame fun b hb => update_of_ne ?_ _ _
      rintro rfl
      exact hnd.1 hb
    · rw [mem_cons, not_or] at ha
      exact (update_of_ne ha.1 _ _).trans (hsame a ha.2)

/-- The state with the block installed as a fresh page of the class. -/
def grown (s : SlabPcpu) (cls : ℕ) (b : DyadicBlock) (p : Pmm) : SlabPcpu :=
  { s with
    pmm := p.markAllocated (blockAddr b) b.order
    trackers := fun f => if b.first ≤ f ∧ f < b.first + 2 ^ b.order ∧ f < p.totalFrames then
      some cls else s.trackers f
    heads := fun f => if b.first ≤ f ∧ f < b.first + 2 ^ b.order ∧ f < p.totalFrames then
      b.first else s.heads f
    link := (SlabPcpu.linkSlots s.link (pageSlots cls b)).1
    headers := update s.headers (blockAddr b)
      ⟨cls, blockAddr b, (SlabPcpu.linkSlots s.link (pageSlots cls b)).2, 0, .unlisted, none⟩ }

lemma grow_eq (h : SlabPcpuInv s L loc) (hcls : cls < kmallocCacheCount) :
    s.grow cls = some (none, s) ∨ ∃ (b : DyadicBlock) (p : Pmm) (L' : ℕ → List ℕ),
      s.grow cls = some (some (blockAddr b), grown s cls b p) ∧
      b.order = (geomOf cls).slabOrder ∧ b.frames ⊆ freeFrames L ∧ BuddyInv p L' ∧
      freeFrames L' = freeFrames L \ b.frames ∧ p.totalFrames = s.pmm.totalFrames := by
  have hok := geomOk_of_lt cls hcls
  rcases buddyAllocLocked_spec h.buddy (geomOf cls).slabOrder with ⟨hnone, hno⟩ |
    ⟨b, p, L', hsome, ho, hsub, hinv, hfree, hkeep⟩
  · refine .inl ?_
    rw [grow, growLocked]
    dsimp only
    rw [h.geom, hnone]
  · refine .inr ⟨b, p, L', ?_, ho, hsub, hinv, hfree, hkeep.total⟩
    have hcache : ({ s.caches cls with cachePartial := [] } : SlabCache) = s.caches cls := by
      rw [← h.noPartial cls]
    rw [grow, growLocked]
    dsimp only
    rw [h.geom, hsome]
    dsimp only
    rw [if_neg (not_le.mpr hok.first_lt), blockAddr_shiftRight, ← ho]
    simp only [setCache, setHeader, track, drainRemote,
      update_self, h.noPartial, erase_cons_head, update_idem, hcache,
      update_eq_self, one_shiftLeft]
    rfl

lemma fresh (h : SlabPcpuInv s L loc) (hcls : cls < kmallocCacheCount) {b : DyadicBlock} {p : Pmm}
    {L' : ℕ → List ℕ} (ho : b.order = (geomOf cls).slabOrder) (hsub : b.frames ⊆ freeFrames L)
    (hinv : BuddyInv p L') (hfree : freeFrames L' = freeFrames L \ b.frames)
    (htotal : p.totalFrames = s.pmm.totalFrames) :
    ∃ loc', SlabPcpuInv (grown s cls b p) L' loc' := by
  have hlast := h.buddy.last_le_of_subset hsub
  obtain ⟨hch, hsame⟩ := linkSlots_spec s.link ((geomOk_of_lt cls hcls).slots_nodup (blockAddr b))
  -- what is known lies in older pages
  have hold : ∀ x, s.Tracked x → x ∉ pageSlots cls b := by
    intro x hx hmem
    exact (h.apart _ hx).1 (hsub (pageSlots_frame hcls ho hmem))
  have hmono : ∀ x, s.Tracked x → (grown s cls b p).Tracked x := by
    intro x hx
    rw [Tracked, grown]
    dsimp only
    split
    · simp
    · exact hx
  have hnew : ∀ x ∈ pageSlots cls b, (grown s cls b p).Tracked x := by
    intro x hx
    have hf := pageSlots_frame hcls ho hx
    have hin : b.first ≤ x / pageSize ∧ x / pageSize < b.first + 2 ^ b.order ∧
        x / pageSize < p.totalFrames :=
      ⟨hf.1, by rw [← DyadicBlock.last_eq]; exact hf.2, by rw [htotal]; exact hf.2.trans_le hlast⟩
    rw [Tracked, grown]
    simp only [if_pos hin]
    exact some_ne_none cls
  have hlink : ∀ x, s.Tracked x → (grown s cls b p).link x = s.link x :=
    fun x hx => hsame x (hold x hx)
  -- whatever the header held before is overwritten
  set loc1 := Chains.relocate (Chains.relocate loc (.remote (blockAddr b)) none)
    (.page (blockAddr b)) none with hloc1
  have hle : ∀ x q, loc1 x = some q → s.Tracked x := by
    intro x q hx
    obtain ⟨q', hq'⟩ := ne_none_iff_exists'.mp (relocate_ne_none hx)
    obtain ⟨q'', hq''⟩ := ne_none_iff_exists'.mp (relocate_ne_none hq')
    exact h.known x q'' hq''
  have hnone : ∀ x, loc x = none → loc1 x = none := by
    intro x hx
    simp [hloc1, Chains.relocate, hx]
  have hdrop := (h.chains.drop (.remote (blockAddr b))).drop (.page (blockAddr b))
  have hfresh := hdrop.fresh (i := Place.page (blockAddr b)) (by simp)
    (l := pageSlots cls b) (fun x hx => by
      by_contra hsome
      obtain ⟨q, hq⟩ := ne_none_iff_exists'.mp hsome
      exact hold x (hle x q hq) hx) hsame hch
  refine ⟨fun x => if x ∈ pageSlots cls b then some (.page (blockAddr b)) else loc1 x, { h with
      buddy := hinv.of_counters _ _, apart := fun f hf => ?_, chains := ?_
      known := fun x q hx => ?_, out := fun x hx => ?_, held := fun t x hx => ?_
      pcs := fun t => ?_ }⟩
  · rw [hfree]
    show _ ∧ f < p.totalFrames
    rw [grown] at hf
    dsimp only at hf
    split_ifs at hf with hin
    · refine ⟨fun hmem => hmem.2 ⟨hin.1, ?_⟩, hin.2.2⟩
      rw [DyadicBlock.last_eq]
      exact hin.2.1
    · obtain ⟨h1, h2⟩ := h.apart f hf
      exact ⟨fun hmem => h1 hmem.1, htotal ▸ h2⟩
  · refine cast (congrArg (fun f => Chains _ f _) ?_) hfresh
    have hhead : (grown s cls b p).headAt = (s.setHeader (blockAddr b)
        ⟨cls, blockAddr b, (linkSlots s.link (pageSlots cls b)).2, 0, .unlisted, none⟩).headAt := by
      funext q
      cases q <;> rfl
    rw [hhead, headAt_setHeader, update_idem]
    exact update_comm (by simp) _ _ _
  · split_ifs at hx with hmem
    · exact hnew x hmem
    · exact hmono x (hle x q hx)
  · obtain ⟨hn, htr⟩ := h.out x hx
    exact ⟨(if_neg (hold x htr)).trans (hnone x hn), hmono x htr⟩
  · obtain ⟨hn, hnot, htr⟩ := h.held t x hx
    exact ⟨(if_neg (hold x htr)).trans (hnone x hn), hnot, hmono x htr⟩
  · refine (h.pcs t).mono (fun _ _ => .refl _) (fun c cls' x hx => hlink x ?_) fun x hd hx =>
      hlink x (h.held t x (Pc.held_of_linked hx)).2.2
    exact h.known x _ (h.chains.loc_head (i := Place.lane c cls') hx)

end SlabPcpuInv

end Makaos
