import Makaos.Mm.KheapFrames
import Makaos.Mm.Pcp

/-!
Frames are conserved across the per-CPU page caches.

* `PcpCpu.stash`: the array as the list it stands for; `alloc_toKheap`: on it a round of
  `pcp_alloc` is the call of the page allocator's model.
* `PcpInv`: every frame that entered is free, in one stash once, or in the hands of a caller or of
  a task; `Apart`: nobody uses a CPU's page cache while `pcp_drain_all` works on it.
* `pcp_conserves`: over every run whose steps are apart.
* `drain_races_pop`: a frame that `pcp_drain_all` frees after it was popped.
-/

namespace Makaos

open Function PcpCpu Pcp List Transition
open FramesInv (Moved PageAlloc)
variable {f a : ℕ} {pmm : Pmm} {own' : ℕ → FrameOwner} {out : Finset ℕ} {s₁ s : Pcp}
  {L : ℕ → List ℕ} {own : ℕ → FrameOwner} {t i : ℕ}

/-! ### The array and the stash -/

namespace PcpCpu

variable {c : PcpCpu}

/-- The frames of the array, the top first. -/
def stash (c : PcpCpu) : List ℕ := (List.range c.count).map fun i => c.pages (c.count - 1 - i)

@[simp] lemma length_stash : c.stash.length = c.count := by simp [stash]

lemma mem_stash : a ∈ c.stash ↔ ∃ j, j < c.count ∧ c.pages j = a := by
  simp only [stash, mem_map, mem_range]
  constructor
  · rintro ⟨i, hi, rfl⟩
    exact ⟨c.count - 1 - i, by omega, rfl⟩
  · rintro ⟨j, hj, rfl⟩
    exact ⟨c.count - 1 - j, by omega, by congr 1; omega⟩

lemma stash_of_count (h : c.count = 0) : c.stash = [] := by
  rw [stash, h]
  rfl

lemma map_pages_eq_reverse : (range c.count).map c.pages = c.stash.reverse := by
  refine ext_getElem (by simp) fun i h1 h2 => ?_
  simp only [stash, getElem_map, getElem_range, getElem_reverse, length_map, length_range]
  rw [length_map, length_range] at h1
  congr 1
  omega

lemma stash_publish_sub (k : ℕ) : (c.publish (c.count - k)).stash = c.stash.drop k := by
  refine ext_getElem (by simp [publish]) fun i h1 h2 => ?_
  simp only [stash, publish, getElem_map, getElem_range, getElem_drop]
  congr 1
  omega

lemma map_pages_eq_take {k : ℕ} (hk : k ≤ c.count) :
    (range k).map (fun i => c.pages (c.count - 1 - i)) = c.stash.take k := by
  rw [stash, ← map_take, take_range, Nat.min_eq_left hk]

lemma stash_pop (h : c.count ≠ 0) :
    c.stash = c.pages (c.count - 1) :: (c.publish (c.count - 1)).stash := by
  have hpos : 0 < c.count := Nat.pos_of_ne_zero h
  rw [stash_publish_sub]
  have hhead : c.stash.head? = some (c.pages (c.count - 1)) := by
    rw [head?_eq_getElem?, getElem?_eq_getElem (by rw [length_stash]; exact hpos)]
    simp [stash]
  cases hst : c.stash with
  | nil => simp [hst] at hhead
  | cons a l =>
    rw [hst] at hhead
    simp at hhead
    simp [hhead]

lemma stash_push (p : ℕ) :
    ({ c with pages := update c.pages c.count p }.publish (c.count + 1)).stash = p :: c.stash := by
  rw [stash, publish]
  simp only [Nat.add_sub_cancel]
  rw [range_succ_eq_map, map_cons, map_map]
  refine congrArg₂ cons (by simp) ?_
  rw [stash]
  refine map_congr_left fun i hi => ?_
  have hlt := mem_range.mp hi
  simp only [comp_apply]
  rw [update_of_ne (by omega)]
  congr 1
  omega

/-- Frames stored from the count on are on top, the last one first. -/
lemma stash_storePages (l : List ℕ) :
    ({ c with pages := storePages c.pages c.count l }.publish (c.count + l.length)).stash =
      l.reverse ++ c.stash := by
  induction l generalizing c with
  | nil => simp [storePages, stash, publish]
  | cons p l ih =>
    have hnext := @ih ({ c with pages := update c.pages c.count p }.publish (c.count + 1))
    rw [stash_push] at hnext
    simp only [publish] at hnext
    simp only [publish, storePages, length_cons, reverse_cons, append_assoc, singleton_append]
    rw [← hnext]
    simp only [stash]
    rw [show c.count + (l.length + 1) = c.count + 1 + l.length by omega]

end PcpCpu

/-! ### The page allocator's model -/

namespace Pcp

/-- The heap with no slab yet whose stashes are those of the arrays. -/
def toKheap (s : Pcp) : Kheap := ⟨Slab.init s.pmm, fun i => (s.cpus i).stash, fun _ => 0⟩

lemma toKheap_setCpu (s : Pcp) (i : ℕ) (c : PcpCpu) :
    (s.setCpu i c).toKheap = s.toKheap.setStash i c.stash := by
  rw [toKheap, toKheap, Kheap.setStash]
  congr 1
  funext j
  by_cases hj : j = i
  · subst hj
    simp [setCpu]
  · simp [setCpu, hj]

end Pcp

lemma takeBatch_length : ∀ (n : ℕ) {p p' : Pmm} {batch : List ℕ},
    Kheap.takeBatch n p = .ok (batch, p') → batch.length ≤ n := by
  intro n
  induction n with
  | zero =>
    intro p p' batch h
    obtain ⟨rfl, _⟩ := Prod.mk.inj (Except.ok.inj h)
    exact le_rfl
  | succ n ih =>
    intro p p' batch h
    rw [Kheap.takeBatch] at h
    split at h
    · cases h
    · obtain ⟨rfl, _⟩ := Prod.mk.inj (Except.ok.inj h)
      exact Nat.zero_le _
    · split at h
      · cases h
      case h_2 hrec =>
        obtain ⟨rfl, _⟩ := Prod.mk.inj (Except.ok.inj h)
        exact Nat.succ_le_succ (ih hrec)

/-- **A round of `pcp_alloc`** on the array is the call on the stash. -/
lemma alloc_toKheap (s : Pcp) (i : ℕ) :
    s.toKheap.pcpAlloc i = match (s.cpus i).alloc s.pmm with
      | .error e => .error e
      | .ok (r, pmm, c) => .ok (r, ({ s with pmm := pmm }.setCpu i c).toKheap) := by
  have hst : s.toKheap.stash i = (s.cpus i).stash := rfl
  rw [Kheap.pcpAlloc, hst, alloc]
  split
  next p rest hcons =>
    have hne : (s.cpus i).count ≠ 0 := fun h0 => by
      rw [stash_of_count h0] at hcons
      cases hcons
    rw [if_neg hne]
    rw [stash_pop hne, cons.injEq] at hcons
    obtain ⟨rfl, rfl⟩ := hcons
    dsimp only
    rw [toKheap_setCpu]
  next hnil =>
    have h0 : (s.cpus i).count = 0 := by
      rw [← length_stash, hnil]
      rfl
    rw [if_pos h0, refillOne, show s.toKheap.slab.pmm = s.pmm from rfl]
    cases hb : Kheap.takeBatch pcpRefill s.pmm with
    | error e => rfl
    | ok v =>
      obtain ⟨batch, pmm⟩ := v
      dsimp only
      cases hlast : batch.getLast? with
      | none =>
        dsimp only
        have hself : ({ s with pmm := pmm } : Pcp).setCpu i (s.cpus i) = { s with pmm := pmm } := by
          rw [setCpu, update_eq_self]
        rw [hself]
        rfl
      | some result =>
        have hlen := takeBatch_length _ hb
        have hspace : batch.dropLast.reverse.length < pcpDepth - (s.cpus i).count := by
          rw [h0, length_reverse, length_dropLast]
          simp only [pcpRefill, pcpDepth] at hlen ⊢
          omega
        simp only [if_pos hspace, take_length, drop_length, foldlM_nil]
        rw [show (pure pmm : Except Scribbled Pmm) = .ok pmm from rfl]
        dsimp only
        rw [toKheap_setCpu, stash_storePages, reverse_reverse, stash_of_count h0, append_nil]
        rfl

/-! ### The invariant -/

/-- Who has a frame in hand. -/
inductive Holder where
  | caller
  | task (t : ℕ)
  deriving DecidableEq, Repr

variable {hold : ℕ → Option Holder}

namespace PcpPc

/-- The frames a task has in hand. -/
def carried (cpus : ℕ → PcpCpu) : PcpPc → List ℕ
  | .freeing phys => [phys]
  | .drainFree i cnt => (List.range cnt).map (cpus i).pages
  | _ => []

/-- The task is in the middle of draining the CPU. -/
def Drains (i : ℕ) : PcpPc → Prop
  | .drainClear j _ => j = i
  | .drainFree j _ => j = i
  | _ => False

end PcpPc

namespace Pcp

/-- The step uses no page cache that another task is in the middle of draining. -/
def Apart (s : Pcp) : Action → Prop
  | .alloc _ i => ∀ t, ¬ (s.pc t).Drains i
  | .push _ i => ∀ t, ¬ (s.pc t).Drains i
  | .run t => ∀ i, s.pc t = .drainRead i → ∀ t', ¬ (s.pc t').Drains i
  | _ => True

/-- The task is where the action starts. -/
def Enabled (s : Pcp) : Action → Prop
  | .alloc t i => s.pc t = .idle ∧ s.runs i = true
  | .free t phys => s.pc t = .idle ∧ phys ∈ s.out
  | .push t i => (∃ phys, s.pc t = .freeing phys) ∧ s.runs i = true
  | .drainAll t => s.pc t = .idle
  | .run t => s.pc t ≠ .idle ∧ ∀ phys, s.pc t ≠ .freeing phys

/-- Nothing else makes a step. -/
lemma enabled_of_step {s s' : Pcp} {a : Action} (h : s.step a = some s') : s.Enabled a := by
  cases a with
  | alloc t i | free t phys | drainAll t =>
    rw [step] at h
    obtain ⟨hc, h⟩ := Option.ite_none_right_eq_some.mp h
    exact hc
  | push t i =>
    rw [step] at h
    split at h
    next phys hpc =>
      obtain ⟨hc, h⟩ := Option.ite_none_right_eq_some.mp h
      exact ⟨⟨phys, hpc⟩, hc⟩
    · nomatch h
  | run t =>
    refine ⟨fun hpc => ?_, fun phys hpc => ?_⟩ <;> simp [step, runDrain, hpc] at h

lemma goto_pc (s : Pcp) (t : ℕ) (pc : PcpPc) (t' : ℕ) :
    (s.goto t pc).pc t' = if t' = t then pc else s.pc t' := by
  by_cases ht : t' = t
  · subst ht
    simp [goto]
  · simp [goto, ht]

lemma goto_self (s : Pcp) (t : ℕ) : s.goto t (s.pc t) = s := by
  rw [goto, update_eq_self]

end Pcp

/-- **The invariant of the page caches**, with the contents `L` of the buddy lists, the owner of
every frame, and who has the frames in hand. -/
structure PcpInv (s : Pcp) (L : ℕ → List ℕ) (own : ℕ → FrameOwner) (hold : ℕ → Option Holder) :
    Prop where
  frames : FramesInv s.toKheap L (fun _ => .nowhere) own
  count_le : ∀ i, (s.cpus i).count ≤ pcpDepth
  offline : ∀ i, s.runs i = false → (s.cpus i).count = 0
  other : ∀ f h, hold f = some h → own f = .other ∧ f < s.pmm.totalFrames
  out : ∀ a, a ∈ s.out ↔ ∃ f, a = f * pageSize ∧ hold f = some .caller
  carried : ∀ t a, a ∈ (s.pc t).carried s.cpus ↔ ∃ f, a = f * pageSize ∧ hold f = some (.task t)
  carried_nodup : ∀ t, ((s.pc t).carried s.cpus).Nodup
  cleared : ∀ t i cnt, s.pc t = .drainClear i cnt → cnt = (s.cpus i).count
  one_drain : ∀ t t' i, (s.pc t).Drains i → (s.pc t').Drains i → t = t'

/-- The frames that have entered the system. -/
def Entered (own : ℕ → FrameOwner) (hold : ℕ → Option Holder) (f : ℕ) : Prop :=
  (own f).Pooled ∨ hold f ≠ none

namespace PcpInv

lemma hold_of_mul {h : Holder} (hx : ∃ g, f * pageSize = g * pageSize ∧ hold g = some h) :
    hold f = some h := by
  obtain ⟨g, hg, hhold⟩ := hx
  rwa [Nat.eq_of_mul_eq_mul_right pageSize_pos hg]

lemma hold_of_pooled (h : PcpInv s L own hold) (hf : (own f).Pooled) : hold f = none := by
  by_contra hne
  obtain ⟨w, hw⟩ := Option.ne_none_iff_exists'.mp hne
  rwa [(h.other f w hw).1] at hf

lemma pooled_iff_of_settled (hset : Settled own own' f) : (own' f).Pooled ↔ (own f).Pooled := by
  rcases hset with heq | ⟨h1, h2⟩
  · rw [heq]
  · exact iff_of_true h2 h1

lemma alloc_count_le {c c' : PcpCpu} {pmm' : Pmm} {r : Option ℕ} (hle : c.count ≤ pcpDepth)
    (h : c.alloc pmm = .ok (r, pmm', c')) : c'.count ≤ pcpDepth := by
  rw [alloc] at h
  split at h
  · rw [refillOne] at h
    split at h
    · nomatch h
    · split at h
      · obtain ⟨_, _, rfl⟩ := h
        exact hle
      · dsimp only at h
        split at h
        · nomatch h
        · obtain ⟨_, _, rfl⟩ := h
          simp only [publish]
          split <;> omega
  · obtain ⟨_, _, rfl⟩ := h
    simp only [publish]
    omega

/-- What a step of a task keeps. -/
abbrev Keeps (own : ℕ → FrameOwner) (hold : ℕ → Option Holder) (s' : Pcp) : Prop :=
  ∃ L' own' hold', PcpInv s' L' own' hold' ∧ ∀ f, Entered own' hold' f ↔ Entered own hold f

/-- The step to `s₁` of the task `t` leaves alone the page caches that other tasks drain. -/
structure Stays (s s₁ : Pcp) (t : ℕ) : Prop where
  pc : s₁.pc = s.pc
  total : s₁.pmm.totalFrames = s.pmm.totalFrames
  count_le : ∀ i, (s₁.cpus i).count ≤ pcpDepth
  offline : ∀ i, s₁.runs i = false → (s₁.cpus i).count = 0
  carried : ∀ t', t' ≠ t → (s.pc t').carried s₁.cpus = (s.pc t').carried s.cpus
  cleared : ∀ t', t' ≠ t → ∀ i cnt, s.pc t' = .drainClear i cnt →
    (s₁.cpus i).count = (s.cpus i).count

lemma stays (h : PcpInv s L own hold) (htotal : pmm.totalFrames = s.pmm.totalFrames) :
    Stays s { s with pmm := pmm, out := out } t :=
  ⟨rfl, htotal, h.count_le, h.offline, fun _ _ => rfl, fun _ _ _ _ _ => rfl⟩

lemma stays_setCpu {c : PcpCpu} (h : PcpInv s L own hold) (hcount : c.count ≤ pcpDepth)
    (hoff : s.runs i = false → c.count = 0) (hapart : ∀ t', t' ≠ t → ¬ (s.pc t').Drains i)
    (htotal : pmm.totalFrames = s.pmm.totalFrames) :
    Stays s ({ s with pmm := pmm, out := out }.setCpu i c) t := by
  refine ⟨rfl, htotal, ?_, fun j hj => ?_, fun t' ht' => ?_, fun t' ht' j cnt hp => ?_⟩
  · exact (forall_update_iff s.cpus fun _ c => c.count ≤ pcpDepth).mpr
      ⟨hcount, fun j _ => h.count_le j⟩
  · by_cases hji : j = i
    · subst hji
      simpa [setCpu] using hoff hj
    · simpa [setCpu, hji] using h.offline j hj
  · cases hp : s.pc t' with
    | drainFree j cnt =>
      have hj : j ≠ i := by
        rintro rfl
        exact hapart t' ht' (by rw [hp]; rfl)
      simp [PcpPc.carried, setCpu, hj]
    | _ => rfl
  · have hj : j ≠ i := by
      rintro rfl
      exact hapart t' ht' (by rw [hp]; rfl)
    simp [setCpu, hj]

/-- The frames `l` go from the hands `w₀` into the hands `w`, where `none` is a pool. -/
structure Passed (s : Pcp) (out : Finset ℕ) (own own' : ℕ → FrameOwner)
    (hold : ℕ → Option Holder) (l : List ℕ) (w₀ w : Option Holder) : Prop where
  before : ∀ a ∈ l, ∃ f, a = f * pageSize ∧ hold f = w₀ ∧ f < s.pmm.totalFrames ∧
    (w₀ = none → (own f).Pooled) ∧ if w = none then (own' f).Pooled else own' f = .other
  others : ∀ f, f * pageSize ∉ l → Settled own own' f
  out : ∀ a, a ∈ out ↔ if a ∈ l then w = some .caller else a ∈ s.out

section
variable {l : List ℕ} {w₀ w : Option Holder} {L' : ℕ → List ℕ} {w' : Holder} {pc : PcpPc}

/-- Hands that the frames neither leave nor reach stay the same. -/
lemma hand_same (hb : ∀ f, f * pageSize ∈ l → hold f = w₀) {P : ℕ → Prop}
    (hP : ∀ a, P a ↔ ∃ f, a = f * pageSize ∧ hold f = some w') (hw0 : w₀ ≠ some w')
    (hw : w ≠ some w') (a : ℕ) : P a ↔ if a ∈ l then w = some w' else P a := by
  split_ifs with ha
  · refine iff_of_false (fun hc => ?_) hw
    obtain ⟨f, rfl, hf⟩ := (hP a).mp hc
    exact hw0 ((hb f ha).symm.trans hf)
  · exact Iff.rfl

lemma Passed.settled (hset : ∀ f, Settled own own' f) : Passed s s.out own own' hold [] none none :=
  ⟨nofun, fun f _ => hset f, fun _ => by simp⟩

lemma Passed.single {f0 : ℕ} (hf0 : hold f0 = w₀) (hlt : f0 < s.pmm.totalFrames)
    (hpool : w₀ = none → (own f0).Pooled)
    (hafter : if w = none then (own' f0).Pooled else own' f0 = .other)
    (hothers : ∀ f, f ≠ f0 → Settled own own' f)
    (hout : ∀ a, a ∈ out ↔ if a ∈ [f0 * pageSize] then w = some .caller else a ∈ s.out) :
    Passed s out own own' hold [f0 * pageSize] w₀ w := by
  refine ⟨fun a ha => ⟨f0, mem_singleton.mp ha, hf0, hlt, hpool, hafter⟩, fun f hf => ?_, hout⟩
  refine hothers f ?_
  rintro rfl
  exact hf (mem_singleton.mpr rfl)

lemma Passed.at (hp : Passed s out own own' hold l w₀ w) (hf : f * pageSize ∈ l) :
    hold f = w₀ ∧ f < s.pmm.totalFrames ∧ (w₀ = none → (own f).Pooled) ∧
      if w = none then (own' f).Pooled else own' f = .other := by
  obtain ⟨g, hg, hfacts⟩ := hp.before _ hf
  rwa [Nat.eq_of_mul_eq_mul_right pageSize_pos hg]

/-- What is in the hands `w'` after the frames were passed. -/
lemma Passed.hand (hp : Passed s out own own' hold l w₀ w) {P P' : ℕ → Prop}
    (hP : ∀ a, P a ↔ ∃ f, a = f * pageSize ∧ hold f = some w')
    (hP' : ∀ a, P' a ↔ if a ∈ l then w = some w' else P a) (a : ℕ) :
    P' a ↔ ∃ f, a = f * pageSize ∧ (if f * pageSize ∈ l then w else hold f) = some w' := by
  rw [hP']
  by_cases ha : a ∈ l
  · rw [if_pos ha]
    constructor
    · intro hw
      obtain ⟨f, rfl, _⟩ := hp.before a ha
      exact ⟨f, rfl, (if_pos ha).trans hw⟩
    · rintro ⟨f, rfl, hf⟩
      exact (if_pos ha).symm.trans hf
  · rw [if_neg ha, hP]
    refine exists_congr fun f => and_congr_right fun heq => ?_
    rw [if_neg (heq ▸ ha)]

/-- **A task goes on** while frames are passed: what the other tasks have in hand and drain
stays. -/
lemma rehand (h : PcpInv s L own hold)
    (hs : Stays s s₁ t) (hp : Passed s s₁.out own own' hold l w₀ w)
    (hframes : FramesInv s₁.toKheap L' (fun _ => .nowhere) own')
    (hw : ∀ t', t' ≠ t → w₀ ≠ some (.task t') ∧ w ≠ some (.task t'))
    (hmine : ∀ a, a ∈ pc.carried s₁.cpus ↔
      if a ∈ l then w = some (.task t) else a ∈ (s.pc t).carried s.cpus)
    (hnd : (pc.carried s₁.cpus).Nodup)
    (hclear : ∀ i cnt, pc = .drainClear i cnt → cnt = (s₁.cpus i).count)
    (hdrain : ∀ t', t' ≠ t → ∀ i, pc.Drains i → ¬ (s.pc t').Drains i) :
    Keeps own hold (s₁.goto t pc) := by
  have hpc : ∀ t', (s₁.goto t pc).pc t' = if t' = t then pc else s.pc t' := by
    intro t'
    rw [goto_pc, hs.pc]
  refine ⟨L', own', fun f => if f * pageSize ∈ l then w else hold f, ⟨hframes, hs.count_le,
    hs.offline, fun f w' hf => ?_, hp.hand h.out hp.out, fun t' => hp.hand (h.carried t')
    fun a => ?_, fun t' => ?_, fun t' i cnt hc => ?_, fun t1 t2 i h1 h2 => ?_⟩, fun f => ?_⟩
  · rw [show (s₁.goto t pc).pmm.totalFrames = s.pmm.totalFrames from hs.total]
    split_ifs at hf with hl
    · obtain ⟨-, hlt, -, hafter⟩ := hp.at hl
      rw [if_neg (by rw [hf]; nofun)] at hafter
      exact ⟨hafter, hlt⟩
    · obtain ⟨ho, hlt⟩ := h.other f w' hf
      exact ⟨((hp.others f hl).eq (by rw [ho]; exact id)).trans ho, hlt⟩
  · rw [hpc, show (s₁.goto t pc).cpus = s₁.cpus from rfl]
    split
    next heq =>
      subst heq
      exact hmine a
    next hne =>
      rw [hs.carried t' hne]
      exact hand_same (fun _ hf => (hp.at hf).1) (h.carried t') (hw t' hne).1 (hw t' hne).2 a
  · rw [hpc, show (s₁.goto t pc).cpus = s₁.cpus from rfl]
    split_ifs with hne
    · exact hnd
    · rw [hs.carried t' hne]
      exact h.carried_nodup t'
  · rw [hpc] at hc
    split_ifs at hc with hne
    · exact hclear i cnt hc
    · exact (h.cleared t' i cnt hc).trans (hs.cleared t' hne i cnt hc).symm
  · rw [hpc] at h1 h2
    split at h1 <;> split at h2
    case isTrue.isTrue ht1 ht2 => rw [ht1, ht2]
    case isTrue.isFalse ht1 ht2 => exact absurd h2 (hdrain t2 ht2 i h1)
    case isFalse.isTrue ht1 ht2 => exact absurd h1 (hdrain t1 ht1 i h2)
    case isFalse.isFalse ht1 ht2 => exact h.one_drain t1 t2 i h1 h2
  · rw [Entered, Entered]
    split_ifs with hl
    · obtain ⟨hf, -, hpool, hafter⟩ := hp.at hl
      refine iff_of_true ?_ ?_
      · cases w with
        | none => exact .inl hafter
        | some w => exact .inr nofun
      · cases w₀ with
        | none => exact .inl (hpool rfl)
        | some w₀ => exact .inr (by rw [hf]; nofun)
    · rw [pooled_iff_of_settled (hp.others f hl)]

/-- A step on a page cache that nobody drains, in which no task gets or gives a frame. -/
lemma useCpu {c : PcpCpu} (h : PcpInv s L own hold) (hapart : ∀ t, ¬ (s.pc t).Drains i)
    (hruns : s.runs i = true) (hcount : c.count ≤ pcpDepth)
    (htotal : pmm.totalFrames = s.pmm.totalFrames)
    (hframes : FramesInv ({ s with pmm := pmm, out := out }.setCpu i c).toKheap L'
      (fun _ => .nowhere) own')
    (hp : Passed s out own own' hold l none w) (hw : ∀ t, w ≠ some (.task t)) :
    Keeps own hold ({ s with pmm := pmm, out := out }.setCpu i c) := by
  have hoff : s.runs i = false → c.count = 0 := fun hr => absurd (hr.symm.trans hruns) (by simp)
  have hs : ∀ t, Stays s ({ s with pmm := pmm, out := out }.setCpu i c) t :=
    fun t => h.stays_setCpu hcount hoff (fun t' _ => hapart t') htotal
  -- some task goes on where it is
  rw [← goto_self (setCpu _ i c) 0]
  have hcarry : (s.pc 0).carried ({ s with pmm := pmm, out := out }.setCpu i c).cpus =
      (s.pc 0).carried s.cpus := (hs 1).carried 0 (by decide)
  refine h.rehand (hs 0) hp hframes (fun t' _ => ⟨nofun, hw t'⟩) (fun a => ?_)
    (hcarry ▸ h.carried_nodup 0) (fun j cnt hc => ?_)
    fun t' ht' j h1 h2 => ht' (h.one_drain t' 0 j h2 h1)
  · refine (Eq.to_iff (congrArg (a ∈ ·) hcarry)).trans ?_
    exact hand_same (fun _ hf => (hp.at hf).1) (h.carried 0) nofun (hw 0) a
  · exact (h.cleared 0 j cnt hc).trans ((hs 1).cleared 0 (by decide) j cnt hc).symm

/-- The task goes on with nothing in hand; if it is about to drain a CPU, nobody else does. -/
lemma goto_empty (h : PcpInv s L own hold) (hnone : (s.pc t).carried s.cpus = [])
    (hcarry : pc.carried s.cpus = [])
    (hclear : ∀ i cnt, pc = .drainClear i cnt → cnt = (s.cpus i).count)
    (hdrain : ∀ i, pc.Drains i → ∀ t', ¬ (s.pc t').Drains i) : Keeps own hold (s.goto t pc) :=
  h.rehand (h.stays rfl) (.settled fun _ => .inl rfl) h.frames (fun _ _ => ⟨nofun, nofun⟩)
    (fun a => by rw [hcarry, hnone]; simp) (by rw [hcarry]; exact nodup_nil) hclear
    fun t' _ i hd => hdrain i hd t'

end

section

variable (h : PcpInv s L own hold)
include h

/-- `pcp_alloc`: the frame it returns was pooled and is in the caller's hands now. -/
lemma alloc (hapart : ∀ t, ¬ (s.pc t).Drains i) (hruns : s.runs i = true) :
    ∃ r pmm c, (s.cpus i).alloc s.pmm = .ok (r, pmm, c) ∧ Keeps own hold
      ({ s with pmm := pmm, out := r.elim s.out fun p => insert p s.out }.setCpu i c) := by
  obtain ⟨r, k', L', own', hok, hframes, hal⟩ := h.frames.pcpAlloc_spec i
  rw [alloc_toKheap] at hok
  cases hcall : (s.cpus i).alloc s.pmm with
  | error e =>
    rw [hcall] at hok
    cases hok
  | ok v =>
    obtain ⟨r1, pmm, c⟩ := v
    rw [hcall] at hok
    obtain ⟨rfl, rfl⟩ := Prod.mk.inj (Except.ok.inj hok)
    have hcount := alloc_count_le (h.count_le i) hcall
    have htotal : pmm.totalFrames = s.pmm.totalFrames := hal.step.total
    cases r1 with
    | none =>
      exact ⟨none, pmm, c, rfl, h.useCpu hapart hruns hcount htotal hframes
        (.settled (hal.failed rfl)) (by simp)⟩
    | some p =>
      obtain ⟨⟨o, f0⟩, rfl, rfl, hlast, hblock, hothers⟩ := hal.block p rfl
      rw [frames_zero] at hblock hothers
      obtain ⟨hpool, hown'⟩ := hblock f0 rfl
      have hlast' : (⟨0, f0⟩ : DyadicBlock).last ≤ s.pmm.totalFrames := hlast
      have hlt : f0 < s.pmm.totalFrames := by simpa [DyadicBlock.last] using hlast'
      refine ⟨some (blockAddr ⟨0, f0⟩), pmm, c, rfl, h.useCpu hapart hruns hcount htotal hframes
        (.single (w := some .caller) (h.hold_of_pooled hpool) hlt (fun _ => hpool) hown' hothers
          fun a => ?_) (by simp)⟩
      rw [Option.elim_some, Finset.mem_insert, blockAddr_zero]
      split <;> simp_all

lemma drainStash {l rest : List ℕ} (hsplit : (s.cpus i).stash = l ++ rest) :
    ∃ pmm L' own', l.foldlM Kheap.freeForPcp s.pmm = .ok pmm ∧
      FramesInv ((s.toKheap.setStash i rest).setPmm pmm) L' (fun _ => .nowhere) own' ∧
      pmm.totalFrames = s.pmm.totalFrames ∧ ∀ f, Settled own own' f := by
  obtain ⟨own1, h1, hpop⟩ := FramesInv.popStashMany l h.frames hsplit
  have hnd : l.Nodup := by
    have := h.frames.stash_nodup i
    rw [show s.toKheap.stash i = l ++ rest from hsplit] at this
    exact (nodup_append.mp this).1
  obtain ⟨pmm, L', own2, hok, h2, htot, hfree⟩ := FramesInv.freeAll l h1 hnd fun a ha => by
    obtain ⟨f, rfl⟩ := hpop.aligned a ha
    exact ⟨f, rfl, hpop.after f ha, h.frames.stash_lt f i (hpop.before f ha)⟩
  refine ⟨pmm, L', own2, hok, h2, htot, fun f => ?_⟩
  by_cases hf : f * pageSize ∈ l
  · exact .inr ⟨by rw [hpop.before f hf]; trivial, by rw [hfree.after f hf]; trivial⟩
  · exact .inl (by rw [hfree.others f hf, hpop.others f hf])

/-- The drain of a full page cache in `pcp_free`. -/
lemma drainRound (hapart : ∀ t, ¬ (s.pc t).Drains i)
    (hruns : s.runs i = true) (hfull : (s.cpus i).count ≥ pcpDepth) (phys : ℕ) :
    ∃ pmm c, (s.cpus i).free s.pmm phys = .ok (false, pmm, c) ∧
      Keeps own hold ({ s with pmm := pmm }.setCpu i c) := by
  have hle : pcpRefill ≤ (s.cpus i).count := le_trans (by decide) hfull
  have hpos : ¬ (pcpRefill = 0 ∨ (s.cpus i).count = 0) := by
    simp only [pcpRefill] at hle ⊢
    omega
  obtain ⟨pmm, L', own', hok, hframes, htot, hset⟩ :=
    h.drainStash (take_append_drop pcpRefill (s.cpus i).stash).symm
  have hcall : (s.cpus i).free s.pmm phys =
      .ok (false, pmm, (s.cpus i).publish ((s.cpus i).count - pcpRefill)) := by
    rw [free, if_pos hfull, drainOne, if_neg hpos, if_neg (not_lt.mpr hle)]
    dsimp only
    rw [map_pages_eq_take hle, hok]
  have hframes' : FramesInv ({ s with pmm := pmm }.setCpu i
      ((s.cpus i).publish ((s.cpus i).count - pcpRefill))).toKheap L' (fun _ => .nowhere) own' := by
    rwa [toKheap_setCpu, stash_publish_sub]
  exact ⟨pmm, _, hcall, h.useCpu hapart hruns ((Nat.sub_le _ _).trans (h.count_le i)) htot hframes'
    (.settled hset) nofun⟩

lemma free (hidle : s.pc t = .idle) (ha : a ∈ s.out) :
    Keeps own hold ({ s with
      pmm := Kheap.refZero s.pmm a
      out := s.out.erase a }.goto t (.freeing a)) := by
  obtain ⟨f0, rfl, hf0⟩ := (h.out a).mp ha
  obtain ⟨ho, hlt⟩ := h.other f0 _ hf0
  refine h.rehand (h.stays rfl) (.single (w := some (.task t)) hf0 hlt nofun ho
    (fun _ _ => .inl rfl) fun b => ?_) (h.frames.setCounters _ _) (fun t' ht' => ⟨nofun, ?_⟩)
    (fun b => ?_) (nodup_singleton _) nofun (fun t' _ i hd => absurd hd id)
  · rw [Finset.mem_erase]
    split <;> simp_all
  · rintro ⟨⟩
    exact ht' rfl
  · rw [hidle]
    simp [PcpPc.carried]

lemma pushRound (hapart : ∀ t, ¬ (s.pc t).Drains i)
    (hruns : s.runs i = true) (hroom : ¬ (s.cpus i).count ≥ pcpDepth) (hpc : s.pc t = .freeing a) :
    ∃ c, (s.cpus i).free s.pmm a = .ok (true, s.pmm, c) ∧
      Keeps own hold ((s.setCpu i c).goto t .idle) := by
  have hmem : a ∈ (s.pc t).carried s.cpus := by
    rw [hpc]
    exact mem_singleton.mpr rfl
  obtain ⟨f0, rfl, hf0⟩ := (h.carried t a).mp hmem
  obtain ⟨ho, hlt⟩ := h.other f0 _ hf0
  have hframes := h.frames.pushStash (c := i) ho hlt
  rw [show s.toKheap.stash i = (s.cpus i).stash from rfl, ← stash_push, ← toKheap_setCpu] at hframes
  refine ⟨_, by rw [PcpCpu.free, if_neg hroom], h.rehand (h.stays_setCpu ?_ ?_
    (fun t' _ => hapart t') rfl) (.single (w := none) hf0 hlt nofun ?_ (fun f hf => .inl ?_)
    fun b => ?_) hframes (fun t' ht' => ⟨?_, nofun⟩) (fun b => ?_) nodup_nil nofun
    (fun t' _ j hd => absurd hd id)⟩
  · exact Nat.not_le.mp hroom
  · intro hr
    exact absurd (hr.symm.trans hruns) (by simp)
  · rw [if_pos rfl, reown_zero, if_pos rfl]
    trivial
  · rw [reown_zero, if_neg hf]
  · have hmine : ∀ f, f * pageSize ∈ [f0 * pageSize] → hold f = some (.task t) := fun f hf => by
      rwa [Nat.eq_of_mul_eq_mul_right pageSize_pos (mem_singleton.mp hf)]
    exact hand_same (w := none) hmine h.out nofun nofun b
  · rintro ⟨⟩
    exact ht' rfl
  · rw [hpc]
    simp [PcpPc.carried]

lemma drainClear {cnt : ℕ} (hpc : s.pc t = .drainClear i cnt) :
    Keeps own hold ((s.setCpu i ((s.cpus i).publish 0)).goto t (.drainFree i cnt)) := by
  obtain rfl := h.cleared t i cnt hpc
  have hdrains : ∀ t', t' ≠ t → ¬ (s.pc t').Drains i := by
    intro t' ht' hd
    exact ht' (h.one_drain t' t i hd (by rw [hpc]; rfl))
  obtain ⟨own', hframes, hpop⟩ := FramesInv.popStashMany (s.cpus i).stash h.frames
    (append_nil _).symm
  have hframes' : FramesInv (s.setCpu i ((s.cpus i).publish 0)).toKheap L (fun _ => .nowhere)
      own' := by
    rwa [toKheap_setCpu]
  have hpages : (PcpPc.drainFree i (s.cpus i).count).carried
      (s.setCpu i ((s.cpus i).publish 0)).cpus = (s.cpus i).stash.reverse := by
    rw [← map_pages_eq_reverse]
    simp [PcpPc.carried, setCpu, publish]
  have hpool : ∀ f, f * pageSize ∈ (s.cpus i).stash → (own f).Pooled := by
    intro f hf
    rw [hpop.before f hf]
    trivial
  refine h.rehand (h.stays_setCpu (Nat.zero_le _) (fun _ => rfl) hdrains rfl)
    (⟨fun a ha => ?_, fun f hf => .inl (hpop.others f hf),
        hand_same (fun f hf => h.hold_of_pooled (hpool f hf)) h.out nofun nofun⟩ :
      Passed s s.out own own' hold (s.cpus i).stash none (some (.task t))) hframes'
    (fun t' ht' => ⟨nofun, ?_⟩) (fun a => ?_) ?_ nofun (fun t' ht' j hd => ?_)
  · obtain ⟨f, rfl⟩ := hpop.aligned a ha
    exact ⟨f, rfl, h.hold_of_pooled (hpool f ha), h.frames.stash_lt f i (hpop.before f ha),
      fun _ => hpool f ha, hpop.after f ha⟩
  · rintro ⟨⟩
    exact ht' rfl
  · rw [hpages, hpc]
    simp [PcpPc.carried]
  · rw [hpages, nodup_reverse]
    exact h.frames.stash_nodup i
  · obtain rfl : i = j := hd
    exact hdrains t' ht'

lemma drainFree {cnt : ℕ} (hpc : s.pc t = .drainFree i cnt) :
    ∃ pmm, ((range cnt).map (s.cpus i).pages).foldlM Kheap.freeForPcp s.pmm = .ok pmm ∧
      Keeps own hold ({ s with pmm := pmm }.goto t (.drainRead (i + 1))) := by
  have hl : (s.pc t).carried s.cpus = (range cnt).map (s.cpus i).pages := by
    rw [hpc]
    rfl
  have hcarry := h.carried t
  have hnd := h.carried_nodup t
  rw [hl] at hcarry hnd
  have hbefore : ∀ a ∈ (range cnt).map (s.cpus i).pages, ∃ f, a = f * pageSize ∧
      hold f = some (.task t) ∧ own f = .other ∧ f < s.pmm.totalFrames := by
    intro a ha
    obtain ⟨f, rfl, hf⟩ := (hcarry a).mp ha
    exact ⟨f, rfl, hf, h.other f _ hf⟩
  obtain ⟨pmm, L', own', hok, hframes, htot, hmv⟩ := FramesInv.freeAll _ h.frames hnd fun a ha => by
    obtain ⟨f, rfl, -, hf⟩ := hbefore a ha
    exact ⟨f, rfl, hf⟩
  refine ⟨pmm, hok, h.rehand (h.stays htot) (⟨fun a ha => ?_, fun f hf => .inl (hmv.others f hf),
    hand_same (fun _ hf => hold_of_mul ((hcarry _).mp hf)) h.out nofun nofun⟩ :
      Passed s s.out own own' hold _ (some (.task t)) none) hframes
    (fun t' ht' => ⟨?_, nofun⟩) (fun a => ?_) nodup_nil nofun
    (fun t' _ j hd => absurd hd id)⟩
  · obtain ⟨f, rfl, hf, -, hlt⟩ := hbefore a ha
    refine ⟨f, rfl, hf, hlt, nofun, ?_⟩
    rw [if_pos rfl, hmv.after f ha]
    trivial
  · rintro ⟨⟩
    exact ht' rfl
  · rw [hl]
    split_ifs with ha
    · exact iff_of_false not_mem_nil nofun
    · exact iff_of_false not_mem_nil ha

lemma runDrain (hapart : s.Apart (.run t)) (hen : s.Enabled (.run t)) :
    ∃ s', s.runDrain t = some s' ∧ Keeps own hold s' := by
  rw [Pcp.runDrain]
  cases hpc : s.pc t with
  | idle => exact absurd hpc hen.1
  | freeing phys => exact absurd hpc (hen.2 phys)
  | drainRead i =>
    have hnone : (s.pc t).carried s.cpus = [] := by rw [hpc]; rfl
    dsimp only
    split
    · exact ⟨_, rfl, h.goto_empty hnone rfl nofun (fun _ hd => absurd hd id)⟩
    · split
      · exact ⟨_, rfl, h.goto_empty hnone rfl nofun (fun _ hd => absurd hd id)⟩
      · refine ⟨_, rfl, h.goto_empty hnone rfl (fun j cnt hp => ?_) (fun j hd => ?_)⟩
        · cases hp
          rfl
        · obtain rfl : i = j := hd
          exact hapart i hpc
  | drainClear i cnt => exact ⟨_, rfl, h.drainClear hpc⟩
  | drainFree i cnt =>
    obtain ⟨pmm, hok, h'⟩ := h.drainFree hpc
    dsimp only
    rw [hok]
    exact ⟨_, rfl, h'⟩

/-- **One step.**  A step that is apart is made, and frames neither enter nor leave. -/
lemma step {a : Action} (hapart : s.Apart a) (hen : s.Enabled a) :
    ∃ s', s.step a = some s' ∧ Keeps own hold s' := by
  cases a with
  | alloc t i =>
    obtain ⟨r, pmm, c, hcall, h'⟩ := h.alloc hapart hen.2
    rw [Pcp.step, if_pos (show s.pc t = .idle ∧ s.runs i = true from hen), hcall]
    cases r with
    | none | some p => exact ⟨_, rfl, h'⟩
  | free t phys =>
    rw [Pcp.step, if_pos (show s.pc t = .idle ∧ phys ∈ s.out from hen)]
    exact ⟨_, rfl, h.free hen.1 hen.2⟩
  | push t i =>
    obtain ⟨⟨phys, hpc⟩, hruns⟩ := hen
    rw [Pcp.step, hpc]
    dsimp only
    rw [if_pos hruns]
    rcases Nat.lt_or_ge (s.cpus i).count pcpDepth with hroom | hfull
    · obtain ⟨c, hcall, h'⟩ := h.pushRound hapart hruns (Nat.not_le.mpr hroom) hpc
      rw [hcall]
      exact ⟨_, rfl, h'⟩
    · obtain ⟨pmm, c, hcall, h'⟩ := h.drainRound hapart hruns hfull phys
      rw [hcall]
      exact ⟨_, rfl, h'⟩
  | drainAll t =>
    have hidle : s.pc t = .idle := hen
    rw [Pcp.step, if_pos hidle]
    exact ⟨_, rfl, h.goto_empty (by rw [hidle]; rfl) rfl nofun (fun _ hd => absurd hd id)⟩
  | run t => exact h.runDrain hapart hen

end

end PcpInv

/-! ### Runs -/

namespace Pcp

/-- A step that is apart. -/
def ApartStep (s s' : Pcp) : Prop := ∃ a, s.Apart a ∧ s.step a = some s'

/-- The frames that are there at the start: the free ones and those in callers' hands. -/
def startFrames (L : ℕ → List ℕ) (out : Finset ℕ) : Set ℕ :=
  freeFrames L ∪ {f | f * pageSize ∈ out}

open Classical in
/-- Every frame the allocators know of is free or in a caller's hands at the start. -/
lemma init_inv (hpmm : BuddyInv pmm L)
    (hout : ∀ a ∈ out, ∃ f, a = f * pageSize ∧ f ∉ freeFrames L ∧ f < pmm.totalFrames)
    (online : ℕ → Bool) (pages : ℕ → ℕ → ℕ) :
    PcpInv (init pmm online pages out) L (fun f => if f ∈ freeFrames L then .free else .other)
      (fun f => if f * pageSize ∈ out then some .caller else none) := by
  have hcaller : ∀ f, f * pageSize ∈ out → f ∉ freeFrames L ∧ f < pmm.totalFrames := by
    intro f hf
    obtain ⟨g, hg, hfacts⟩ := hout _ hf
    rwa [Nat.eq_of_mul_eq_mul_right pageSize_pos hg]
  refine ⟨FramesInv.fresh hpmm rfl fun _ => stash_of_count rfl, fun i => Nat.zero_le _,
    fun i _ => rfl, fun f w hw => ?_, fun a => ?_, fun t a => ?_, fun t => nodup_nil,
    nofun, fun t t' i hd => absurd hd id⟩
  · obtain ⟨hmem, hw⟩ := Option.ite_none_right_eq_some.mp hw
    obtain ⟨hnot, hlt⟩ := hcaller f hmem
    exact ⟨if_neg hnot, hlt⟩
  · constructor
    · intro ha
      obtain ⟨f, rfl, _⟩ := hout a ha
      exact ⟨f, rfl, if_pos ha⟩
    · rintro ⟨f, rfl, hf⟩
      by_contra hmem
      exact absurd ((if_neg hmem).symm.trans hf) (by simp)
  · refine iff_of_false not_mem_nil ?_
    rintro ⟨f, _, hf⟩
    split at hf <;> nomatch hf

/-- **A run whose steps are apart** keeps the invariant, and no frame enters or leaves. -/
lemma run_inv (hpmm : BuddyInv pmm L)
    (hout : ∀ a ∈ out, ∃ f, a = f * pageSize ∧ f ∉ freeFrames L ∧ f < pmm.totalFrames)
    {online : ℕ → Bool} {pages : ℕ → ℕ → ℕ}
    (hrun : Relation.ReflTransGen ApartStep (init pmm online pages out) s) :
    ∃ L' own hold, PcpInv s L' own hold ∧ ∀ f, Entered own hold f ↔ f ∈ startFrames L out := by
  induction hrun with
  | refl =>
    refine ⟨L, _, _, init_inv hpmm hout online pages, fun f => ?_⟩
    rw [Entered, startFrames, Set.mem_union, Set.mem_ofPred_eq]
    refine or_congr ?_ (by simp)
    by_cases hf : f ∈ freeFrames L <;> simp [hf, FrameOwner.Pooled]
  | tail _ hstep ih =>
    obtain ⟨L1, own1, hold1, h1, hent1⟩ := ih
    obtain ⟨a, hapart, hs⟩ := hstep
    obtain ⟨s2, hs2, L2, own2, hold2, h2, hent2⟩ := h1.step hapart (enabled_of_step hs)
    cases hs.symm.trans hs2
    exact ⟨L2, own2, hold2, h2, fun f => (hent2 f).trans (hent1 f)⟩

/-! ### Where a frame is -/

/-- The places of a frame. -/
inductive Place where
  | buddy
  /-- an entry of the array of a CPU -/
  | stash (c j : ℕ)
  | hand (h : Holder)
  deriving DecidableEq, Repr

/-- Who owns the frames at the place. -/
def Place.owner : Place → FrameOwner
  | .buddy => .free
  | .stash c _ => .stash c
  | .hand _ => .other

/-- The frame is at the place. -/
def At (s : Pcp) (L : ℕ → List ℕ) (f : ℕ) : Place → Prop
  | .buddy => f ∈ freeFrames L
  | .stash c j => j < (s.cpus c).count ∧ (s.cpus c).pages j = f * pageSize
  | .hand .caller => f * pageSize ∈ s.out
  | .hand (.task t) => f * pageSize ∈ (s.pc t).carried s.cpus

end Pcp

namespace PcpInv

section

variable (h : PcpInv s L own hold) {p : Pcp.Place}
include h

lemma own_of_stash {c j : ℕ} (hp : s.At L f (.stash c j)) : own f = .stash c := by
  obtain ⟨g, hg, hown⟩ := (h.frames.stash c _).mp (mem_stash.mpr ⟨j, hp.1, hp.2⟩)
  rwa [Nat.eq_of_mul_eq_mul_right pageSize_pos hg]

lemma at_hand_iff {w : Holder} : s.At L f (.hand w) ↔ hold f = some w := by
  cases w with
  | caller => exact (h.out _).trans ⟨hold_of_mul, fun hf => ⟨f, rfl, hf⟩⟩
  | task t => exact (h.carried t _).trans ⟨hold_of_mul, fun hf => ⟨f, rfl, hf⟩⟩

lemma index_unique {c j j' : ℕ} (hj : j < (s.cpus c).count)
    (hj' : j' < (s.cpus c).count) (heq : (s.cpus c).pages j = (s.cpus c).pages j') : j = j' := by
  have hnd : ((range (s.cpus c).count).map (s.cpus c).pages).Nodup := by
    rw [map_pages_eq_reverse, nodup_reverse]
    exact h.frames.stash_nodup c
  exact inj_on_of_nodup_map hnd (mem_range.mpr hj) (mem_range.mpr hj') heq

lemma entered_of_at (hp : s.At L f p) : Entered own hold f := by
  cases p with
  | buddy =>
    left
    rw [(h.frames.free f).mp hp]
    trivial
  | stash c j =>
    left
    rw [h.own_of_stash hp]
    trivial
  | hand w =>
    right
    rw [h.at_hand_iff.mp hp]
    simp

lemma at_of_entered (hf : Entered own hold f) : ∃ p, s.At L f p := by
  rcases hf with hpool | hhold
  · cases ho : own f with
    | free => exact ⟨.buddy, (h.frames.free f).mpr ho⟩
    | stash c =>
      obtain ⟨j, hj, hpage⟩ := mem_stash.mp ((h.frames.stash c _).mpr ⟨f, rfl, ho⟩)
      exact ⟨.stash c j, hj, hpage⟩
    | _ =>
      rw [ho] at hpool
      exact absurd hpool id
  · obtain ⟨w, hw⟩ := Option.ne_none_iff_exists'.mp hhold
    exact ⟨.hand w, h.at_hand_iff.mpr hw⟩

/-- The owner of a frame that is at the place. -/
lemma own_of_at (hp : s.At L f p) : own f = p.owner := by
  cases p with
  | buddy => exact (h.frames.free f).mp hp
  | stash c j => exact h.own_of_stash hp
  | hand w => exact (h.other f w (h.at_hand_iff.mp hp)).1

lemma at_unique {p q : Pcp.Place} (hp : s.At L f p) (hq : s.At L f q) : p = q := by
  -- the owner of the frame tells the places apart, `hold` the hands, and the array its entries
  have howner : p.owner = q.owner := (h.own_of_at hp).symm.trans (h.own_of_at hq)
  cases p with
  | buddy =>
    cases q with
    | buddy => rfl
    | _ => nomatch howner
  | stash c j =>
    cases q with
    | stash c' j' =>
      obtain rfl : c = c' := FrameOwner.stash.inj howner
      rw [h.index_unique hp.1 hq.1 (hp.2.trans hq.2.symm)]
    | _ => nomatch howner
  | hand w =>
    cases q with
    | hand w' =>
      rw [Option.some.inj ((h.at_hand_iff.mp hp).symm.trans (h.at_hand_iff.mp hq))]
    | _ => nomatch howner

end

/-! ### `pcp_drain_all` alone -/

/-- No task but `t` is in any of the functions. -/
def Alone (s : Pcp) (t : ℕ) : Prop := ∀ t', t' ≠ t → s.pc t' = .idle

lemma Alone.goto (ha : Alone s t) (hpc : s₁.pc = s.pc) (pc : PcpPc) : Alone (s₁.goto t pc) t := by
  intro t' ht'
  rw [goto_pc, if_neg ht', hpc]
  exact ha t' ht'

lemma Alone.apart (ha : Alone s t) (hpc : s.pc t = .drainRead i) : s.Apart (.run t) := by
  intro j _ t' hd
  by_cases ht' : t' = t
  · subst ht'
    rwa [hpc] at hd
  · rwa [ha t' ht'] at hd

/-- A round of the loop of `pcp_drain_all`: the CPU's stash is empty after it, and the others are
as before. -/
lemma drainOneCpu (h : PcpInv s L own hold) (ha : Alone s t) (hpc : s.pc t = .drainRead i)
    (hi : i < maxCpus) :
    ∃ n s', exec Pcp.step s (replicate n (.run t)) = some s' ∧ s'.pc t = .drainRead (i + 1) ∧
      Alone s' t ∧ (∃ L' own' hold', PcpInv s' L' own' hold') ∧ (s'.cpus i).count = 0 ∧
      ∀ j, j ≠ i → s'.cpus j = s.cpus j := by
  have hread := h.runDrain (ha.apart hpc) ⟨by rw [hpc]; simp, by rw [hpc]; simp⟩
  by_cases hskip : (!s.online i || (s.cpus i).count = 0) = true
  · obtain ⟨s₁, hs1, L1, own1, hold1, h1, _⟩ := hread
    have hstep : s.runDrain t = some (s.goto t (.drainRead (i + 1))) := by
      rw [Pcp.runDrain, hpc]
      dsimp only
      rw [if_neg (Nat.not_le.mpr hi), if_pos hskip]
    cases hstep.symm.trans hs1
    refine ⟨1, _, ?_, by rw [goto_pc, if_pos rfl], ha.goto rfl _, ⟨L1, own1, hold1, h1⟩, ?_,
      fun _ _ => rfl⟩
    · rw [List.replicate_one, exec_of_step (show s.step (.run t) = _ from hstep)]
      rfl
    · rcases Bool.or_eq_true_iff.mp hskip with hoff | hzero
      · exact h.offline i (by simp [runs, Bool.not_eq_true' _ ▸ hoff])
      · exact of_decide_eq_true hzero
  · obtain ⟨s₁, hs1, L1, own1, hold1, h1, _⟩ := hread
    have hstep : s.runDrain t = some (s.goto t (.drainClear i (s.cpus i).count)) := by
      rw [Pcp.runDrain, hpc]
      dsimp only
      rw [if_neg (Nat.not_le.mpr hi), if_neg hskip]
    cases hstep.symm.trans hs1
    have hpc1 : (s.goto t (.drainClear i (s.cpus i).count)).pc t =
        .drainClear i (s.cpus i).count := by rw [goto_pc, if_pos rfl]
    obtain ⟨L2, own2, hold2, h2, _⟩ := h1.drainClear hpc1
    set s2 := ((s.goto t (.drainClear i (s.cpus i).count)).setCpu i ((s.cpus i).publish 0)).goto t
      (.drainFree i (s.cpus i).count) with hs2
    have hpc2 : s2.pc t = .drainFree i (s.cpus i).count := by rw [hs2, goto_pc, if_pos rfl]
    have hinv2 : PcpInv s2 L2 own2 hold2 := h2
    obtain ⟨pmm, hok, L3, own3, hold3, h3, _⟩ := hinv2.drainFree hpc2
    refine ⟨3, _, ?_, by rw [Pcp.goto_pc, if_pos rfl], ?_, ⟨L3, own3, hold3, h3⟩, ?_, ?_⟩
    · have hclear : (s.goto t (.drainClear i (s.cpus i).count)).step (.run t) = some s2 := by
        rw [Pcp.step, Pcp.runDrain, hpc1]
        rfl
      have hfree : s2.step (.run t) = some ({ s2 with pmm := pmm }.goto t (.drainRead (i + 1))) := by
        rw [Pcp.step, Pcp.runDrain, hpc2]
        dsimp only
        rw [hok]
      rw [show replicate 3 (Pcp.Action.run t) = [.run t, .run t, .run t] from rfl,
        exec_of_step (show s.step (.run t) = _ from hstep), exec_of_step hclear, exec_of_step hfree]
      rfl
    · exact Alone.goto (ha.goto rfl _ |>.goto rfl _) rfl _
    · simp [hs2, goto, setCpu, publish]
    · intro j hj
      simp [hs2, goto, setCpu, hj]

/-- The rest of `pcp_drain_all` from CPU `i` on: it returns, and every stash is empty. -/
lemma drainRest (n : ℕ) : ∀ {s : Pcp} {L : ℕ → List ℕ} {own : ℕ → FrameOwner}
    {hold : ℕ → Option Holder} {i : ℕ}, PcpInv s L own hold → Alone s t → s.pc t = .drainRead i →
    maxCpus ≤ i + n → (∀ c, c < i → (s.cpus c).count = 0) →
    ∃ k s', exec Pcp.step s (replicate k (.run t)) = some s' ∧ s'.pc t = .idle ∧
      ∀ c, (s'.cpus c).count = 0 := by
  induction n with
  | zero =>
    intro s L own hold i h ha hpc hle hdone
    refine ⟨1, s.goto t .idle, ?_, by rw [goto_pc, if_pos rfl], fun c => ?_⟩
    · have hge : i ≥ maxCpus := hle
      simp only [List.replicate_one, exec, Pcp.step, Pcp.runDrain, hpc]
      rw [if_pos hge]
    · rcases Nat.lt_or_ge c i with hc | hc
      · exact hdone c hc
      · exact h.offline c (by
          simp only [runs, Bool.and_eq_false_iff, decide_eq_false_iff_not]
          exact .inl (by omega))
  | succ n ih =>
    intro s L own hold i h ha hpc hle hdone
    rcases Nat.lt_or_ge i maxCpus with hi | hi
    · obtain ⟨k1, s₁, hex1, hpc1, ha1, ⟨L1, own1, hold1, h1⟩, hzero, hsame⟩ :=
        h.drainOneCpu ha hpc hi
      obtain ⟨k2, s2, hex2, hpc2, hall⟩ := ih h1 ha1 hpc1 (by omega) fun c hc => by
        rcases Nat.lt_succ_iff_lt_or_eq.mp hc with hlt | rfl
        · rw [hsame c (Nat.ne_of_lt hlt)]
          exact hdone c hlt
        · exact hzero
      refine ⟨k1 + k2, s2, ?_, hpc2, hall⟩
      rw [replicate_add, exec_append, hex1, Option.bind_some, hex2]
    · exact ih h ha hpc (by omega) hdone

end PcpInv

/-! ### Conservation -/

/-- **Frames are conserved** in every run whose steps are apart: what was there at the start, and
nothing else, is at one place each; no array overflows; every step can be made; and
`pcp_drain_all`, with no other operation going on, returns with every stash empty. -/
theorem pcp_conserves {pmm : Pmm} {L : ℕ → List ℕ} (hpmm : BuddyInv pmm L) {out : Finset ℕ}
    (hout : ∀ a ∈ out, ∃ f, a = f * pageSize ∧ f ∉ freeFrames L ∧ f < pmm.totalFrames)
    {online : ℕ → Bool} {pages : ℕ → ℕ → ℕ} {s : Pcp}
    (hrun : Relation.ReflTransGen Pcp.ApartStep (Pcp.init pmm online pages out) s) :
    (∃ L', BuddyInv s.pmm L' ∧ (∀ f p, s.At L' f p → f ∈ Pcp.startFrames L out) ∧
      ∀ f ∈ Pcp.startFrames L out, ∃! p, s.At L' f p) ∧ (∀ c, (s.cpus c).count ≤ pcpDepth) ∧
    (∀ a, s.Apart a → s.Enabled a → ∃ s', s.step a = some s') ∧ ∀ t, (∀ t', s.pc t' = .idle) →
      ∃ k s', exec Pcp.step s (.drainAll t :: List.replicate k (.run t)) = some s' ∧ s'.pc t = .idle ∧
        ∀ c, (s'.cpus c).count = 0 := by
  obtain ⟨L', own, hold, h, hent⟩ := run_inv hpmm hout hrun
  refine ⟨⟨L', h.frames.slab.buddy, fun f p hp => (hent f).mp (h.entered_of_at hp),
    fun f hf => ?_⟩, h.count_le, fun a hapart hen => ?_, fun t hidle => ?_⟩
  · obtain ⟨p, hp⟩ := h.at_of_entered ((hent f).mpr hf)
    exact ⟨p, hp, fun q hq => h.at_unique hq hp⟩
  · obtain ⟨s', hs', _⟩ := h.step hapart hen
    exact ⟨s', hs'⟩
  · have hstep : s.step (.drainAll t) = some (s.goto t (.drainRead 0)) := by
      rw [step, if_pos (hidle t)]
    obtain ⟨s₁, hs1, L1, own1, hold1, h1, _⟩ := h.step (a := .drainAll t) trivial (hidle t)
    cases hstep.symm.trans hs1
    have halone : PcpInv.Alone s t := fun t' _ => hidle t'
    obtain ⟨k, s', hex, hpc, hall⟩ := PcpInv.drainRest maxCpus h1 (halone.goto rfl _)
      (by rw [goto_pc, if_pos rfl]) (Nat.le_add_left _ _) fun c hc => absurd hc (Nat.not_lt_zero c)
    refine ⟨k, s', ?_, hpc, hall⟩
    rw [exec_of_step hstep, hex]

/-- 16 frames, of which 8 to 11 are free. -/
def fourFree : Pmm :=
  afterFree (emptyPmm noLinks (16 * pageSize) (totalFramesOf (16 * pageSize))) ⟨2, 2⟩

lemma fourFree_inv : ∃ L, BuddyInv fourFree L ∧ freeFrames L = Set.Ico 8 12 := by
  obtain ⟨L, h, hfree, _⟩ := afterFree_inv (emptyPmm_inv noLinks (16 * pageSize)) (b := ⟨2, 2⟩)
    (by decide) (by rw [freeFrames_nil]; exact Set.disjoint_empty _)
  exact ⟨L, h, by rw [hfree, freeFrames_nil, Set.union_empty]; rfl⟩

/-- Two CPUs that run tasks, over the four frames. -/
def twoCaches : Pcp := Pcp.init fourFree (fun i => i < 2) (fun _ _ => 0) ∅

/-- **`pcp_drain_all` races with a pop**: task 1 reads the count 3 of CPU 0; task 0 pops frame 8
there; task 1 clears the count and frees three frames, frame 8 among them.  The refill of CPU 1
takes it, so that it is in the hands of a caller and in the stash of CPU 1. -/
theorem drain_races_pop : ∃ s, (∃ L, BuddyInv fourFree L) ∧
    exec Pcp.step twoCaches [.alloc 0 0, .drainAll 1, .run 1, .alloc 0 0, .run 1, .run 1, .alloc 0 1] =
      some s ∧ ∀ L, s.At L 8 (.hand .caller) ∧ s.At L 8 (.stash 1 0) := by
  have hfacts : (exec Pcp.step twoCaches
      [.alloc 0 0, .drainAll 1, .run 1, .alloc 0 0, .run 1, .run 1, .alloc 0 1]).map (fun s =>
        (decide (8 * pageSize ∈ s.out), decide (0 < (s.cpus 1).count),
          (s.cpus 1).pages 0)) = some (true, true, 8 * pageSize) := by decide +kernel
  obtain ⟨s, hs, heq⟩ := Option.map_eq_some_iff.mp hfacts
  simp only [Prod.mk.injEq, decide_eq_true_eq] at heq
  obtain ⟨L, hL, _⟩ := fourFree_inv
  exact ⟨s, ⟨L, hL⟩, hs, fun _ => ⟨heq.1, heq.2.1, heq.2.2⟩⟩

/-- The invariant at work: after an allocation on CPU 0 frame 11 is at one place, with its
caller. -/
theorem twoCaches_conserves : ∃ s L', twoCaches.step (.alloc 0 0) = some s ∧ BuddyInv s.pmm L' ∧
    s.At L' 11 (.hand .caller) ∧ ∀ p, s.At L' 11 p → p = .hand .caller := by
  have hfacts : (twoCaches.step (.alloc 0 0)).map (fun s => decide (11 * pageSize ∈ s.out)) =
      some true := by decide +kernel
  obtain ⟨s, hs, heq⟩ := Option.map_eq_some_iff.mp hfacts
  obtain ⟨L, hL, hfree⟩ := fourFree_inv
  have hstep : ApartStep twoCaches s := ⟨.alloc 0 0, fun _ hd => hd, hs⟩
  obtain ⟨⟨L', hinv, _, hone⟩, _⟩ :=
    pcp_conserves hL (fun a ha => absurd ha (Finset.notMem_empty a)) (.single hstep)
  have hmem : 11 ∈ startFrames L ∅ := .inl (by rw [hfree]; exact ⟨by decide, by decide⟩)
  have hout : 11 * pageSize ∈ s.out := of_decide_eq_true heq
  have hat : s.At L' 11 (.hand .caller) := hout
  exact ⟨s, L', hs, hinv, hat, fun p hp => (hone 11 hmem).unique hp hat⟩

end Makaos
