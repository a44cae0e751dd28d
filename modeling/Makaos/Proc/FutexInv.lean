import Makaos.Proc.Futex

/-!
What the lock of a bucket protects.

* `Locked`: a bucket is locked by the thread whose position says so.
* `Ids`: records and calls in progress are told apart by their numbers, and have not returned.
* `Lists`: the list of a bucket holds records of calls in progress only, and what a position in
  `futex_wait` says about the record.
-/

namespace Makaos.Futex

open Function WaitPc Option List Nat
variable {ι : Type*}
variable {s s' : Sys ι} {i : ι} {w : Waiter ι} {p : WaitPc} {q : Pc ι} {k : Call ι} {b : BitVec 64}
  {l : List (Waiter ι)} {p' : WaitPc}

/-- The record is published, or has been left behind, and the lock is not held. -/
def WaitPc.opened : WaitPc → Bool
  | .loop | .signal | .deadline | .sleep | .asleep | .errLock _ | .killed => true
  | _ => false

/-- The record can be on the list. -/
def WaitPc.listable : WaitPc → Bool
  | .prefault | .lock | .push | .leave _ => false
  | _ => true

def WakePc.holds : WakePc ι → Bool
  | .lock => false
  | _ => true

/-- The bucket a thread has locked. -/
def Pc.holds : Pc ι → Option (BitVec 64)
  | .idle => none
  | .wait w p => if p.holds then some w.bucket else none
  | .wake k p => if p.holds then some k.bucket else none

/-- The record a call of `futex_wake` has taken off the list and not marked yet. -/
def Pc.inHand : Pc ι → Option (Waiter ι)
  | .wake _ (.mark _ _ w) => some w
  | _ => none

/-- Neither on the list nor woken. -/
def Out (s : Sys ι) (w : Waiter ι) : Prop :=
  w ∉ s.queue w.bucket ∧ s.woken w.id = false

/-- On the list, or woken, or in between. -/
def Published (s : Sys ι) (w : Waiter ι) : Prop :=
  w ∈ s.queue w.bucket ∨ s.woken w.id = true ∨ ∃ j, (s.pc j).inHand = some w

/-- What a position in `futex_wait` says about the record. -/
def Stage (s : Sys ι) (w : Waiter ι) : WaitPc → Prop
  | .prefault | .lock | .push => Out s w
  | .check | .undo => ∃ l, s.queue w.bucket = w :: l
  | .unlock => w ∈ s.queue w.bucket
  | .loop | .signal | .deadline | .sleep | .asleep => Published s w
  | .errLock rc => rc ≠ .ok ∧ Published s w
  | .errCheck rc => rc ≠ .ok ∧ (w ∈ s.queue w.bucket ∨ s.woken w.id = true)
  | .errUnlink rc => rc ≠ .ok ∧ w ∈ s.queue w.bucket
  | .leave rc => (rc = .ok ∧ s.woken w.id = true) ∨ (rc ≠ .ok ∧ Out s w)
  | .killed => True

/-- A bucket is locked by the thread whose position says so. -/
def Locked (s : Sys ι) : Prop := ∀ b i, s.lock b = some i ↔ (s.pc i).holds = some b

/-- Records and calls are told apart by their numbers. -/
structure Ids (s : Sys ι) : Prop where
  wait : ∀ i w p, s.pc i = .wait w p → w.task = i ∧ w.id < s.next ∧ s.result w.id = none
  waitInj : ∀ i j w w' p p', s.pc i = .wait w p → s.pc j = .wait w' p' → w.id = w'.id → i = j
  wake : ∀ i k p, s.pc i = .wake k p → k.task = i ∧ k.id < s.next ∧ ∀ e ∈ s.returned, e.1.id ≠ k.id
  wakeInj : ∀ i j k k' p p', s.pc i = .wake k p → s.pc j = .wake k' p' → k.id = k'.id → i = j
  result : ∀ n, s.next ≤ n → s.result n = none
  woken : ∀ n, s.next ≤ n → s.woken n = false
  woke : ∀ n, s.next ≤ n → s.woke n = []
  returned : ∀ e ∈ s.returned, e.1.id < s.next
  distinct : (s.returned.map fun e => e.1.id).Nodup

/-- What the lists hold. -/
structure Lists (s : Sys ι) : Prop where
  queued : ∀ b, ∀ w ∈ s.queue b, w.bucket = b ∧ s.woken w.id = false ∧
    ∃ p, s.pc w.task = .wait w p ∧ p.listable = true
  nodup : ∀ b, (s.queue b).Nodup
  stage : ∀ i w p, s.pc i = .wait w p → Stage s w p
  hand : ∀ j w, (s.pc j).inHand = some w → Out s w ∧ (s.pc j).holds = some w.bucket ∧
    ∃ p, s.pc w.task = .wait w p ∧ p.opened = true

lemma Ids.wait_eq (h : Ids s) {j : ι} {w' : Waiter ι} (hi : s.pc i = .wait w p)
    (hj : s.pc j = .wait w' p') (hid : w.id = w'.id) : i = j ∧ w = w' ∧ p = p' := by
  obtain rfl := h.waitInj i j w w' p p' hi hj hid
  rw [hi] at hj
  cases hj
  exact ⟨rfl, rfl, rfl⟩

lemma Locked.unique (h : Locked s) {j : ι} (hi : (s.pc i).holds = some b)
    (hj : (s.pc j).holds = some b) : i = j := by
  have h1 := (h b i).2 hi
  rw [(h b j).2 hj] at h1
  exact (some.inj h1).symm

lemma Ids.bump (h : Ids s) : Ids { s with next := s.next + 1 } where
  wait i w p hi := ⟨(h.wait i w p hi).1, (h.wait i w p hi).2.1.trans (lt_succ_self _),
    (h.wait i w p hi).2.2⟩
  waitInj := h.waitInj
  wake i k p hi := ⟨(h.wake i k p hi).1, (h.wake i k p hi).2.1.trans (lt_succ_self _),
    (h.wake i k p hi).2.2⟩
  wakeInj := h.wakeInj
  result n hn := h.result n (le_of_succ_le hn)
  woken n hn := h.woken n (le_of_succ_le hn)
  woke n hn := h.woke n (le_of_succ_le hn)
  returned e he := (h.returned e he).trans (lt_succ_self _)
  distinct := h.distinct

lemma Stage.congr (h : Stage s w p) (hmem : w ∈ s'.queue w.bucket ↔ w ∈ s.queue w.bucket)
    (hqueue : p.holds = true → s'.queue w.bucket = s.queue w.bucket)
    (hwoken : s'.woken w.id = s.woken w.id)
    (hhand : (∃ j, (s'.pc j).inHand = some w) ↔ ∃ j, (s.pc j).inHand = some w) : Stage s' w p := by
  cases p <;> simp_all [Stage, Out, Published, holds]

lemma WaitPc.opened_of_listable (h : p.listable = true) (hp : p.holds = false) :
    p.opened = true := by
  cases p <;> simp_all [listable, holds, opened]

lemma WaitPc.not_holds_of_opened (h : p.opened = true) : p.holds = false := by
  cases p <;> simp_all [holds, opened]

/-- The record of the thread that has the lock is in nobody's hand. -/
lemma Lists.not_inHand (h : Lists s) (hids : Ids s) (hi : s.pc i = .wait w p) (hp : p.holds = true)
    (j : ι) : (s.pc j).inHand ≠ some w := by
  intro hj
  obtain ⟨-, -, p', hp', hop⟩ := h.hand j w hj
  rw [(hids.wait i w p hi).1, hi] at hp'
  cases hp'
  rw [not_holds_of_opened hop] at hp
  nomatch hp

/-- While another thread has the lock, a record on the list belongs to a call that has published it
and does not have the lock. -/
lemma Lists.opened_of_mem (h : Lists s) (hlock : Locked s) (hi : (s.pc i).holds = some w.bucket)
    (hnot : ∀ p, s.pc i ≠ .wait w p) (hw : w ∈ s.queue w.bucket) :
    ∃ p, s.pc w.task = .wait w p ∧ p.opened = true := by
  obtain ⟨-, -, p, hp, hlis⟩ := h.queued _ w hw
  refine ⟨p, hp, opened_of_listable hlis ?_⟩
  by_contra hholds
  rw [Bool.not_eq_false] at hholds
  have hown : (s.pc w.task).holds = some w.bucket := by rw [hp]; simp [Pc.holds, hholds]
  exact hnot p (hlock.unique hi hown ▸ hp)

/-- While the lock is not held, being published is all that is known. -/
lemma Stage.of_published (h : Stage s w p) (hp : p.opened = true) (hpub : Published s' w) :
    Stage s' w p := by
  cases p <;> simp_all [Stage, opened]

variable [DecidableEq ι]

lemma setPc_pc (s : Sys ι) (i j : ι) (p : Pc ι) :
    (s.setPc i p).pc j = if j = i then p else s.pc j := by
  simp [Sys.setPc, update_apply]

/-! ### The lock -/

/-- A step that changes no lock, and a position only to one with the same lock. -/
lemma Locked.move (h : Locked s) {p old : Pc ι} (hi : s.pc i = old) (hp : p.holds = old.holds) :
    Locked (s.setPc i p) := by
  subst hi
  intro b j
  rw [setPc_pc]
  split_ifs with hj
  · rw [hp, ← hj]; exact h b j
  · exact h b j

lemma Locked.acquire (h : Locked s) {p old : Pc ι} (hfree : s.lock b = none) (hi : s.pc i = old)
    (hnone : old.holds = none) (hp : p.holds = some b) :
    Locked ((s.setLock b (some i)).setPc i p) := by
  subst hi
  intro b' j
  rw [setPc_pc]
  have hold := h b' j
  have hold' := h b j
  simp only [Sys.setPc, Sys.setLock, update_apply]
  grind

lemma Locked.release (h : Locked s) {p old : Pc ι} (hi : s.pc i = old) (hsome : old.holds = some b)
    (hp : p.holds = none) : Locked ((s.setLock b none).setPc i p) := by
  subst hi
  intro b' j
  rw [setPc_pc]
  have hold := h b' j
  have hown := (h b i).2 hsome
  simp only [Sys.setPc, Sys.setLock, update_apply]
  grind

/-! ### Numbers -/

section

variable (h : Ids s)
include h

lemma Ids.setPc
    (hwait : ∀ w p, q = .wait w p → w.task = i ∧ w.id < s.next ∧ s.result w.id = none ∧
      ∀ j w' p', j ≠ i → s.pc j = .wait w' p' → w.id ≠ w'.id)
    (hwake : ∀ k p, q = .wake k p → k.task = i ∧ k.id < s.next ∧
      (∀ e ∈ s.returned, e.1.id ≠ k.id) ∧
      ∀ j k' p', j ≠ i → s.pc j = .wake k' p' → k.id ≠ k'.id) :
    Ids (s.setPc i q) := by
  refine { h with wait := ?wait, waitInj := ?waitInj, wake := ?wake, wakeInj := ?wakeInj }
  case wait =>
    intro j w p hj
    rw [setPc_pc] at hj
    split_ifs at hj with hji
    · subst hji; exact ⟨(hwait w p hj).1, (hwait w p hj).2.1, (hwait w p hj).2.2.1⟩
    · exact h.wait j w p hj
  case waitInj =>
    intro j j' w w' p p' hj hj' hid
    rw [setPc_pc] at hj hj'
    split at hj <;> split at hj'
    case isTrue.isTrue e e' => exact e.trans e'.symm
    case isTrue.isFalse e e' => exact absurd hid ((hwait w p hj).2.2.2 j' w' p' e' hj')
    case isFalse.isTrue e e' => exact absurd hid.symm ((hwait w' p' hj').2.2.2 j w p e hj)
    case isFalse.isFalse => exact h.waitInj j j' w w' p p' hj hj' hid
  case wake =>
    intro j k p hj
    rw [setPc_pc] at hj
    split_ifs at hj with hji
    · subst hji; exact ⟨(hwake k p hj).1, (hwake k p hj).2.1, (hwake k p hj).2.2.1⟩
    · exact h.wake j k p hj
  case wakeInj =>
    intro j j' k k' p p' hj hj' hid
    rw [setPc_pc] at hj hj'
    split at hj <;> split at hj'
    case isTrue.isTrue e e' => exact e.trans e'.symm
    case isTrue.isFalse e e' => exact absurd hid ((hwake k p hj).2.2.2 j' k' p' e' hj')
    case isFalse.isTrue e e' => exact absurd hid.symm ((hwake k' p' hj').2.2.2 j k p e hj)
    case isFalse.isFalse => exact h.wakeInj j j' k k' p p' hj hj' hid

lemma Ids.moveWait (hi : s.pc i = .wait w p) (p' : WaitPc) : Ids (s.setPc i (.wait w p')) := by
  refine h.setPc ?_ nofun
  rintro _ _ ⟨⟩
  obtain ⟨htask, hid, hres⟩ := h.wait i w p hi
  refine ⟨htask, hid, hres, fun j w' p' hj hj' e => ?_⟩
  exact hj (h.waitInj i j w w' _ _ hi hj' e).symm

lemma Ids.moveWake {p : WakePc ι} (hi : s.pc i = .wake k p) (p' : WakePc ι) :
    Ids (s.setPc i (.wake k p')) := by
  refine h.setPc nofun ?_
  rintro _ _ ⟨⟩
  obtain ⟨htask, hid, hret⟩ := h.wake i k p hi
  refine ⟨htask, hid, hret, fun j k' p' hj hj' e => ?_⟩
  exact hj (h.wakeInj i j k k' _ _ hi hj' e).symm

lemma Ids.retWait (hi : s.pc i = .wait w p) (rc : Ret) : Ids (s.retWait i w rc) := by
  have hidle : Ids (s.setPc i .idle) := h.setPc nofun nofun
  refine { hidle with wait := fun j w' p' hj => ?_, result := fun n hn => ?_ }
  · obtain ⟨htask, hid, hres⟩ := hidle.wait j w' p' hj
    have hne : w'.id ≠ w.id := by
      intro e
      change (s.setPc i .idle).pc j = _ at hj
      rw [setPc_pc] at hj
      split at hj
      · nomatch hj
      next hji => exact hji (h.waitInj j i w' w _ _ hj hi e)
    exact ⟨htask, hid, (update_of_ne hne _ _).trans hres⟩
  · have hlt := (h.wait i w p hi).2.1
    have hne : n ≠ w.id := fun e => absurd (e ▸ hlt) (not_lt.mpr hn)
    exact (update_of_ne hne _ _).trans (h.result n hn)

lemma Ids.retWake {p : WakePc ι} (hi : s.pc i = .wake k p) (count : ℕ) :
    Ids (s.retWake i k count) := by
  have hidle : Ids (s.setPc i .idle) := h.setPc nofun nofun
  refine { hidle with wake := fun j k' p' hj => ?_, returned := ?_, distinct := ?_ }
  · obtain ⟨htask, hid, hret⟩ := hidle.wake j k' p' hj
    refine ⟨htask, hid, forall_mem_cons.2 ⟨fun e => ?_, hret⟩⟩
    change (s.setPc i .idle).pc j = _ at hj
    rw [setPc_pc] at hj
    split at hj
    · nomatch hj
    next hji => exact hji (h.wakeInj j i k' k _ _ hj hi e.symm)
  · exact forall_mem_cons.2 ⟨(h.wake i k p hi).2.1, h.returned⟩
  · refine nodup_cons.2 ⟨fun hmem => ?_, h.distinct⟩
    obtain ⟨e, he, hid⟩ := mem_map.1 hmem
    exact (h.wake i k p hi).2.2 e he hid

lemma Ids.startWait (htask : w.task = i) (hid : w.id = s.next) (p : WaitPc) :
    Ids ({ s with next := s.next + 1 }.setPc i (.wait w p)) := by
  refine h.bump.setPc ?_ nofun
  rintro _ _ ⟨⟩
  refine ⟨htask, hid ▸ lt_succ_self _, h.result _ hid.ge, fun j w' p' _ hj e => ?_⟩
  exact absurd (h.wait j w' p' hj).2.1 (not_lt.mpr (hid.ge.trans e.le))

lemma Ids.startWake (htask : k.task = i) (hid : k.id = s.next) (p : WakePc ι) :
    Ids ({ s with next := s.next + 1 }.setPc i (.wake k p)) := by
  refine h.bump.setPc nofun ?_
  rintro _ _ ⟨⟩
  refine ⟨htask, hid ▸ lt_succ_self _, fun e he hek => ?_, fun j k' p' _ hj e => ?_⟩
  · exact absurd (h.returned e he) (not_lt.mpr (hid.ge.trans hek.ge))
  · exact absurd (h.wake j k' p' hj).2.1 (not_lt.mpr (hid.ge.trans e.le))

end

/-! ### The lists -/

lemma inHand_setPc (hq : q.inHand = (s.pc i).inHand) (j : ι) :
    ((s.setPc i q).pc j).inHand = (s.pc j).inHand := by
  rw [setPc_pc]
  split_ifs with hj
  · rw [hq, hj]
  · rfl

lemma Lists.setPc (h : Lists s) {old : Pc ι} (hi : s.pc i = old) (hold : old.inHand = none)
    (hnew : q.inHand = none)
    (hlist : ∀ w p, old = .wait w p → w ∈ s.queue w.bucket → p.listable = true →
      ∃ p', q = .wait w p' ∧ p'.listable = true)
    (hopen : ∀ w p, old = .wait w p → (∃ j, (s.pc j).inHand = some w) → p.opened = true →
      ∃ p', q = .wait w p' ∧ p'.opened = true)
    (hstage : ∀ w p, q = .wait w p → Stage s w p) : Lists (s.setPc i q) where
  queued b w hw := by
    obtain ⟨hb, hwoken, p, hp, hlis⟩ := h.queued b w hw
    refine ⟨hb, hwoken, ?_⟩
    rw [setPc_pc]
    split_ifs with hti
    · exact hlist w p (hi ▸ hti ▸ hp) (hb ▸ hw) hlis
    · exact ⟨p, hp, hlis⟩
  nodup := h.nodup
  stage j w p hj := by
    have hhand := inHand_setPc (hnew.trans (hi ▸ hold).symm)
    have hs : Stage s w p := by
      rw [setPc_pc] at hj
      split at hj
      · exact hstage w p hj
      · exact h.stage j w p hj
    exact hs.congr Iff.rfl (fun _ => rfl) rfl (by simp only [hhand])
  hand j w hj := by
    rw [inHand_setPc (hnew.trans (hi ▸ hold).symm)] at hj
    obtain ⟨hout, hlock, p, hp, hop⟩ := h.hand j w hj
    have hji : j ≠ i := by rintro rfl; rw [hi, hold] at hj; nomatch hj
    refine ⟨hout, by rwa [setPc_pc, if_neg hji], ?_⟩
    rw [setPc_pc]
    split_ifs with hti
    · exact hopen w p (hi ▸ hti ▸ hp) ⟨j, hj⟩ hop
    · exact ⟨p, hp, hop⟩

/-- **The thread that has the lock changes the list, and only where `w` is.** -/
lemma Lists.edit (h : Lists s) (hlock : Locked s) (hs' : s' = (s.setQueue w.bucket l).setPc i q)
    (hi : (s.pc i).holds = some w.bucket) (hnone : (s.pc i).inHand = none)
    (hown : ∀ w' p, s.pc i = .wait w' p → w' = w) (hown' : ∀ w' p, q = .wait w' p → w' = w)
    (hhand : ∀ j, (s.pc j).inHand ≠ some w) (hmem : ∀ w' ≠ w, w' ∈ l ↔ w' ∈ s.queue w.bucket)
    (hnodup : l.Nodup)
    (hself : w ∈ l → s.woken w.id = false ∧ ∃ p, s'.pc w.task = .wait w p ∧ p.listable = true)
    (hstage : ∀ j p, s'.pc j = .wait w p → Stage s' w p)
    (htake : ∀ w', q.inHand = some w' → w' = w ∧ Out s' w ∧ q.holds = some w.bucket ∧
      ∃ p, s'.pc w.task = .wait w p ∧ p.opened = true) :
    Lists s' := by
  have hpc : ∀ j, s'.pc j = if j = i then q else s.pc j := by
    intro j; rw [hs', setPc_pc]; rfl
  have hqueue : ∀ b, s'.queue b = update s.queue w.bucket l b := by intro b; rw [hs']; rfl
  have hwoken : s'.woken = s.woken := by rw [hs']; rfl
  have hother : ∀ w', w' ≠ w → ∀ b, w' ∈ s'.queue b ↔ w' ∈ s.queue b := by
    intro w' hw' b
    rw [hqueue, update_apply]
    split_ifs with hb
    · rw [hb]; exact hmem w' hw'
    · rfl
  -- the thread of another record does not move
  have hstay : ∀ {w' p}, w' ≠ w → s.pc w'.task = .wait w' p → s'.pc w'.task = .wait w' p := by
    intro w' p hw' hp
    have hti : w'.task ≠ i := fun e => hw' (hown w' p (e ▸ hp))
    rwa [hpc, if_neg hti]
  have hhands : ∀ w' ≠ w, ∀ j, (s'.pc j).inHand = some w' ↔ (s.pc j).inHand = some w' := by
    intro w' hw' j
    rw [hpc]
    split_ifs with hj
    · subst hj
      rw [hnone]
      exact ⟨fun e => absurd (htake w' e).1 hw', nofun⟩
    · rfl
  constructor
  case queued =>
    intro b w' hw'
    rw [hwoken]
    by_cases hww : w' = w
    · subst hww
      rw [hqueue, update_apply] at hw'
      split_ifs at hw' with hb
      · exact ⟨hb.symm, hself hw'⟩
      · exact absurd (h.queued b w' hw').1 (Ne.symm hb)
    · obtain ⟨hb, hno, p, hp, hlis⟩ := h.queued b w' ((hother w' hww b).1 hw')
      exact ⟨hb, hno, p, hstay hww hp, hlis⟩
  case nodup =>
    intro b
    rw [hqueue, update_apply]
    split
    · exact hnodup
    · exact h.nodup b
  case stage =>
    intro j w' p hj
    by_cases hww : w' = w
    · subst hww; exact hstage j p hj
    · have hj' := hj
      rw [hpc] at hj'
      split_ifs at hj' with hji
      · exact absurd (hown' w' p hj') hww
      · refine (h.stage j w' p hj').congr (hother w' hww _) (fun hp => ?_) (by rw [hwoken])
          (exists_congr (hhands w' hww))
        -- another thread with a lock has the lock of another bucket
        have hlocked : (s.pc j).holds = some w'.bucket := by rw [hj']; simp [Pc.holds, hp]
        have hb : w'.bucket ≠ w.bucket := fun e => hji (hlock.unique hlocked (e ▸ hi))
        rw [hqueue, update_of_ne hb]
  case hand =>
    intro j w' hj
    by_cases hww : w' = w
    · subst hww
      rw [hpc] at hj ⊢
      split_ifs at hj with hji
      · rw [if_pos hji]; exact (htake w' hj).2
      · exact absurd hj (hhand j)
    · obtain ⟨⟨hout, hno⟩, hl, p, hp, hop⟩ := h.hand j w' ((hhands w' hww j).1 hj)
      have hji : j ≠ i := by
        rintro rfl
        rw [hhands w' hww, hnone] at hj
        nomatch hj
      refine ⟨⟨fun hm => hout ((hother w' hww _).1 hm), by rwa [hwoken]⟩, ?_, p, hstay hww hp, hop⟩
      rwa [hpc, if_neg hji]

lemma Lists.editOwn (h : Lists s) (hlock : Locked s) (hids : Ids s)
    (hi : s.pc i = .wait w p) (hp : p.holds = true)
    (hmem : ∀ w' ≠ w, w' ∈ l ↔ w' ∈ s.queue w.bucket) (hnodup : l.Nodup)
    (hself : w ∈ l → s.woken w.id = false ∧ p'.listable = true)
    (hstage : Stage (s.setQueue w.bucket l) w p') :
    Lists ((s.setQueue w.bucket l).setPc i (.wait w p')) := by
  have htask := (hids.wait i w p hi).1
  have hnone : (s.pc i).inHand = none := by rw [hi]; rfl
  refine h.edit hlock rfl (by rw [hi]; simp [Pc.holds, hp]) hnone ?_ ?_ (h.not_inHand hids hi hp)
    hmem hnodup (fun hw => ⟨(hself hw).1, p', by rw [setPc_pc, if_pos htask], (hself hw).2⟩) ?_ nofun
  · rw [hi]; rintro w' q ⟨⟩; rfl
  · rintro w' q ⟨⟩; rfl
  · intro j q hj
    rw [setPc_pc] at hj
    split_ifs at hj with hji
    · cases hj
      refine hstage.congr Iff.rfl (fun _ => rfl) rfl (exists_congr fun j => ?_)
      rw [inHand_setPc]
      exact hnone.symm
    · exact absurd (hids.waitInj j i w w _ _ hj hi rfl) hji

lemma Lists.unlink (h : Lists s) (hlock : Locked s) (hids : Ids s) {p : WakePc ι} (pos count : ℕ)
    (hi : s.pc i = .wake k p) (hp : p.holds = true) (hfree : (s.pc i).inHand = none)
    (hk : k.bucket = w.bucket) (hw : w ∈ s.queue w.bucket) (hnot : w ∉ l)
    (hmem : ∀ w' ≠ w, w' ∈ l ↔ w' ∈ s.queue w.bucket) (hnodup : l.Nodup) :
    Lists ((s.setQueue w.bucket l).setPc i (.wake k (.mark pos count w))) := by
  have hbucket : (s.pc i).holds = some w.bucket := by rw [hi]; simp [Pc.holds, hp, hk]
  obtain ⟨q, hq, hopen⟩ := h.opened_of_mem hlock hbucket (by rw [hi]; nofun) hw
  have hti : w.task ≠ i := by
    intro e
    rw [e, hi] at hq
    nomatch hq
  have hpcw : ((s.setQueue w.bucket l).setPc i (.wake k (.mark pos count w))).pc w.task
      = .wait w q := by
    rw [setPc_pc, if_neg hti]; exact hq
  refine h.edit hlock rfl hbucket hfree (by rw [hi]; nofun) nofun ?_ hmem hnodup
    (fun e => absurd e hnot) ?_ ?_
  · intro j hj
    exact (h.hand j w hj).1.1 hw
  · -- the record passes from the list into the hand
    intro j p' hj
    rw [setPc_pc] at hj
    split at hj
    · nomatch hj
    next hji =>
      obtain ⟨-, -, rfl⟩ := hids.wait_eq hj hq rfl
      exact (h.stage j w p' hj).of_published hopen
        (.inr (.inr ⟨i, by rw [setPc_pc, if_pos rfl]; rfl⟩))
  · rintro w' ⟨⟩
    refine ⟨rfl, ⟨?_, (h.queued _ w hw).2.1⟩, by simp [Pc.holds, WakePc.holds, hk], q, hpcw, hopen⟩
    change w ∉ update s.queue w.bucket l w.bucket
    rwa [update_self]

lemma Lists.mark (h : Lists s) (hlock : Locked s) (hids : Ids s) (hi : (s.pc i).inHand = some w)
    (hq : q.inHand = none) (hwait : ∀ w' p, q ≠ .wait w' p) :
    Lists ({ s with woken := update s.woken w.id true }.setPc i q) := by
  obtain ⟨⟨hout, hno⟩, hheld, p0, hp0, hopen⟩ := h.hand i w hi
  have hti : ∀ {w' : Waiter ι} {p : WaitPc}, s.pc w'.task = .wait w' p → w'.task ≠ i := by
    intro w' p hp e
    rw [e] at hp
    rw [hp] at hi
    nomatch hi
  -- no other call in progress has the number of `w`
  have hkeep : ∀ {j : ι} {w' : Waiter ι} {p : WaitPc}, s.pc j = .wait w' p → w' ≠ w →
      update s.woken w.id true w'.id = s.woken w'.id := by
    intro j w' p hj hw'
    exact update_of_ne (fun e => hw' (hids.wait_eq hj hp0 e).2.1) _ _
  constructor
  case queued =>
    intro b w' hw'
    obtain ⟨hb, hno', p, hp, hlis⟩ := h.queued b w' hw'
    have hww : w' ≠ w := by rintro rfl; exact hout (hb ▸ hw')
    exact ⟨hb, (hkeep hp hww).trans hno', p, by rw [setPc_pc, if_neg (hti hp)]; exact hp, hlis⟩
  case nodup => exact h.nodup
  case stage =>
    intro j w' p hj
    rw [setPc_pc] at hj
    split_ifs at hj with hji
    · exact absurd hj (hwait w' p)
    · by_cases hww : w' = w
      · subst hww
        obtain ⟨-, -, rfl⟩ := hids.wait_eq hj hp0 rfl
        exact (h.stage j w' p hj).of_published hopen (.inr (.inl (update_self _ _ _)))
      · refine (h.stage j w' p hj).congr Iff.rfl (fun _ => rfl) (hkeep hj hww)
          (exists_congr fun j' => ?_)
        rw [setPc_pc]
        split_ifs with hj'
        · rw [hq, hj', hi]
          exact ⟨nofun, fun e => absurd (some.inj e).symm hww⟩
        · rfl
  case hand =>
    intro j w' hj
    rw [setPc_pc] at hj ⊢
    split_ifs at hj with hji
    · rw [hq] at hj; nomatch hj
    · obtain ⟨⟨hout', hno'⟩, hheld', p, hp, hop⟩ := h.hand j w' hj
      -- two calls with the same record in hand would have the same lock
      have hww : w' ≠ w := by rintro rfl; exact hji (hlock.unique hheld' hheld)
      rw [if_neg hji]
      exact ⟨⟨hout', (hkeep hp hww).trans hno'⟩, hheld', p,
        by rw [setPc_pc, if_neg (hti hp)]; exact hp, hop⟩

end Makaos.Futex
