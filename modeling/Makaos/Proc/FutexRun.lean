import Makaos.Proc.FutexBooks

/-!
What `futex_wake` counts, and when a waiter record is used.

* `Accounted`, `Returns`: a counted wait is one that returns 0.
* `futex_accounting`: **what `futex_wake` counts is what `futex_wait` returns**, as long as no thread
  is killed in a call of `futex_wait`; `killed_counted` is the run where one is.
* `record_not_late`: a waiter record is not used late as long as no waiter sees its flag before the
  waker has read which task to wake; `record_late` is the run where one does.
-/

namespace Makaos.Futex

open Function Transition List Option Futex WaitPc
variable {ι : Type*}
variable {s s' : Sys ι} {w : Waiter ι} {i junk : ι} {p : WaitPc} {a : Act ι} {k : Call ι}
  {yes : Bool} {q : Pc ι}

/-- The account of what the calls have returned. -/
structure Accounted (s : Sys ι) : Prop where
  /-- Calls that returned are told apart by their numbers. -/
  calls : (s.returned.map fun e => e.1.id).Nodup
  /-- The count is the number of waits the call has woken, and at most what was asked. -/
  counted : ∀ e ∈ s.returned, (s.woke e.1.id).length = e.2 ∧ e.2 ≤ e.1.nwake
  /-- These are on the address and address space of the call, and do not return an error. -/
  matching : ∀ e ∈ s.returned, ∀ w ∈ s.woke e.1.id, e.1.Matches w ∧
    (s.result w.id = none ∨ s.result w.id = some .ok)
  /-- No wait is counted twice. -/
  once : ∀ n, ((s.woke n).map Waiter.id).Nodup
  distinct : ∀ n m, ∀ w ∈ s.woke n, ∀ w' ∈ s.woke m, w.id = w'.id → n = m
  /-- A wait that returned 0 was woken by a call. -/
  ok : ∀ id, s.result id = some .ok → ∃ n, ∃ w ∈ s.woke n, w.id = id
  /-- A wait that returned an error was not. -/
  error : ∀ id rc, s.result id = some rc → rc ≠ .ok → ∀ n, ∀ w ∈ s.woke n, w.id ≠ id
  /-- A call that found fewer waiters than it was asked to wake has woken all it found. -/
  all : ∀ e ∈ s.returned, e.2 < e.1.nwake → ∀ w ∈ s.found e.1.id, e.1.Matches w → w ∈ s.woke e.1.id

/-- A step of a call of `t`. -/
def Act.isRun [DecidableEq ι] (t : ι) : Act ι → Bool
  | .run i _ _ => i = t
  | _ => false

variable [DecidableEq ι] {acts : List (Act ι)}

/-- A counted wait is not asleep, has its next step unless somebody else has the lock, and has
returned 0 after five steps of its thread, unless this is killed. -/
structure Returns (s : Sys ι) (w : Waiter ι) : Prop where
  awake : s.result w.id = none → ∃ p, s.pc w.task = .wait w p ∧ p ≠ .asleep ∧
    ((s.lock w.bucket).all (· = w.task) → ∀ yes junk, (futexStep s (.run w.task yes junk)).isSome)
  returns : ∀ acts s', exec futexStep s acts = some s' → .kill w.task ∉ acts →
    5 ≤ acts.countP (·.isRun w.task) → s'.result w.id = some .ok

/-! ### Every step -/

omit [DecidableEq ι] in
lemma boot_inv (mm : ι → BitVec 64) (word : BitVec 64 → BitVec 64 → BitVec 32) :
    Inv (boot mm word) where
  locked _ _ := ⟨nofun, nofun⟩
  ids := ⟨nofun, fun _ _ _ _ _ _ h => (nomatch h), nofun, fun _ _ _ _ _ _ h => (nomatch h),
    fun _ _ => rfl, fun _ _ => rfl, fun _ _ => rfl, nofun, nodup_nil⟩
  lists := ⟨nofun, fun _ => nodup_nil, nofun, nofun⟩
  walks := nofun
  books := ⟨nofun, nofun, fun _ => nodup_nil, nofun, nofun, nofun⟩
  alive := nofun

lemma Inv.start (h : Inv s) (hi : s.pc i = .idle)
    (hids : Ids ({ s with next := s.next + 1 }.setPc i q)) (hq : q.holds = none)
    (hhand : q.inHand = none) (hstage : ∀ w p, q = .wait w p → Stage s w p)
    (hwalk : ∀ k p, q = .wake k p → Walk s k p ∧ s.woke k.id = []) :
    Inv ({ s with next := s.next + 1 }.setPc i q) where
  locked := Locked.move (s := { s with next := s.next + 1 }) h.locked hi hq
  ids := hids
  lists := { h.lists.setPc hi rfl hhand nofun nofun hstage with }
  walks := by
    refine h.walks.other h.locked rfl (fun _ _ => rfl) (fun _ _ _ _ _ => ⟨rfl, rfl⟩) fun k p e => ?_
    obtain ⟨hw, hnil⟩ := hwalk k p e
    refine ⟨hw.congr (fun _ => rfl) rfl rfl, ?_⟩
    change ∀ w ∈ s.woke k.id, _
    rw [hnil]
    nofun
  books := h.books
  alive := by
    refine h.alive.moveWake hi nofun (fun n w hw => .inl hw) fun w _ how => ?_
    exact how.moveWake rfl (fun _ _ h => h) (by rw [hi]; nofun) (by rw [hi]; nofun)

lemma Inv.retNone (h : Inv s) (hi : s.pc i = .idle) (hid : k.id = s.next) (hn : k.nwake = 0) :
    Inv ({ s with next := s.next + 1 }.retWake i k 0) := by
  have hstart : Inv ({ s with next := s.next + 1 }.setPc i .idle) :=
    h.start hi (h.ids.bump.setPc nofun nofun) rfl rfl nofun nofun
  have hfresh : ∀ e ∈ s.returned, e.1.id ≠ k.id := fun e he e' =>
    absurd (h.ids.returned e he) (Nat.not_lt.mpr (hid.ge.trans e'.ge))
  have hnil : s.woke k.id = [] := h.ids.woke _ hid.ge
  refine ⟨hstart.locked, ?_, { hstart.lists with }, hstart.walks, ?_, hstart.alive⟩
  · refine { hstart.ids with wake := fun j k' p hj => ?_, returned := ?_, distinct := ?_ }
    · obtain ⟨htask, hlt, hret⟩ := hstart.ids.wake j k' p hj
      refine ⟨htask, hlt, forall_mem_cons.2 ⟨fun e => ?_, hret⟩⟩
      change (s.setPc i .idle).pc j = _ at hj
      rw [setPc_pc] at hj
      split at hj
      · nomatch hj
      · exact absurd (h.ids.wake j k' p hj).2.1 (Nat.not_lt.mpr (hid.ge.trans e.le))
    · exact forall_mem_cons.2 ⟨hid ▸ Nat.lt_succ_self _, hstart.ids.returned⟩
    · refine nodup_cons.2 ⟨fun hmem => ?_, h.ids.distinct⟩
      obtain ⟨e, he, e'⟩ := mem_map.1 hmem
      exact hfresh e he e'
  · refine { h.books with returned := forall_mem_cons.2 ⟨?_, h.books.returned⟩ }
    change (s.woke k.id).length = 0 ∧ 0 ≤ k.nwake ∧ (∀ w ∈ s.woke k.id, _) ∧ (0 < k.nwake → _)
    rw [hnil, hn]
    exact ⟨rfl, le_rfl, nofun, nofun⟩

lemma kill_eq (hstep : futexStep s (.kill i) = some s') :
    ∃ w p, s.pc i = .wait w p ∧ p.holds = false ∧ s' = s.setPc i (.wait w .killed) := by
  simp only [futexStep] at hstep
  split at hstep
  next w p hi =>
    obtain ⟨hp, ⟨⟩⟩ := ite_none_left_eq_some.mp hstep
    exact ⟨w, p, hi, Bool.eq_false_iff.mpr hp, rfl⟩
  · cases hstep

/-- **Every step preserves the invariant.** -/
theorem Inv.step (h : Inv s) (hstep : futexStep s a = some s') : Inv s' := by
  cases a with
  | wait i uaddr val timed =>
    obtain ⟨hi, rfl⟩ := ite_some_none_eq_some.mp hstep
    refine h.start hi ?_ rfl rfl ?_ nofun
    · refine h.ids.startWait ?_ ?_ .prefault <;> rfl
    · rintro _ _ ⟨⟩
      refine ⟨fun hmem => ?_, h.ids.woken _ le_rfl⟩
      obtain ⟨-, -, p, hp, -⟩ := h.lists.queued _ _ hmem
      rw [hi] at hp
      nomatch hp
  | wake i uaddr nwake =>
    obtain ⟨hi, hstep⟩ := ite_none_right_eq_some.mp hstep
    split at hstep
    · cases hstep; exact h
    · split_ifs at hstep with hn
      · cases hstep
        exact h.retNone hi rfl hn
      · cases hstep
        have hnil := h.ids.woke s.next le_rfl
        refine h.start hi ?_ rfl rfl nofun ?_
        · refine h.ids.startWake ?_ ?_ .lock <;> rfl
        · rintro _ _ ⟨⟩
          exact ⟨hnil, hnil⟩
  | run i yes junk =>
    simp only [futexStep] at hstep
    split at hstep
    · nomatch hstep
    next w p hi => exact h.waitRun hi hstep
    next k p hi => exact h.wakeRun hi hstep
  | nudge t => cases hstep; exact h.schedWake t
  | kill i =>
    obtain ⟨w, p, hi, hp, rfl⟩ := kill_eq hstep
    exact h.kill hi hp
  | store mm uaddr v =>
    cases hstep
    exact { h with ids := { h.ids with }, lists := { h.lists with } }

lemma exec_inv (hrun : exec futexStep s acts = some s') (h : Inv s) : Inv s' :=
  exec_invariant (fun h _ => h.step) hrun (meets_true s acts) h

/-! ### A counted wait returns 0 -/

/-- `w` was woken by a call of `futex_wake` that has returned. -/
def Counted (s : Sys ι) (w : Waiter ι) : Prop := ∃ e ∈ s.returned, w ∈ s.woke e.1.id

/-- How many steps a woken waiter still has to make. -/
def WaitPc.rank : WaitPc → ℕ
  | .loop | .leave _ => 1
  | .sleep | .errCheck _ => 2
  | .errLock _ => 3
  | .deadline => 4
  | _ => 5

omit [DecidableEq ι] in
lemma Inv.not_owed (h : Inv s) (hw : Counted s w) : ¬ Owed s w := by
  obtain ⟨e, he, hmem⟩ := hw
  rintro ⟨j, k, pos, c, hj⟩
  obtain ⟨p, hp, hk⟩ : ∃ p, s.pc j = .wake k p ∧ w ∈ s.woke k.id := by
    obtain hj | ⟨hj, hk⟩ := hj
    · exact ⟨_, hj, (h.walks j k _ hj).1.2.2.2⟩
    · exact ⟨_, hj, hk⟩
  exact (h.ids.wake j k p hp).2.2 e he (h.books.unique _ _ w hmem w hk rfl)

omit [DecidableEq ι] in
lemma Inv.counted_pc (h : Inv s) (hw : Counted s w) (hres : s.result w.id = none) :
    s.woken w.id = true ∧ ∃ p, s.pc w.task = .wait w p ∧ Stage s w p ∧
      (p = .signal ∨ p = .deadline ∨ p = .sleep → s.wakePending w.task = true) ∧ p ≠ .asleep := by
  have hnot := h.not_owed hw
  obtain ⟨e, -, hmem⟩ := hw
  obtain ⟨p, hp, hrest⟩ := h.alive _ w hmem hres
  refine ⟨h.books.woken_of_mem _ w hmem, p, hp, h.lists.stage _ w p hp, ?_, ?_⟩
  · rintro (rfl | rfl | rfl) <;> exact hrest.resolve_right hnot
  · rintro rfl
    exact hnot hrest

lemma Inv.counted_run (h : Inv s) (hw : Counted s w) (hp : s.pc w.task = .wait w p)
    (hrun : Futex.waitRun s w.task w yes p = some s') :
    s'.result w.id = some .ok ∨ ∃ p', s'.pc w.task = .wait w p' ∧ p'.rank < p.rank := by
  obtain ⟨hwoken, q, hq, hst, hpend, -⟩ := h.counted_pc hw (h.ids.wait _ w p hp).2.2
  rw [hp] at hq
  cases hq
  have hlisted : w ∉ s.queue w.bucket := by
    intro hmem
    rw [(h.lists.queued _ w hmem).2.1] at hwoken
    cases hwoken
  have hpc : ∀ {q : Pc ι} {r : Sys ι}, (r.setPc w.task q).pc w.task = q := by
    intro q r
    rw [setPc_pc, if_pos rfl]
  cases p with
  | prefault | lock | push => rw [hst.2] at hwoken; cases hwoken
  | check | undo =>
    obtain ⟨l, hl⟩ := hst
    exact absurd (hl ▸ mem_cons_self) hlisted
  | unlock => exact absurd hst hlisted
  | loop =>
    simp only [Futex.waitRun, hwoken, if_true] at hrun
    cases hrun
    exact .inl (update_self _ _ _)
  | signal =>
    cases hrun
    refine .inr ⟨_, hpc, ?_⟩
    cases yes <;> decide
  | deadline =>
    cases hrun
    refine .inr ⟨_, hpc, ?_⟩
    split <;> simp [rank]
  | sleep =>
    simp only [Futex.waitRun, hpend (.inr (.inr rfl)), if_true] at hrun
    cases hrun
    exact .inr ⟨_, hpc, by decide⟩
  | asleep | killed => cases hrun
  | errLock rc =>
    simp only [Futex.waitRun] at hrun
    obtain ⟨-, hrun⟩ := Option.ite_none_right_eq_some.mp hrun
    cases hrun; exact .inr ⟨_, hpc, by simp [WaitPc.rank]⟩
  | errCheck rc =>
    cases hrun
    refine .inr ⟨_, hpc, ?_⟩
    rw [hwoken]
    simp [rank]
  | errUnlink rc => exact absurd hst.2 hlisted
  | leave rc =>
    cases hrun
    obtain ⟨rfl, -⟩ | ⟨-, -, hno⟩ := hst
    · exact .inl (update_self _ _ _)
    · rw [hwoken] at hno; cases hno

lemma waitRun_pc (h : waitRun s i w yes p = some s') :
    ∃ q, s'.pc = update s.pc i q ∧ (∀ k r, q ≠ .wake k r) ∧ ∀ w', q ≠ .wait w' .killed := by
  cases p <;> simp only [waitRun] at h <;> (repeat' split at h) <;> cases h <;>
    exact ⟨_, rfl, by simp, by grind⟩

lemma wakeRun_pc {p : WakePc ι} (h : wakeRun s i k junk p = some s') :
    ∃ q, (∀ w r, q ≠ .wait w r) ∧
      (s'.pc = update s.pc i q ∨ ∃ t, s'.pc = update (s.schedWake t).pc i q) := by
  have hlink : ∀ b pos, (s.touchLink b pos).pc = s.pc := by
    intro b pos
    obtain ⟨x, hx⟩ := touchLink_eq s b pos
    rw [hx]
  cases p with
  | lock =>
    simp only [wakeRun] at h
    obtain ⟨-, h⟩ := ite_none_right_eq_some.mp h
    cases h; exact ⟨_, by simp, .inl rfl⟩
  | top pos c | unlink pos c w =>
    cases h
    refine ⟨_, ?_, .inl (by rw [← hlink k.bucket pos]; rfl)⟩
    simp
  | wake pos c t => cases h; exact ⟨_, by simp, .inr ⟨t, rfl⟩⟩
  | _ => cases h; exact ⟨_, by simp, .inl rfl⟩

/-- **A step moves one call**, where it may first wake a sleeper. -/
lemma step_pc (hstep : futexStep s a = some s') : ∃ r, (r = s ∨ ∃ t, r = s.schedWake t) ∧
    (s'.pc = r.pc ∨ ∃ i q, s'.pc = update r.pc i q ∧
      (a = .kill i ∨ (s.pc i = .idle ∨ a.isRun i = true) ∧ ∀ w, q ≠ .wait w .killed)) := by
  cases a with
  | wait i uaddr val timed =>
    obtain ⟨hi, rfl⟩ := ite_some_none_eq_some.mp hstep
    exact ⟨s, .inl rfl, .inr ⟨i, _, rfl, .inr ⟨.inl hi, by simp⟩⟩⟩
  | wake i uaddr nwake =>
    obtain ⟨hi, hstep⟩ := ite_none_right_eq_some.mp hstep
    split at hstep
    · cases hstep; exact ⟨s, .inl rfl, .inl rfl⟩
    · split at hstep <;> cases hstep <;>
        exact ⟨s, .inl rfl, .inr ⟨i, _, rfl, .inr ⟨.inl hi, by simp⟩⟩⟩
  | run i yes junk =>
    have hi : (Act.run i yes junk).isRun i = true := by simp [Act.isRun]
    simp only [futexStep] at hstep
    split at hstep
    · cases hstep
    · obtain ⟨q, hq, -, hno⟩ := waitRun_pc hstep
      exact ⟨s, .inl rfl, .inr ⟨i, q, hq, .inr ⟨.inr hi, hno⟩⟩⟩
    · obtain ⟨q, hno, hq | ⟨t, hq⟩⟩ := wakeRun_pc hstep
      · exact ⟨s, .inl rfl, .inr ⟨i, q, hq, .inr ⟨.inr hi, fun w => hno w .killed⟩⟩⟩
      · exact ⟨_, .inr ⟨t, rfl⟩, .inr ⟨i, q, hq, .inr ⟨.inr hi, fun w => hno w .killed⟩⟩⟩
  | nudge t => cases hstep; exact ⟨_, .inr ⟨t, rfl⟩, .inl rfl⟩
  | kill i =>
    obtain ⟨w, p, -, -, rfl⟩ := kill_eq hstep
    exact ⟨s, .inl rfl, .inr ⟨i, _, rfl, .inl rfl⟩⟩
  | store mm uaddr v => cases hstep; exact ⟨s, .inl rfl, .inl rfl⟩

/-- A call moves only when its thread makes a step, or when it is woken or killed. -/
lemma pc_stays {t : ι} (hstep : futexStep s a = some s') (ha : a.isRun t = false) (hk : a ≠ .kill t)
    (ht : s.pc t = .wait w p) (hp : p ≠ .asleep) : s'.pc t = .wait w p := by
  obtain ⟨r, hr, hpc⟩ := step_pc hstep
  have hrt : r.pc t = .wait w p := by
    obtain rfl | ⟨t', rfl⟩ := hr
    · exact ht
    unfold Sys.schedWake
    split
    next w' hw' =>
      have hne : t ≠ t' := by
        rintro rfl
        rw [ht] at hw'
        cases hw'
        exact hp rfl
      rwa [setPc_pc, if_neg hne]
    · exact ht
  obtain hpc | ⟨i, q, hpc, hi⟩ := hpc
  · rwa [hpc]
  have hti : t ≠ i := by
    rintro rfl
    obtain rfl | ⟨hi | hi, -⟩ := hi
    · exact hk rfl
    · rw [ht] at hi; cases hi
    · rw [ha] at hi; cases hi
  rwa [hpc, update_of_ne hti]

/-- The record a call of `futex_wake` has marked and whose task it is about to read. -/
def Pc.reading : Pc ι → Option (Waiter ι)
  | .wake _ (.task _ _ w) => some w
  | _ => none

/-- **A waiter does not see its flag before the waker has read which task to wake.** -/
def Unhurried (s : Sys ι) : Act ι → Prop
  | .run i _ _ => match s.pc i with
    | .wait w .loop => s.woken w.id = true → ∀ j, (s.pc j).reading ≠ some w
    | _ => True
  | _ => True

instance [Fintype ι] (s : Sys ι) (a : Act ι) : Decidable (Unhurried s a) := by
  unfold Unhurried
  (repeat' split) <;> infer_instance

/-- No record was used late, and none is about to be. -/
structure Timely (s : Sys ι) : Prop where
  late : s.late = false
  reading : ∀ j w, (s.pc j).reading = some w → s.result w.id = none

/-- **No thread is killed in a call of `futex_wait`.** -/
def Spared (_ : Sys ι) : Act ι → Prop
  | .kill _ => False
  | _ => True

instance : DecidableRel (Spared (ι := ι))
  | _, .kill _ => isFalse id
  | _, .wait .. | _, .wake .. | _, .run .. | _, .nudge _ | _, .store .. => isTrue trivial

def Unkilled (s : Sys ι) : Prop := ∀ i w, s.pc i ≠ .wait w .killed

lemma Unkilled.update (h : Unkilled s) (hpc : s'.pc = update s.pc i q)
    (hq : ∀ w, q ≠ .wait w .killed) : Unkilled s' := by
  intro j w
  rw [hpc, update_apply]
  split_ifs
  · exact hq w
  · exact h j w

lemma Unkilled.schedWake (h : Unkilled s) (t : ι) : Unkilled (s.schedWake t) := by
  unfold Sys.schedWake
  split
  · exact h.update rfl (by simp)
  · exact h

lemma Unkilled.step (h : Unkilled s) (hok : Spared s a) (hstep : futexStep s a = some s') :
    Unkilled s' := by
  obtain ⟨r, hr, hpc⟩ := step_pc hstep
  have h : Unkilled r := by
    obtain rfl | ⟨t, rfl⟩ := hr
    · exact h
    · exact h.schedWake t
  obtain hpc | ⟨i, q, hpc, rfl | ⟨-, hq⟩⟩ := hpc
  · rwa [Unkilled, hpc]
  · exact hok.elim
  · exact h.update hpc hq

lemma exec_unkilled {mm : ι → BitVec 64} {word : BitVec 64 → BitVec 64 → BitVec 32}
    (hrun : exec futexStep (boot mm word) acts = some s)
    (hok : Meets futexStep Spared (boot mm word) acts) : Unkilled s :=
  exec_invariant Unkilled.step hrun hok (by simp [Unkilled, boot])

lemma waitRun_frame (h : waitRun s i w yes p = some s') :
    s'.late = s.late ∧ s'.returned = s.returned ∧
      s'.woke = s.woke ∧ ∀ id, id ≠ w.id → s'.result id = s.result id := by
  cases p <;> simp only [waitRun] at h <;> (repeat' split at h) <;> cases h <;>
    exact ⟨rfl, rfl, rfl, fun id hid => by first | rfl | exact update_of_ne hid _ _⟩

/-- What the books say stays written. -/
def Kept (s s' : Sys ι) : Prop :=
  s.returned ⊆ s'.returned ∧ (∀ n, s.woke n ⊆ s'.woke n) ∧
    ∀ id rc, s.result id = some rc → s'.result id = some rc

omit [DecidableEq ι] in
lemma Kept.refl (s : Sys ι) : Kept s s := ⟨fun _ h => h, fun _ _ h => h, fun _ _ h => h⟩

lemma schedWake_kept (s : Sys ι) (t : ι) : Kept s (s.schedWake t) := by
  unfold Sys.schedWake
  split <;> exact .refl s

lemma wakeRun_kept {p : WakePc ι} (h : wakeRun s i k junk p = some s') : Kept s s' := by
  cases p with
  | lock =>
    simp only [wakeRun] at h
    obtain ⟨-, h⟩ := ite_none_right_eq_some.mp h
    cases h; exact .refl s
  | top pos c | unlink pos c w =>
    cases h
    obtain ⟨x, hx⟩ := touchLink_eq s k.bucket pos
    rw [hx]
    exact .refl s
  | wake pos c t => cases h; exact schedWake_kept s t
  | look | task => cases h; exact .refl s
  | mark pos c w =>
    cases h
    exact ⟨fun _ h => h, fun n w' hw' => mem_update_cons.2 (.inr hw'), fun _ _ h => h⟩
  | unlock c => cases h; exact ⟨fun _ h => mem_cons_of_mem _ h, fun _ _ h => h, fun _ _ h => h⟩

lemma Inv.kept (h : Inv s) (hstep : futexStep s a = some s') : Kept s s' := by
  cases a with
  | wait i uaddr val timed =>
    obtain ⟨-, hstep⟩ := ite_none_right_eq_some.mp hstep
    cases hstep; exact .refl s
  | wake i uaddr nwake =>
    obtain ⟨-, hstep⟩ := ite_none_right_eq_some.mp hstep
    split at hstep
    · cases hstep; exact .refl s
    · split at hstep
      · cases hstep
        exact ⟨fun _ h => mem_cons_of_mem _ h, fun _ _ h => h, fun _ _ h => h⟩
      · cases hstep; exact .refl s
  | run i yes junk =>
    simp only [futexStep] at hstep
    split at hstep
    · nomatch hstep
    next w p hi =>
      obtain ⟨-, hret, hwoke, hres⟩ := waitRun_frame hstep
      refine ⟨fun _ h => hret ▸ h, fun _ _ h => hwoke ▸ h, fun id rc hrc => ?_⟩
      -- a call in progress has not returned
      have hne : id ≠ w.id := by
        rintro rfl
        rw [(h.ids.wait i w p hi).2.2] at hrc
        nomatch hrc
      rw [hres id hne, hrc]
    · exact wakeRun_kept hstep
  | nudge t => cases hstep; exact schedWake_kept s t
  | kill i =>
    obtain ⟨w, p, -, -, rfl⟩ := kill_eq hstep
    exact .refl s
  | store mm uaddr v => cases hstep; exact .refl s

/-- A counted wait has at most `n` steps to go. -/
def Finishing (s : Sys ι) (w : Waiter ι) (n : ℕ) : Prop :=
  s.result w.id = some .ok ∨ ∃ p, s.pc w.task = .wait w p ∧ p.rank ≤ n

omit [DecidableEq ι] in
lemma Inv.finishing (h : Inv s) (hw : Counted s w) : Finishing s w 5 := by
  cases hres : s.result w.id with
  | none =>
    obtain ⟨-, p, hp, -⟩ := h.counted_pc hw hres
    refine .inr ⟨p, hp, ?_⟩
    cases p <;> simp [rank]
  | some rc =>
    obtain ⟨e, -, hmem⟩ := hw
    rw [(h.books.result _ rc hres).2 (h.books.woken_of_mem _ w hmem)] at hres
    exact .inl hres

/-- A step brings a counted wait closer to its return if it is its own, and no further away. -/
lemma Inv.finishing_step (h : Inv s) (hw : Counted s w) {n : ℕ} (hstep : futexStep s a = some s')
    (hk : a ≠ .kill w.task)
    (hfin : Finishing s w (n + (a.isRun w.task).toNat)) : Counted s' w ∧ Finishing s' w n := by
  obtain ⟨hret, hwoke, hres⟩ := h.kept hstep
  refine ⟨hw.imp fun e he => ⟨hret he.1, hwoke _ he.2⟩, ?_⟩
  obtain hok | ⟨p, hp, hrank⟩ := hfin
  · exact .inl (hres _ _ hok)
  · cases hrun : a.isRun w.task with
    | true =>
      rw [hrun] at hrank
      cases a with
      | run i yes junk =>
        obtain rfl : i = w.task := by simpa [Act.isRun] using hrun
        simp only [futexStep, hp] at hstep
        obtain hok | ⟨p', hp', hlt⟩ := h.counted_run hw hp hstep
        · exact .inl hok
        · exact .inr ⟨p', hp', by simp at hrank; omega⟩
      | _ => nomatch hrun
    | false =>
      rw [hrun] at hrank
      obtain ⟨-, q, hq, -, -, hawake⟩ := h.counted_pc hw (h.ids.wait _ w p hp).2.2
      rw [hp] at hq
      cases hq
      exact .inr ⟨p, pc_stays hstep hrun hk hp hawake, by simpa using hrank⟩

lemma Inv.finishing_run (h : Inv s) (hw : Counted s w) {n : ℕ}
    (hrun : exec futexStep s acts = some s') (hk : .kill w.task ∉ acts)
    (hfin : Finishing s w (n + acts.countP (·.isRun w.task))) : Finishing s' w n := by
  induction acts generalizing s with
  | nil =>
    obtain rfl : s = s' := some.inj hrun
    exact hfin
  | cons a acts ih =>
    obtain ⟨s1, hstep, hrest⟩ := exec_cons hrun
    obtain ⟨hka, hk⟩ := not_or.mp (mt mem_cons.mpr hk)
    obtain ⟨hw1, hfin1⟩ := h.finishing_step hw (n := n + acts.countP (·.isRun w.task)) hstep
      (Ne.symm hka) (by
      convert hfin using 1
      rw [countP_cons]
      cases a.isRun w.task <;> simp [add_assoc])
    exact ih (h.step hstep) hw1 hrest hk hfin1

lemma Inv.returns (h : Inv s) (hno : Unkilled s) (hw : Counted s w) : Returns s w where
  awake hres := by
    obtain ⟨-, p, hp, -, -, hawake⟩ := h.counted_pc hw hres
    refine ⟨p, hp, hawake, fun hlock yes junk => ?_⟩
    have hfree : p.holds = false → s.lock w.bucket = none := by
      intro hholds
      cases hl : s.lock w.bucket with
      | none => rfl
      | some i =>
        obtain rfl : i = w.task := by simpa [hl] using hlock
        have hown := (h.locked _ _).1 hl
        rw [hp] at hown
        simp [Pc.holds, hholds] at hown
    simp only [futexStep, hp]
    have hkilled : p ≠ .killed := fun e => hno _ w (e ▸ hp)
    cases p <;> simp_all [Futex.waitRun, WaitPc.holds] <;> (repeat' split) <;> rfl
  returns acts s' hrun hk hcount := by
    have hfin : Finishing s w (0 + acts.countP (·.isRun w.task)) := by
      obtain hok | ⟨p, hp, hrank⟩ := h.finishing hw
      · exact .inl hok
      · exact .inr ⟨p, hp, by omega⟩
    obtain hok | ⟨p, -, hrank⟩ := h.finishing_run hw hrun hk hfin
    · exact hok
    · cases p <;> simp [rank] at hrank

omit [DecidableEq ι] in
lemma Inv.accounted (h : Inv s) : Accounted s where
  calls := h.ids.distinct
  counted e he := ⟨(h.books.returned e he).1, (h.books.returned e he).2.1⟩
  matching e he w hw := by
    refine ⟨(h.books.returned e he).2.2.1 w hw, ?_⟩
    cases hres : s.result w.id with
    | none => exact .inl rfl
    | some rc =>
      rw [(h.books.result _ rc hres).2 (h.books.woken_of_mem _ w hw)]
      exact .inr rfl
  once := h.books.nodup
  distinct := h.books.unique
  ok id hid := h.books.mem_of_woken id ((h.books.result id _ hid).1 rfl)
  error id rc hrc hne n w hw e :=
    hne ((h.books.result id rc hrc).2 (e ▸ h.books.woken_of_mem n w hw))
  all e he := (h.books.returned e he).2.2.2

/-- **What `futex_wake` counts is what `futex_wait` returns**, in every state of every run in which no
thread is killed in a call of `futex_wait`. -/
theorem futex_accounting (mm : ι → BitVec 64) (word : BitVec 64 → BitVec 64 → BitVec 32)
    (acts : List (Act ι)) {s : Sys ι} (hrun : exec futexStep (boot mm word) acts = some s)
    (hok : Meets futexStep Spared (boot mm word) acts) :
    Accounted s ∧ ∀ e ∈ s.returned, ∀ w ∈ s.woke e.1.id, Returns s w :=
  have h := exec_inv hrun (boot_inv mm word)
  ⟨h.accounted, fun e he _ hw => h.returns (exec_unkilled hrun hok) ⟨e, he, hw⟩⟩

/-- Two threads of one address space, and all user words 0. -/
def pair : Sys (Fin 2) := boot (fun _ => 16) (fun _ _ => 0)

/-- Thread 0 waits, thread 1 wakes it, and thread 0 returns. -/
def waitThenWake : { acts // Meets futexStep Spared pair acts } :=
  ⟨List.flatten [[.wait 0 4096 0 false], replicate 9 (.run 0 false 0), [.wake 1 4096 5],
    replicate 9 (.run 1 false 0), [.run 0 false 0]], by decide +kernel⟩

theorem futex_accounting_waitThenWake : ∃ s, exec futexStep pair waitThenWake.1 = some s ∧
      (s.returned.map Prod.snd = [1] ∧ s.result 0 = some .ok) ∧
      Accounted s ∧ ∀ e ∈ s.returned, ∀ w ∈ s.woke e.1.id, Returns s w := by
  exact exists_run fun _ hrun _ => futex_accounting _ _ _ hrun waitThenWake.2

/-- A zombie stays one. -/
lemma killed_stays {t : ι} (hstep : futexStep s a = some s') (ht : s.pc t = .wait w .killed) :
    s'.pc t = .wait w .killed := by
  by_cases hk : a = .kill t
  · subst hk
    simp only [futexStep, ht, WaitPc.holds] at hstep
    cases hstep
    rw [setPc_pc, if_pos rfl]
  · cases ha : a.isRun t with
    | false => exact pc_stays hstep ha hk ht (by simp)
    | true =>
      cases a with
      | run i yes junk =>
        obtain rfl : i = t := by simpa [Act.isRun] using ha
        simp [futexStep, ht, Futex.waitRun] at hstep
      | _ => cases ha

/-- Thread 0 is asleep in `futex_wait` when a signal wakes and ends it; then thread 1 calls
`futex_wake`. -/
def killThenWake : List (Act (Fin 2)) := List.flatten
  [[.wait 0 4096 0 false], List.replicate 9 (.run 0 false 0), [.nudge 0, .kill 0],
    [.wake 1 4096 1], List.replicate 9 (.run 1 false 0)]

/-- **A wait is counted that never returns**, whatever happens from then on. -/
theorem killed_counted : ∃ s, exec futexStep pair killThenWake = some s ∧
    (s.returned.map Prod.snd = [1] ∧ (s.woke 1).map Waiter.id = [0]) ∧
    ∀ more s', exec futexStep s more = some s' → s'.result 0 = none := by
  obtain ⟨s, hrun, hbooks, hpc⟩ := exists_of_any futexStep pair killThenWake
    (fun s => (s.returned.map Prod.snd = [1] ∧ (s.woke 1).map Waiter.id = [0]) ∧
      s.pc 0 = .wait ⟨0, 0, 16, 4096, 0, false⟩ .killed)
  refine ⟨s, hrun, hbooks, fun more s' hmore => ?_⟩
  have hinv := exec_inv hmore (exec_inv hrun (boot_inv _ _))
  have hstays := exec_invariant (I := fun s => s.pc 0 = .wait ⟨0, 0, 16, 4096, 0, false⟩ .killed)
    (fun ht _ ha => killed_stays ha ht) hmore (meets_true s more) hpc
  exact (hinv.ids.wait 0 _ _ hstays).2.2

/-- **A list holds no record of a call that has returned**: in every run in which no thread is killed
in a call of `futex_wait` each record on it is there once, and its task is still in that call. -/
theorem queue_alive (mm : ι → BitVec 64) (word : BitVec 64 → BitVec 64 → BitVec 32)
    (acts : List (Act ι)) {s : Sys ι} (hrun : exec futexStep (boot mm word) acts = some s)
    (hok : Meets futexStep Spared (boot mm word) acts) (b : BitVec 64) :
    (s.queue b).Nodup ∧ ∀ w ∈ s.queue b, s.result w.id = none ∧
      ∃ p, s.pc w.task = .wait w p ∧ p ≠ .killed := by
  have h := exec_inv hrun (boot_inv mm word)
  refine ⟨h.lists.nodup b, fun w hw => ?_⟩
  obtain ⟨-, -, p, hp, -⟩ := h.lists.queued b w hw
  refine ⟨(h.ids.wait _ w p hp).2.2, p, hp, ?_⟩
  rintro rfl
  exact exec_unkilled hrun hok _ w hp

theorem queue_alive_waiting : ∃ s, exec futexStep pair (waitThenWake.1.take 9) = some s ∧
    s.queue (bucketOf 16 4096) ≠ [] ∧ (s.queue (bucketOf 16 4096)).Nodup :=
  exists_run fun _ hrun _ => (queue_alive _ _ _ hrun (by decide +kernel) _).1

/-! ### Records that are gone -/

omit [DecidableEq ι] in
lemma Inv.result_of_mem (h : Inv s) {b : BitVec 64} (hw : w ∈ s.queue b) :
    s.result w.id = none := by
  obtain ⟨-, -, p, hp, -⟩ := h.lists.queued b w hw
  exact (h.ids.wait _ w p hp).2.2

omit [DecidableEq ι] in
lemma touch_of_none (h : s.result w.id = none) : s.touch w = s := by
  simp [Sys.touch, h]

omit [DecidableEq ι] in
lemma Inv.touchLink (h : Inv s) (b : BitVec 64) (pos : ℕ) : s.touchLink b pos = s := by
  cases pos with
  | zero => rfl
  | succ pos =>
    cases hw : (s.queue b)[pos]? with
    | none => simp only [Sys.touchLink, hw]
    | some w =>
      simp only [Sys.touchLink, hw]
      exact touch_of_none (h.result_of_mem (mem_of_getElem? hw))

omit [DecidableEq ι] in
/-- What a call that is about to read a record knows of it. -/
lemma Inv.reading (h : Inv s) {j : ι} (hj : (s.pc j).reading = some w) :
    s.woken w.id = true ∧ (s.pc j).holds = some w.bucket ∧ ∃ n, w ∈ s.woke n := by
  obtain ⟨k, pos, c, hk⟩ : ∃ k pos c, s.pc j = .wake k (.task pos c w) := by
    revert hj
    cases s.pc j with
    | wake k r => cases r <;> simp [Pc.reading]
    | _ => nofun
  obtain ⟨⟨-, -, -, hw⟩, hkeys⟩ := h.walks j k _ hk
  refine ⟨h.books.woken_of_mem _ w hw, ?_, k.id, hw⟩
  rw [hk, Call.bucket_eq (hkeys w hw)]
  rfl

section

variable (h : Timely s)
include h

/-- A call of `futex_wait` returns while no waker is about to read its record. -/
lemma Timely.retWait (hinv : Inv s) (hi : s.pc i = .wait w p)
    (hpc : s'.pc = update s.pc i q) (hq : q.reading = none) (hlate : s'.late = s.late)
    (hresult : ∀ id, id ≠ w.id → s'.result id = s.result id)
    (hnot : s'.result w.id = none ∨ ∀ j, (s.pc j).reading ≠ some w) : Timely s' where
  late := hlate.trans h.late
  reading j w' hj := by
    rw [hpc, update_apply] at hj
    split at hj
    · rw [hq] at hj; nomatch hj
    · have hres := h.reading j w' hj
      by_cases hid : w'.id = w.id
      · -- the record about to be read is the one of this call
        obtain ⟨-, -, n, hn⟩ := hinv.reading hj
        obtain ⟨p', hp', -⟩ := hinv.alive n w' hn hres
        obtain ⟨-, rfl, -⟩ := hinv.ids.wait_eq hp' hi hid
        exact hnot.resolve_right fun h => h j hj
      · rw [hresult _ hid, hres]

lemma Timely.waitRun (hinv : Inv s) (hi : s.pc i = .wait w p)
    (hok : p = .loop → s.woken w.id = true → ∀ j, (s.pc j).reading ≠ some w)
    (hrun : waitRun s i w yes p = some s') : Timely s' := by
  obtain ⟨q, hpc, hq, -⟩ := waitRun_pc hrun
  obtain ⟨hlate, -, -, hresult⟩ := waitRun_frame hrun
  have hq' : q.reading = none := by
    cases q with
    | wake k r => exact absurd rfl (hq k r)
    | _ => rfl
  refine h.retWait hinv hi hpc hq' hlate hresult ?_
  have hst := hinv.lists.stage i w p hi
  have hnone := (hinv.ids.wait i w p hi).2.2
  cases p with
  | prefault =>
    refine .inr fun j hj => ?_
    have hwoken := (hinv.reading hj).1
    rw [hst.2] at hwoken
    cases hwoken
  | loop =>
    by_cases hwoken : s.woken w.id = true
    · exact .inr (hok rfl hwoken)
    · simp only [waitRun, hwoken] at hrun
      cases hrun
      exact .inl hnone
  | leave rc =>
    -- the waker would have the lock as well
    refine .inr fun j hj => ?_
    obtain rfl := hinv.locked.unique (hinv.reading hj).2.1 (by rw [hi]; rfl)
    rw [hi] at hj
    cases hj
  | _ =>
    refine .inl ?_
    simp only [waitRun] at hrun
    (repeat' split at hrun) <;> cases hrun <;> exact hnone

lemma Timely.move (hpc : s'.pc = update s.pc i q) (hlate : s'.late = s.late)
    (hresult : s'.result = s.result)
    (hq : ∀ w, q.reading = some w → s.result w.id = none := by simp [Pc.reading]) : Timely s' := by
  refine ⟨hlate.trans h.late, fun j w hj => ?_⟩
  rw [hpc, update_apply] at hj
  rw [hresult]
  split at hj
  · exact hq w hj
  · exact h.reading j w hj

lemma Timely.schedWake (t : ι) : Timely (s.schedWake t) := by
  unfold Sys.schedWake
  split
  · exact h.move rfl rfl rfl nofun
  · exact ⟨h.late, h.reading⟩

lemma Timely.wakeRun (hinv : Inv s) {p : WakePc ι} (hi : s.pc i = .wake k p)
    (hrun : wakeRun s i k junk p = some s') : Timely s' := by
  obtain ⟨hwalk, -⟩ := hinv.walks i k p hi
  cases p with
  | lock =>
    simp only [Futex.wakeRun] at hrun
    obtain ⟨-, hrun⟩ := Option.ite_none_right_eq_some.mp hrun
    cases hrun; exact h.move rfl rfl rfl
  | top pos c =>
    cases hrun
    rw [hinv.touchLink]
    refine h.move rfl rfl rfl ?_
    (repeat' split) <;> simp [Pc.reading]
  | look pos c w =>
    cases hrun
    rw [touch_of_none (hinv.result_of_mem (mem_of_getElem? hwalk.2.2.2))]
    refine h.move rfl rfl rfl ?_
    split <;> simp [Pc.reading]
  | unlink pos c w =>
    cases hrun
    rw [hinv.touchLink, touch_of_none (hinv.result_of_mem (mem_of_getElem? hwalk.2.2.2.1))]
    exact h.move rfl rfl rfl
  | mark pos c w =>
    cases hrun
    obtain ⟨-, -, p, hp, -⟩ := hinv.lists.hand i w (by rw [hi]; rfl)
    have hnone := (hinv.ids.wait _ w p hp).2.2
    rw [touch_of_none hnone]
    refine h.move rfl rfl rfl ?_
    rintro _ ⟨⟩
    exact hnone
  | task pos c w =>
    cases hrun
    rw [touch_of_none (h.reading i w (by rw [hi]; rfl))]
    exact h.move rfl rfl rfl
  | wake pos c t => cases hrun; exact (h.schedWake t).move rfl rfl rfl
  | unlock c => cases hrun; exact h.move rfl rfl rfl

lemma Timely.step (hinv : Inv s) (hok : Unhurried s a)
    (hstep : futexStep s a = some s') : Timely s' := by
  cases a with
  | wait i uaddr val timed =>
    obtain ⟨-, hstep⟩ := ite_none_right_eq_some.mp hstep
    cases hstep; exact h.move rfl rfl rfl nofun
  | wake i uaddr nwake =>
    obtain ⟨-, hstep⟩ := ite_none_right_eq_some.mp hstep
    split at hstep
    · cases hstep; exact h
    · split at hstep <;> cases hstep <;> exact h.move rfl rfl rfl nofun
  | run i yes junk =>
    simp only [futexStep] at hstep
    split at hstep
    · nomatch hstep
    next w p hi =>
      refine h.waitRun hinv hi (fun e => ?_) hstep
      subst e
      simpa only [Unhurried, hi] using hok
    next k p hi => exact h.wakeRun hinv hi hstep
  | nudge t => cases hstep; exact h.schedWake t
  | kill i =>
    obtain ⟨w, p, -, -, rfl⟩ := kill_eq hstep
    exact h.move rfl rfl rfl
  | store mm uaddr v => cases hstep; exact ⟨h.late, h.reading⟩

end

/-- **No step of `futex_wake` uses a waiter record after its call of `futex_wait` has returned**, in
every run in which no waiter sees its flag before the waker has read which task to wake. -/
theorem record_not_late (mm : ι → BitVec 64) (word : BitVec 64 → BitVec 64 → BitVec 32)
    (acts : List (Act ι)) {s : Sys ι} (hrun : exec futexStep (boot mm word) acts = some s)
    (hok : Meets futexStep Unhurried (boot mm word) acts) : s.late = false := by
  have hboot : Inv (boot mm word) ∧ Timely (boot mm word) := ⟨boot_inv mm word, rfl, nofun⟩
  exact (exec_invariant (I := fun s => Inv s ∧ Timely s)
    (fun h hok hstep => ⟨h.1.step hstep, h.2.step h.1 hok hstep⟩) hrun hok hboot).2.late

theorem record_not_late_waitThenWake :
    ∃ s, exec futexStep pair waitThenWake.1 = some s ∧ s.result 0 = some .ok ∧ s.late = false := by
  have hok : Meets futexStep Unhurried pair waitThenWake.1 := by decide +kernel
  exact exists_run fun _ hrun _ => record_not_late _ _ _ hrun hok

/-- Thread 0 has put itself on the list and is about to look at its flag; thread 1 has set it. Thread
0 sees it and returns, and thread 1 reads `w->task`. -/
def seenEarly : List (Act (Fin 2)) := List.flatten
  [[.wait 0 4096 0 false], List.replicate 5 (.run 0 false 0), [.wake 1 4096 1],
    List.replicate 5 (.run 1 false 0), [.run 0 false 0], [.run 1 false 0]]

/-- A waker reads a record whose call has returned. -/
theorem record_late : ∃ s, exec futexStep pair seenEarly = some s ∧ s.result 0 = some .ok ∧
      s.late = true :=
  exists_of_any _ _ _ _

end Makaos.Futex
