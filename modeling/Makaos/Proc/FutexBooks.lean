import Makaos.Proc.FutexInv

/-!
What the calls of `futex_wake` have counted, and what every step of the two calls preserves.

* `Walk`: what a position in `futex_wake` says about the list and the count.
* `Recorded`, `Books`: whom the calls of `futex_wake` have woken, and what all calls have returned.
* `Restless`, `Alive`: a wake-up is not lost.
* `Inv.waitRun`, `Inv.wakeRun`: **a step of either call preserves all this.**
-/

namespace Makaos.Futex

open Function Transition Futex List
variable {ι : Type*}
variable {s s' : Sys ι} {i : ι} {w : Waiter ι} {k : Call ι} {p p' : WaitPc} {q : Pc ι} {pos c : ℕ}
  {x : Bool}

/-- All matching records found on the list are woken or in `l`. -/
def Covers (s : Sys ι) (k : Call ι) (l : List (Waiter ι)) : Prop :=
  ∀ w ∈ s.found k.id, k.Matches w → w ∈ s.woke k.id ∨ w ∈ l

/-- What a position in `futex_wake` says about the list and the count. -/
def Walk (s : Sys ι) (k : Call ι) : WakePc ι → Prop
  | .lock => s.woke k.id = []
  | .top pos c => (s.woke k.id).length = c ∧ c ≤ k.nwake ∧ Covers s k ((s.queue k.bucket).drop pos)
  | .look pos c w => (s.woke k.id).length = c ∧ c < k.nwake ∧
      Covers s k ((s.queue k.bucket).drop pos) ∧ (s.queue k.bucket)[pos]? = some w
  | .unlink pos c w => (s.woke k.id).length = c ∧ c < k.nwake ∧
      Covers s k ((s.queue k.bucket).drop pos) ∧ (s.queue k.bucket)[pos]? = some w ∧ k.Matches w
  | .mark pos c w => (s.woke k.id).length = c ∧ c < k.nwake ∧
      Covers s k (w :: (s.queue k.bucket).drop pos) ∧ k.Matches w
  | .task pos c w => (s.woke k.id).length = c + 1 ∧ c < k.nwake ∧
      Covers s k ((s.queue k.bucket).drop pos) ∧ w ∈ s.woke k.id
  | .wake pos c _ => (s.woke k.id).length = c + 1 ∧ c < k.nwake ∧
      Covers s k ((s.queue k.bucket).drop pos)
  | .unlock c => (s.woke k.id).length = c ∧ c ≤ k.nwake ∧ (c < k.nwake → Covers s k [])

/-- Calls of `futex_wake` in progress. -/
def Walks (s : Sys ι) : Prop :=
  ∀ i k p, s.pc i = .wake k p → Walk s k p ∧ ∀ w ∈ s.woke k.id, k.Matches w

/-- What is recorded about the calls. -/
structure Recorded (woken : ℕ → Bool) (woke found : ℕ → List (Waiter ι)) (result : ℕ → Option Ret)
    (returned : List (Call ι × ℕ)) : Prop where
  woken_of_mem : ∀ n, ∀ w ∈ woke n, woken w.id = true
  mem_of_woken : ∀ id, woken id = true → ∃ n, ∃ w ∈ woke n, w.id = id
  nodup : ∀ n, ((woke n).map Waiter.id).Nodup
  unique : ∀ n m, ∀ w ∈ woke n, ∀ w' ∈ woke m, w.id = w'.id → n = m
  result : ∀ id rc, result id = some rc → (rc = .ok ↔ woken id = true)
  returned : ∀ e ∈ returned, (woke e.1.id).length = e.2 ∧ e.2 ≤ e.1.nwake ∧
    (∀ w ∈ woke e.1.id, e.1.Matches w) ∧
    (e.2 < e.1.nwake → ∀ w ∈ found e.1.id, e.1.Matches w → w ∈ woke e.1.id)

def Books (s : Sys ι) : Prop := Recorded s.woken s.woke s.found s.result s.returned

/-- The call of `futex_wake` that marked `w` has not called `sched_wake` yet. -/
def Owed (s : Sys ι) (w : Waiter ι) : Prop :=
  ∃ j k pos c, s.pc j = .wake k (.task pos c w) ∨
    (s.pc j = .wake k (.wake pos c w.task) ∧ w ∈ s.woke k.id)

/-- A marked waiter about to sleep has a wake-up pending or coming, and one asleep has one coming. -/
def Restless (s : Sys ι) (w : Waiter ι) : WaitPc → Prop
  | .signal | .deadline | .sleep => s.wakePending w.task = true ∨ Owed s w
  | .asleep => Owed s w
  | _ => True

/-- A marked waiter is in its call until it returns, and no wake-up is lost. -/
def Alive (s : Sys ι) : Prop :=
  ∀ n, ∀ w ∈ s.woke n, s.result w.id = none → ∃ p, s.pc w.task = .wait w p ∧ Restless s w p

variable [DecidableEq ι]

omit [DecidableEq ι] in
lemma Walk.congr {p : WakePc ι} (h : Walk s k p)
    (hqueue : p.holds = true → s'.queue k.bucket = s.queue k.bucket)
    (hwoke : s'.woke k.id = s.woke k.id) (hfound : s'.found k.id = s.found k.id) : Walk s' k p := by
  cases p <;> simp_all [Walk, Covers, WakePc.holds]

/-- A step of another thread does not disturb a call of `futex_wake`: it changes only a list it has
locked. -/
lemma Walks.other (h : Walks s) (hlock : Locked s) (hpc : s'.pc = update s.pc i q)
    (hqueue : ∀ b, (s.pc i).holds ≠ some b → s'.queue b = s.queue b)
    (hkept : ∀ j k p, j ≠ i → s.pc j = .wake k p →
      s'.woke k.id = s.woke k.id ∧ s'.found k.id = s.found k.id)
    (hself : ∀ k p, q = .wake k p → Walk s' k p ∧ ∀ w ∈ s'.woke k.id, k.Matches w) : Walks s' := by
  intro j k p hj
  rw [hpc, update_apply] at hj
  split_ifs at hj with hji
  · exact hself k p hj
  · obtain ⟨hwalk, hkey⟩ := h j k p hj
    obtain ⟨hwoke, hfound⟩ := hkept j k p hji hj
    refine ⟨hwalk.congr (fun hp => hqueue _ fun e => ?_) hwoke hfound, hwoke ▸ hkey⟩
    have hj' : (s.pc j).holds = some k.bucket := by rw [hj]; simp [Pc.holds, hp]
    exact hji (hlock.unique hj' e)

omit [DecidableEq ι] in
lemma Restless.mono (h : Restless s w p) (hpend : s'.wakePending w.task = s.wakePending w.task)
    (howed : Owed s w → Owed s' w) : Restless s' w p := by
  cases p <;> simp_all [Restless]
  case signal | deadline | sleep => exact h.imp_right howed

omit [DecidableEq ι] in
lemma Owed.mono (h : Owed s w) (hpc : ∀ j k p, s.pc j = .wake k p → s'.pc j = .wake k p)
    (hwoke : s'.woke = s.woke) : Owed s' w := by
  obtain ⟨j, k, pos, c, hj | ⟨hj, hw⟩⟩ := h
  · exact ⟨j, k, pos, c, .inl (hpc j k _ hj)⟩
  · exact ⟨j, k, pos, c, .inr ⟨hpc j k _ hj, hwoke ▸ hw⟩⟩

lemma pc_wake_of_wait {j : ι} {r : WakePc ι} (hi : s.pc i = .wait w p) (hj : s.pc j = .wake k r) :
    update s.pc i q j = .wake k r := by
  have hji : j ≠ i := by
    rintro rfl
    rw [hi] at hj
    nomatch hj
  rwa [update_of_ne hji]

lemma Alive.moveWait (h : Alive s) {wp : ι → Bool} (hi : s.pc i = .wait w p)
    (hpend : ∀ t ≠ i, wp t = s.wakePending t) :
    let s' := { s with wakePending := wp, pc := update s.pc i (.wait w p') }
    (∀ n, w ∈ s.woke n → Restless s w p → Restless s' w p') → Alive s' := by
  intro s' hself n w' hw' hres
  obtain ⟨q, hq, hrest⟩ := h n w' hw' hres
  by_cases htask : w'.task = i
  · rw [htask, hi] at hq
    cases hq
    exact ⟨p', by rw [htask]; exact update_self _ _ _, hself n hw' hrest⟩
  · exact ⟨q, (update_of_ne htask _ _).trans hq, hrest.mono (hpend _ htask) fun how =>
      how.mono (fun j k r hj => pc_wake_of_wait hi hj) rfl⟩

lemma Alive.moveWake (h : Alive s) {old : Pc ι} {wk : ℕ → List (Waiter ι)} (hi : s.pc i = old)
    (hold : ∀ w p, old ≠ .wait w p) : let s' := { s with woke := wk, pc := update s.pc i q }
    (∀ n, ∀ w ∈ wk n, w ∈ s.woke n ∨ Owed s' w ∧ ∃ p, s.pc w.task = .wait w p) →
    (∀ w, s.result w.id = none → Owed s w → Owed s' w) → Alive s' := by
  intro s' hwoke howed
  have hstay : ∀ {w : Waiter ι} {p}, s.pc w.task = .wait w p → s'.pc w.task = .wait w p := by
    intro w p hp
    have hne : w.task ≠ i := fun e => hold w p (hi ▸ e ▸ hp)
    exact (update_of_ne hne _ _).trans hp
  intro n w hw hres
  obtain hw | ⟨hnew, p, hp⟩ := hwoke n w hw
  · obtain ⟨p, hp, hrest⟩ := h n w hw hres
    exact ⟨p, hstay hp, hrest.mono rfl (howed w hres)⟩
  · refine ⟨p, hstay hp, ?_⟩
    cases p <;> simp [Restless, hnew]

/-- What holds in every state. -/
structure Inv (s : Sys ι) : Prop where
  locked : Locked s
  ids : Ids s
  lists : Lists s
  walks : Walks s
  books : Books s
  alive : Alive s

/-- A call of `futex_wait` goes on, and the lists and the records stay as they are. -/
lemma Inv.moveWait (h : Inv s) {lk : BitVec 64 → Option ι} {wp : ι → Bool} (hi : s.pc i = .wait w p)
    (hpend : ∀ t ≠ i, wp t = s.wakePending t) :
    let s' := { s with lock := lk, wakePending := wp, pc := update s.pc i (.wait w p') }
    Locked s' → (w ∈ s.queue w.bucket → p.listable = true → p'.listable = true) →
    ((∃ j, (s.pc j).inHand = some w) → p.opened = true → p'.opened = true) → Stage s w p' →
    (s.woken w.id = true → Restless s w p → Restless s' w p') → Inv s' := by
  intro s' hlocked hlist hopen hstage hrest
  constructor
  case locked => exact hlocked
  case ids => exact { h.ids.moveWait hi p' with }
  case lists =>
    have hlists : Lists (s.setPc i (.wait w p')) := by
      refine h.lists.setPc hi rfl rfl ?_ ?_ (by rintro _ _ ⟨⟩; exact hstage)
      · rintro _ _ ⟨⟩ hw hlis
        exact ⟨p', rfl, hlist hw hlis⟩
      · rintro _ _ ⟨⟩ hj hop
        exact ⟨p', rfl, hopen hj hop⟩
    exact { hlists with }
  case walks =>
    exact h.walks.other h.locked rfl (fun _ _ => rfl) (fun _ _ _ _ _ => ⟨rfl, rfl⟩) nofun
  case books => exact h.books
  case alive =>
    exact h.alive.moveWait hi hpend fun n hn => hrest (h.books.woken_of_mem n w hn)

lemma Inv.goOn (h : Inv s) (hi : s.pc i = .wait w p) (hholds : p'.holds = p.holds)
    (hlist : w ∈ s.queue w.bucket → p.listable = true → p'.listable = true)
    (hopen : (∃ j, (s.pc j).inHand = some w) → p.opened = true → p'.opened = true)
    (hstage : Stage s w p')
    (hrest : s.woken w.id = true → Restless s w p → Restless s w p' := by intros; trivial) :
    Inv (s.setPc i (.wait w p')) := by
  refine h.moveWait hi (fun _ _ => rfl) ?_ hlist hopen hstage ?_
  · exact h.locked.move hi (by simp [Pc.holds, hholds])
  · intro hw hr
    exact (hrest hw hr).mono rfl fun how => how.mono (fun j k r hj => pc_wake_of_wait hi hj) rfl

lemma Inv.retWait (h : Inv s) {rc : Ret} {lk : BitVec 64 → Option ι} (hi : s.pc i = .wait w p)
    (hlocked : Locked ({ s with lock := lk }.retWait i w rc)) (hqueue : w ∉ s.queue w.bucket)
    (hhand : ∀ j, (s.pc j).inHand ≠ some w) (hrc : rc = .ok ↔ s.woken w.id = true) :
    Inv ({ s with lock := lk }.retWait i w rc) where
  locked := hlocked
  ids := { h.ids.retWait hi rc with }
  lists := by
    refine { h.lists.setPc (q := .idle) hi rfl rfl ?_ ?_ nofun with }
    · rintro _ _ ⟨⟩ hw
      exact absurd hw hqueue
    · rintro _ _ ⟨⟩ ⟨j, hj⟩
      exact absurd hj (hhand j)
  walks := h.walks.other h.locked rfl (fun _ _ => rfl) (fun _ _ _ _ _ => ⟨rfl, rfl⟩) nofun
  books := by
    refine { h.books with result := fun id rc' hrc' => ?_ }
    rcases update_cases (f := s.result) hrc' with ⟨rfl, ⟨⟩⟩ | ⟨-, hrc'⟩
    · exact hrc
    · exact h.books.result id rc' hrc'
  alive := by
    intro n w' hw' hres
    rcases update_cases (f := s.result) hres with ⟨-, ⟨⟩⟩ | ⟨hid, hres⟩
    obtain ⟨q, hq, hrest⟩ := h.alive n w' hw' hres
    have hne : w'.task ≠ i := by
      intro e
      rw [e, hi] at hq
      cases hq
      exact hid rfl
    exact ⟨q, (update_of_ne hne _ _).trans hq, hrest.mono rfl fun how =>
      how.mono (fun j k r hj => pc_wake_of_wait hi hj) rfl⟩

/-- A call of `futex_wait` with the lock puts its record on the list or takes it off. -/
lemma Inv.editWait (h : Inv s) {l : List (Waiter ι)} (hi : s.pc i = .wait w p) (hp : p.holds = true)
    (hp' : p'.holds = true) (hmem : ∀ w' ≠ w, w' ∈ l ↔ w' ∈ s.queue w.bucket) (hnodup : l.Nodup)
    (hself : w ∈ l → s.woken w.id = false ∧ p'.listable = true)
    (hstage : Stage (s.setQueue w.bucket l) w p') :
    Inv ((s.setQueue w.bucket l).setPc i (.wait w p')) where
  locked := Locked.move (s := s.setQueue w.bucket l) h.locked hi (by simp [Pc.holds, hp, hp'])
  ids := { h.ids.moveWait hi p' with }
  lists := h.lists.editOwn h.locked h.ids hi hp hmem hnodup hself hstage
  walks := by
    refine h.walks.other h.locked rfl (fun b hb => ?_) (fun _ _ _ _ _ => ⟨rfl, rfl⟩) (by simp)
    have hne : b ≠ w.bucket := by
      rintro rfl
      rw [hi] at hb
      simp [Pc.holds, hp] at hb
    exact update_of_ne hne _ _
  books := h.books
  alive := by
    refine h.alive.moveWait hi (fun _ _ => rfl) fun _ _ _ => ?_
    cases p' <;> trivial

/-- **`futex_wait`.** -/
lemma Inv.waitRun (h : Inv s) {yes : Bool} (hi : s.pc i = .wait w p)
    (hrun : waitRun s i w yes p = some s') : Inv s' := by
  have hst := h.lists.stage i w p hi
  have hidle : p.holds = false → Locked (s.setPc i .idle) := fun hp =>
    h.locked.move hi (by simp [Pc.holds, hp])
  have hgone : s.woken w.id = true → w ∉ s.queue w.bucket := by
    intro hwoken hw
    rw [(h.lists.queued _ w hw).2.1] at hwoken
    cases hwoken
  cases p with
  | prefault =>
    simp only [waitRun] at hrun
    have hnot : ∀ j, (s.pc j).inHand ≠ some w := by
      intro j hj
      obtain ⟨-, -, q, hq, hop⟩ := h.lists.hand j w hj
      rw [(h.ids.wait i w _ hi).1, hi] at hq
      cases hq
      cases hop
    have hret : ∀ rc ≠ .ok, Inv (s.retWait i w rc) := fun rc hrc =>
      h.retWait hi (hidle rfl) hst.1 hnot ⟨fun e => absurd e hrc, fun e => by rw [hst.2] at e; cases e⟩
    split at hrun
    · cases hrun; exact hret _ (by simp)
    · split at hrun
      · cases hrun; exact hret _ (by simp)
      · cases hrun
        exact h.goOn hi rfl (by rintro _ ⟨⟩) (by rintro _ ⟨⟩) hst
  | lock =>
    simp only [waitRun] at hrun
    obtain ⟨hfree, rfl⟩ := Option.ite_some_none_eq_some.mp hrun
    refine h.moveWait hi (fun _ _ => rfl) ?_ (by rintro _ ⟨⟩) (by rintro _ ⟨⟩) hst
      (fun _ _ => trivial)
    exact h.locked.acquire hfree hi rfl rfl
  | push =>
    cases hrun
    refine h.editWait hi rfl rfl (fun w' hw' => ?_) (nodup_cons.2 ⟨hst.1, h.lists.nodup _⟩)
      (fun _ => ⟨hst.2, rfl⟩) ⟨_, update_self _ _ _⟩
    rw [mem_cons, or_iff_right hw']
  | check =>
    simp only [waitRun] at hrun
    obtain ⟨l, hl⟩ := hst
    split at hrun
    · cases hrun
      exact h.goOn hi rfl (fun _ _ => rfl) (by rintro _ ⟨⟩) ⟨l, hl⟩
    · cases hrun
      exact h.goOn hi rfl (fun _ _ => rfl) (by rintro _ ⟨⟩) (by rw [Stage, hl]; exact mem_cons_self)
  | undo =>
    cases hrun
    obtain ⟨l, hl⟩ := hst
    have hnodup := h.lists.nodup w.bucket
    have hwoken := (h.lists.queued w.bucket w (by rw [hl]; exact mem_cons_self)).2.1
    rw [hl, nodup_cons] at hnodup
    rw [hl, tail_cons]
    refine h.editWait hi rfl rfl (fun w' hw' => ?_) hnodup.2 (fun e => absurd e hnodup.1)
      (.inr ⟨by simp, ?_, hwoken⟩)
    · rw [hl, mem_cons, or_iff_right hw']
    · change w ∉ update s.queue w.bucket l w.bucket
      rw [update_self]
      exact hnodup.1
  | unlock =>
    cases hrun
    refine h.moveWait hi (fun _ _ => rfl) ?_ (fun _ _ => rfl) (by rintro _ ⟨⟩) (.inl hst)
      (fun _ _ => trivial)
    exact h.locked.release hi rfl rfl
  | loop =>
    simp only [waitRun] at hrun
    split_ifs at hrun with hwoken
    · cases hrun
      refine h.retWait hi (hidle rfl) (hgone hwoken) (fun j hj => ?_) ⟨fun _ => hwoken, fun _ => rfl⟩
      rw [(h.lists.hand j w hj).1.2] at hwoken
      cases hwoken
    · cases hrun
      exact h.goOn hi rfl (fun _ _ => rfl) (fun _ _ => rfl) hst (fun e => absurd e hwoken)
  | signal =>
    cases hrun
    cases yes
    · exact h.goOn hi rfl (fun _ _ => rfl) (fun _ _ => rfl) hst (fun _ hr => hr)
    · exact h.goOn hi rfl (fun _ _ => rfl) (fun _ _ => rfl) ⟨by simp, hst⟩
  | deadline =>
    simp only [waitRun] at hrun
    split at hrun
    · cases hrun
      exact h.goOn hi rfl (fun _ _ => rfl) (fun _ _ => rfl) ⟨by simp, hst⟩
    · cases hrun
      exact h.goOn hi rfl (fun _ _ => rfl) (fun _ _ => rfl) hst (fun _ hr => hr)
  | sleep =>
    simp only [waitRun] at hrun
    split_ifs at hrun with hpend
    · cases hrun
      exact h.moveWait hi (fun t ht => update_of_ne ht _ _) (h.locked.move hi rfl)
        (fun _ _ => rfl) (fun _ _ => rfl) hst (fun _ _ => trivial)
    · cases hrun
      refine h.goOn hi rfl (fun _ _ => rfl) (fun _ _ => rfl) hst (fun _ hr => ?_)
      rw [← (h.ids.wait i w _ hi).1] at hpend
      exact hr.resolve_left hpend
  | asleep | killed => cases hrun
  | errLock rc =>
    simp only [waitRun] at hrun
    obtain ⟨hfree, rfl⟩ := Option.ite_some_none_eq_some.mp hrun
    -- the lock is free, so the record is in nobody's hand
    have hnot : ¬ ∃ j, (s.pc j).inHand = some w := by
      rintro ⟨j, hj⟩
      rw [(h.locked w.bucket j).2 (h.lists.hand j w hj).2.1] at hfree
      cases hfree
    refine h.moveWait hi (fun _ _ => rfl) ?_ (fun _ _ => rfl) (fun e => absurd e hnot) ⟨hst.1, ?_⟩
      (fun _ _ => trivial)
    · exact h.locked.acquire hfree hi rfl rfl
    · obtain hw | hw | hw := hst.2
      · exact .inl hw
      · exact .inr hw
      · exact absurd hw hnot
  | errCheck rc =>
    simp only [waitRun] at hrun
    split_ifs at hrun with hwoken
    · cases hrun
      exact h.goOn hi rfl (fun hw => absurd hw (hgone hwoken)) (by rintro _ ⟨⟩) (.inl ⟨rfl, hwoken⟩)
    · cases hrun
      exact h.goOn hi rfl (fun _ _ => rfl) (by rintro _ ⟨⟩) ⟨hst.1, hst.2.resolve_right hwoken⟩
  | errUnlink rc =>
    cases hrun
    have hnodup := h.lists.nodup w.bucket
    have hgone : w ∉ (s.queue w.bucket).erase w := hnodup.not_mem_erase
    refine h.editWait hi rfl rfl (fun w' hw' => mem_erase_of_ne hw') (hnodup.erase w)
      (fun e => absurd e hgone) (.inr ⟨hst.1, ?_, (h.lists.queued _ w hst.2).2.1⟩)
    change w ∉ update s.queue w.bucket _ w.bucket
    rwa [update_self]
  | leave rc =>
    cases hrun
    have hlocked := h.locked.release (i := i) (p := .idle) hi rfl rfl
    have hnot := h.lists.not_inHand h.ids hi rfl
    obtain ⟨rfl, hwoken⟩ | ⟨hrc, hout, hwoken⟩ := hst
    · exact h.retWait hi hlocked (hgone hwoken) hnot ⟨fun _ => hwoken, fun _ => rfl⟩
    · exact h.retWait hi hlocked hout hnot
        ⟨fun e => absurd e hrc, fun e => by rw [hwoken] at e; cases e⟩

/-- A thread that is killed leaves its record where it is. -/
lemma Inv.kill (h : Inv s) (hi : s.pc i = .wait w p) (hp : p.holds = false) :
    Inv (s.setPc i (.wait w .killed)) :=
  h.goOn hi hp.symm (fun _ _ => rfl) (fun _ _ => rfl) trivial

/-! ### `sched_wake` -/

lemma schedWake_pc_of_wake {j : ι} {p : WakePc ι} (t : ι) (hj : s.pc j = .wake k p) :
    (s.schedWake t).pc j = .wake k p := by
  unfold Sys.schedWake
  split
  next w hw =>
    have hjt : j ≠ t := by
      rintro rfl
      rw [hw] at hj
      nomatch hj
    rwa [setPc_pc, if_neg hjt]
  · exact hj

lemma Inv.schedWake (h : Inv s) (t : ι) : Inv (s.schedWake t) := by
  unfold Sys.schedWake
  split
  next w hw =>
    have hpub : Published s w := h.lists.stage t w _ hw
    exact h.goOn hw rfl (fun _ _ => rfl) (fun _ _ => rfl) hpub
  · refine { h with ids := { h.ids with }, lists := { h.lists with },
                    alive := fun n w hw hres => ?_ }
    obtain ⟨p, hp, hrest⟩ := h.alive n w hw hres
    refine ⟨p, hp, ?_⟩
    cases p with
    | signal | deadline | sleep =>
      refine hrest.imp_left fun hpend => ?_
      change update s.wakePending t true w.task = true
      rw [update_apply, hpend, ite_self]
    | _ => exact hrest

/-- After `sched_wake` of its task a marked waiter needs no other wake-up. -/
lemma Inv.alive_schedWake (h : Inv s) {n : ℕ} (hw : w ∈ s.woke n) (hres : s.result w.id = none) :
    ∃ p, (s.schedWake w.task).pc w.task = .wait w p ∧
      p ≠ .asleep ∧ (p = .loop ∨ (s.schedWake w.task).wakePending w.task = true) := by
  obtain ⟨p, hp, -⟩ := h.alive n w hw hres
  unfold Sys.schedWake
  split
  next w' hw' =>
    rw [hp] at hw'
    cases hw'
    exact ⟨.loop, by rw [setPc_pc, if_pos rfl], nofun, .inl rfl⟩
  next hnot =>
    exact ⟨p, hp, fun e => hnot w (e ▸ hp), .inr (update_self _ _ _)⟩

/-! ### `futex_wake` -/

lemma Inv.moveWake (h : Inv s) {p p' : WakePc ι} {lk : BitVec 64 → Option ι}
    {fd : ℕ → List (Waiter ι)} (hi : s.pc i = .wake k p) (hfound : ∀ n ≠ k.id, fd n = s.found n)
    (hold : Pc.inHand (.wake k p) = none) (hnew : Pc.inHand (.wake k p') = none) :
    let s' := { s with lock := lk, found := fd, late := x, pc := update s.pc i (.wake k p') }
    Locked s' → Alive s' → Walk s' k p' → Inv s' := by
  intro s' hlocked halive hwalk
  constructor
  case locked => exact hlocked
  case ids => exact { h.ids.moveWake hi p' with }
  case lists => exact { h.lists.setPc hi hold hnew nofun nofun nofun with }
  case walks =>
    refine h.walks.other h.locked rfl (fun _ _ => rfl) (fun j k' p hji hj => ⟨rfl, ?_⟩) ?_
    · exact hfound _ fun e => hji (h.ids.wakeInj j i k' k _ _ hj hi e)
    · rintro _ _ ⟨⟩
      exact ⟨hwalk, (h.walks i k p hi).2⟩
  case books =>
    refine { h.books with returned := fun e he => ?_ }
    have hfd : s'.found e.1.id = s.found e.1.id := hfound _ ((h.ids.wake i k p hi).2.2 e he)
    rw [hfd]
    exact h.books.returned e he
  case alive => exact halive

/-- What a position other than the last two of a round owes is nothing. -/
lemma Owed.moveWake (h : Owed s w) (hpc : s'.pc = update s.pc i q)
    (hwoke : ∀ n, s.woke n ⊆ s'.woke n) (htask : ∀ k pos c, s.pc i ≠ .wake k (.task pos c w))
    (hwake : ∀ k pos c, s.pc i ≠ .wake k (.wake pos c w.task)) : Owed s' w := by
  obtain ⟨j, k, pos, c, hj⟩ := h
  have hji : j ≠ i := by
    rintro rfl
    obtain hj | ⟨hj, -⟩ := hj
    · exact htask k pos c hj
    · exact hwake k pos c hj
  refine ⟨j, k, pos, c, ?_⟩
  rw [hpc, update_of_ne hji]
  exact hj.imp_right fun ⟨hj, hw⟩ => ⟨hj, hwoke _ hw⟩

omit [DecidableEq ι] in
lemma touchLink_eq (s : Sys ι) (b : BitVec 64) (pos : ℕ) :
    ∃ x, s.touchLink b pos = { s with late := x } := by
  cases pos with
  | zero => exact ⟨s.late, rfl⟩
  | succ pos =>
    cases hw : (s.queue b)[pos]? with
    | none => exact ⟨s.late, by simp only [Sys.touchLink, hw]⟩
    | some w => exact ⟨_, by simp only [Sys.touchLink, hw]; rfl⟩

/-- A call of `futex_wake` goes on in its walk, and only whether a record was used late can
change. -/
lemma Inv.walkOn (h : Inv s) {p p' : WakePc ι} (hi : s.pc i = .wake k p) (hp : p.holds = true)
    (hp' : p'.holds = true) (hold : Pc.inHand (.wake k p) = none) (hnew : Pc.inHand (.wake k p') = none)
    (halive : Alive (s.setPc i (.wake k p'))) (hwalk : Walk s k p') :
    Inv ({ s with late := x }.setPc i (.wake k p')) := by
  refine h.moveWake hi (fun _ _ => rfl) hold hnew ?_ halive (hwalk.congr (fun _ => rfl) rfl rfl)
  exact Locked.move (s := { s with late := x }) h.locked hi (by simp [Pc.holds, hp, hp'])

/-- A step of a call of `futex_wake` that owes nothing. -/
lemma Alive.quiet (h : Alive s) {p : WakePc ι} (hi : s.pc i = .wake k p)
    (htask : ∀ pos c w, p ≠ .task pos c w) (hwake : ∀ pos c t, p ≠ .wake pos c t) :
    Alive (s.setPc i q) := by
  refine h.moveWake hi nofun (fun n w hw => .inl hw) fun w _ how => ?_
  refine how.moveWake rfl (fun _ _ h => h) ?_ ?_ <;> rw [hi]
  · rintro _ _ _ ⟨⟩; exact htask _ _ _ rfl
  · rintro _ _ _ ⟨⟩; exact hwake _ _ _ rfl

omit [DecidableEq ι] in
lemma Call.bucket_eq (h : k.Matches w) : w.bucket = k.bucket := by
  rw [Waiter.bucket, Call.bucket, h.1, h.2]

omit [DecidableEq ι] in
/-- A record that does not match is passed over. -/
lemma Covers.skip (h : Covers s k ((s.queue k.bucket).drop pos))
    (hw : (s.queue k.bucket)[pos]? = some w) (hnot : ¬ k.Matches w) :
    Covers s k ((s.queue k.bucket).drop (pos + 1)) := by
  intro w' hw' hmatch
  refine (h w' hw' hmatch).imp_right fun hmem => ?_
  obtain ⟨hlt, hget⟩ := List.getElem?_eq_some_iff.1 hw
  rw [List.drop_eq_getElem_cons hlt, hget, List.mem_cons] at hmem
  exact hmem.resolve_left fun e => hnot (e ▸ hmatch)

/-- A call of `futex_wake` takes the record it stands at off the list. -/
lemma Inv.unlink (h : Inv s) (hi : s.pc i = .wake k (.unlink pos c w)) :
    Inv (({ s with late := x }.setQueue k.bucket ((s.queue k.bucket).eraseIdx pos)).setPc i
      (.wake k (.mark pos c w))) := by
  obtain ⟨⟨hlen, hc, hcov, hget, hmatch⟩, hkeys⟩ := h.walks i k _ hi
  obtain ⟨hlt, hget⟩ := List.getElem?_eq_some_iff.1 hget
  have hb : w.bucket = k.bucket := Call.bucket_eq hmatch
  have hnodup := h.lists.nodup k.bucket
  have herase : (s.queue k.bucket).eraseIdx pos = (s.queue k.bucket).erase w := by
    rw [← hget, hnodup.erase_getElem]
  constructor
  case locked =>
    refine Locked.move (s := { s with late := x }.setQueue k.bucket _) h.locked hi ?_
    rfl
  case ids => exact { h.ids.moveWake hi _ with }
  case lists =>
    rw [herase, ← hb]
    refine { h.lists.unlink h.locked h.ids pos c hi rfl (by rw [hi]; rfl) hb.symm ?_ ?_
      (fun w' hw' => mem_erase_of_ne hw') ?_ with }
    · rw [hb, ← hget]; exact getElem_mem hlt
    · rw [hb]; exact hnodup.not_mem_erase
    · rw [hb]; exact hnodup.erase w
  case walks =>
    refine h.walks.other h.locked rfl (fun b hb' => ?_) (fun _ _ _ _ _ => ⟨rfl, rfl⟩) ?_
    · have hne : b ≠ k.bucket := by
        rintro rfl
        rw [hi] at hb'
        exact hb' rfl
      exact update_of_ne hne _ _
    · rintro _ _ ⟨⟩
      refine ⟨⟨hlen, hc, fun w' hw' hm => ?_, hmatch⟩, hkeys⟩
      refine (hcov w' hw' hm).imp_right fun hmem => ?_
      rw [drop_eq_getElem_cons hlt, hget] at hmem
      change w' ∈ w :: (update s.queue k.bucket _ k.bucket).drop pos
      rwa [update_self, eraseIdx_eq_take_drop_succ, drop_left' (length_take_of_le hlt.le)]
  case books => exact h.books
  case alive => exact h.alive.quiet hi nofun nofun

omit [DecidableEq ι] in
lemma mem_update_cons {woke : ℕ → List (Waiter ι)} {m n : ℕ} {w' : Waiter ι} :
    w' ∈ update woke m (w :: woke m) n ↔ (n = m ∧ w' = w) ∨ w' ∈ woke n := by
  rw [update_apply]
  split_ifs with hn
  · rw [mem_cons, hn]; simp
  · simp [hn]

omit [DecidableEq ι] in
/-- A record that was not marked before is marked by a call in progress. -/
lemma Recorded.mark {woken : ℕ → Bool} {woke found : ℕ → List (Waiter ι)} {result : ℕ → Option Ret}
    {returned : List (Call ι × ℕ)} (h : Recorded woken woke found result returned) {m : ℕ}
    (hno : woken w.id = false) (hres : result w.id = none) (hm : ∀ e ∈ returned, e.1.id ≠ m) :
    Recorded (update woken w.id true) (update woke m (w :: woke m)) found result returned := by
  have hnew : ∀ n, ∀ w' ∈ woke n, w'.id ≠ w.id := by
    intro n w' hw' e
    have := h.woken_of_mem n w' hw'
    rw [e, hno] at this
    nomatch this
  constructor
  case woken_of_mem =>
    intro n w' hw'
    obtain ⟨-, rfl⟩ | hw' := mem_update_cons.1 hw'
    · exact update_self _ _ _
    · rw [update_apply, h.woken_of_mem n w' hw', ite_self]
  case mem_of_woken =>
    intro id hid
    rcases update_cases hid with ⟨rfl, -⟩ | ⟨-, hid⟩
    · exact ⟨m, w, mem_update_cons.2 (.inl ⟨rfl, rfl⟩), rfl⟩
    · obtain ⟨n, w', hw', e⟩ := h.mem_of_woken id hid
      exact ⟨n, w', mem_update_cons.2 (.inr hw'), e⟩
  case nodup =>
    intro n
    rw [update_apply]
    split
    · rw [map_cons, nodup_cons]
      refine ⟨fun hmem => ?_, h.nodup m⟩
      obtain ⟨w', hw', e⟩ := mem_map.1 hmem
      exact hnew m w' hw' e
    · exact h.nodup n
  case unique =>
    intro n n' w1 h1 w2 h2 e
    obtain ⟨hn, hw1⟩ | hold1 := mem_update_cons.1 h1 <;>
      obtain ⟨hn', hw2⟩ | hold2 := mem_update_cons.1 h2
    · rw [hn, hn']
    · exact absurd (hw1 ▸ e.symm) (hnew n' w2 hold2)
    · exact absurd (hw2 ▸ e) (hnew n w1 hold1)
    · exact h.unique n n' w1 hold1 w2 hold2 e
  case result =>
    intro id rc hrc
    have hne : id ≠ w.id := by
      rintro rfl
      rw [hres] at hrc
      nomatch hrc
    rw [update_of_ne hne]
    exact h.result id rc hrc
  case returned =>
    intro e he
    rw [update_of_ne (hm e he)]
    exact h.returned e he

/-- A call of `futex_wake` marks the record it has in its hand. -/
lemma Inv.mark (h : Inv s) (hi : s.pc i = .wake k (.mark pos c w)) :
    Inv ({ s with
        late := x
        woken := update s.woken w.id true
        woke := update s.woke k.id (w :: s.woke k.id) }.setPc i
      (.wake k (.task pos c w))) := by
  obtain ⟨⟨hlen, hc, hcov, hmatch⟩, hkeys⟩ := h.walks i k _ hi
  have hhand : (s.pc i).inHand = some w := by rw [hi]; rfl
  obtain ⟨⟨-, hno⟩, -, q, hq, hopen⟩ := h.lists.hand i w hhand
  constructor
  case locked =>
    exact Locked.move (s := { s with late := x, woken := _, woke := _ }) h.locked hi rfl
  case ids =>
    have hmove := h.ids.moveWake hi (.task pos c w)
    refine ⟨hmove.wait, hmove.waitInj, hmove.wake, hmove.wakeInj, hmove.result, fun n hn => ?_,
      fun n hn => ?_, hmove.returned, hmove.distinct⟩
    · have hne : n ≠ w.id := by
        rintro rfl
        exact absurd (h.ids.wait _ w q hq).2.1 (Nat.not_lt.mpr hn)
      exact (update_of_ne hne _ _).trans (h.ids.woken n hn)
    · have hne : n ≠ k.id := by
        rintro rfl
        exact absurd (h.ids.wake i k _ hi).2.1 (Nat.not_lt.mpr hn)
      exact (update_of_ne hne _ _).trans (h.ids.woke n hn)
  case lists =>
    exact { h.lists.mark (q := .wake k (.task pos c w)) h.locked h.ids hhand rfl nofun with }
  case walks =>
    refine h.walks.other h.locked rfl (fun _ _ => rfl) (fun j k' p hji hj => ⟨?_, rfl⟩) ?_
    · exact update_of_ne (fun e => hji (h.ids.wakeInj j i k' k _ _ hj hi e)) _ _
    · rintro _ _ ⟨⟩
      refine ⟨⟨?_, hc, fun w' hw' hm => ?_, mem_update_cons.2 (.inl ⟨rfl, rfl⟩)⟩, fun w' hw' => ?_⟩
      · change (update s.woke k.id _ k.id).length = c + 1
        rw [update_self, length_cons, hlen]
      · obtain hw | hw := hcov w' hw' hm
        · exact .inl (mem_update_cons.2 (.inr hw))
        · obtain rfl | hw := mem_cons.1 hw
          · exact .inl (mem_update_cons.2 (.inl ⟨rfl, rfl⟩))
          · exact .inr hw
      · obtain ⟨-, rfl⟩ | hw' := mem_update_cons.1 hw'
        · exact hmatch
        · exact hkeys w' hw'
  case books =>
    exact Recorded.mark h.books hno (h.ids.wait _ w q hq).2.2 (h.ids.wake i k _ hi).2.2
  case alive =>
    refine h.alive.moveWake hi nofun (fun n w' hw' => ?_) fun w' _ how => ?_
    · obtain ⟨-, rfl⟩ | hw' := mem_update_cons.1 hw'
      · exact .inr ⟨⟨i, k, pos, c, .inl (update_self _ _ _)⟩, q, hq⟩
      · exact .inl hw'
    · exact how.moveWake rfl (fun n w'' hw'' => mem_update_cons.2 (.inr hw'')) (by rw [hi]; nofun)
        (by rw [hi]; nofun)

/-- A call of `futex_wake` wakes the task it has read. -/
lemma Inv.wakeTask (h : Inv s) {t : ι} (hi : s.pc i = .wake k (.wake pos c t)) :
    Inv ((s.schedWake t).setPc i (.wake k (.top pos (c + 1)))) := by
  have hi' := schedWake_pc_of_wake t hi
  have h' := h.schedWake t
  obtain ⟨⟨hlen, hc, hcov⟩, -⟩ := h'.walks i k _ hi'
  have hstay : ∀ {w : Waiter ι} {p : WaitPc} {q : Pc ι}, (s.schedWake t).pc w.task = .wait w p →
      ((s.schedWake t).setPc i q).pc w.task = .wait w p := by
    intro w p q hp
    have hne : w.task ≠ i := by
      intro e
      rw [e, hi'] at hp
      nomatch hp
    rwa [setPc_pc, if_neg hne]
  refine h'.walkOn hi' rfl rfl rfl rfl (fun n w hw hres => ?_) ⟨hlen, hc, hcov⟩
  by_cases htask : w.task = t
  · -- the waiter is awake, or will not fall asleep
    subst htask
    have hframe : (s.schedWake w.task).woke = s.woke ∧ (s.schedWake w.task).result = s.result := by
      unfold Sys.schedWake; split <;> exact ⟨rfl, rfl⟩
    change w ∈ (s.schedWake w.task).woke n at hw
    change (s.schedWake w.task).result w.id = none at hres
    rw [hframe.1] at hw
    rw [hframe.2] at hres
    obtain ⟨p, hp, hawake, hpend⟩ := h.alive_schedWake hw hres
    refine ⟨p, hstay hp, ?_⟩
    cases p with
    | signal | deadline | sleep => exact .inl (hpend.resolve_left nofun)
    | asleep => exact absurd rfl hawake
    | _ => trivial
  · obtain ⟨p, hp, hrest⟩ := h'.alive n w hw hres
    refine ⟨p, hstay hp, hrest.mono rfl fun how => ?_⟩
    refine how.moveWake rfl (fun _ _ h => h) (by rw [hi']; nofun) ?_
    rw [hi']
    rintro _ _ _ ⟨⟩
    exact htask rfl

lemma Inv.retWake (h : Inv s) (hi : s.pc i = .wake k (.unlock c)) :
    Inv ((s.setLock k.bucket none).retWake i k c) := by
  obtain ⟨⟨hlen, hc, hcov⟩, hkeys⟩ := h.walks i k _ hi
  constructor
  case locked => exact h.locked.release (i := i) (p := .idle) hi rfl rfl
  case ids => exact { h.ids.retWake hi c with }
  case lists => exact { h.lists.setPc (q := .idle) hi rfl rfl nofun nofun nofun with }
  case walks =>
    exact h.walks.other h.locked rfl (fun _ _ => rfl) (fun _ _ _ _ _ => ⟨rfl, rfl⟩) nofun
  case books =>
    refine { h.books with returned := forall_mem_cons.2 ⟨⟨hlen, hc, hkeys, ?_⟩, h.books.returned⟩ }
    intro hlt w hw hmatch
    exact (hcov hlt w hw hmatch).resolve_right not_mem_nil
  case alive => exact h.alive.quiet hi nofun nofun

/-- **`futex_wake`.** -/
lemma Inv.wakeRun (h : Inv s) {p : WakePc ι} {junk : ι} (hi : s.pc i = .wake k p)
    (hrun : wakeRun s i k junk p = some s') : Inv s' := by
  obtain ⟨hwalk, hkeys⟩ := h.walks i k p hi
  cases p with
  | lock =>
    simp only [Futex.wakeRun] at hrun
    obtain ⟨hfree, rfl⟩ := Option.ite_some_none_eq_some.mp hrun
    refine h.moveWake hi (fun n hn => update_of_ne hn _ _) rfl rfl ?_
      (h.alive.quiet hi nofun nofun) ?_
    · exact h.locked.acquire hfree hi rfl rfl
    · refine ⟨length_eq_zero_iff.2 hwalk, Nat.zero_le _, fun w hw _ => .inr ?_⟩
      change w ∈ update s.found k.id (s.queue k.bucket) k.id at hw
      rwa [update_self] at hw
  | top pos c =>
    cases hrun
    obtain ⟨hlen, hc, hcov⟩ := hwalk
    obtain ⟨x, hx⟩ := touchLink_eq s k.bucket pos
    rw [hx]
    have hon : ∀ p', p'.holds = true → Pc.inHand (.wake k p') = none → Walk s k p' →
        Inv ({ s with late := x }.setPc i (.wake k p')) := fun p' hp' hnew hw =>
      h.walkOn hi rfl hp' rfl hnew (h.alive.quiet hi nofun nofun) hw
    split
    next hend =>
      refine hon _ rfl rfl ⟨hlen, hc, fun _ => ?_⟩
      rwa [drop_eq_nil_of_le (getElem?_eq_none_iff.1 hend)] at hcov
    next w hget =>
      split_ifs with hlt
      · exact hon _ rfl rfl ⟨hlen, hlt, hcov, hget⟩
      · exact hon _ rfl rfl ⟨hlen, hc, fun h => absurd h hlt⟩
  | look pos c w =>
    cases hrun
    obtain ⟨hlen, hc, hcov, hget⟩ := hwalk
    split_ifs with hmatch
    · exact h.walkOn hi rfl rfl rfl rfl (h.alive.quiet hi nofun nofun)
        ⟨hlen, hc, hcov, hget, hmatch⟩
    · exact h.walkOn hi rfl rfl rfl rfl (h.alive.quiet hi nofun nofun)
        ⟨hlen, hc.le, hcov.skip hget hmatch⟩
  | unlink pos c w =>
    cases hrun
    obtain ⟨x, hx⟩ := touchLink_eq s k.bucket pos
    rw [hx]
    exact h.unlink hi
  | mark pos c w => cases hrun; exact h.mark hi
  | task pos c w =>
    cases hrun
    obtain ⟨hlen, hc, hcov, hw⟩ := hwalk
    refine h.walkOn hi rfl rfl rfl rfl ?_ ⟨hlen, hc, hcov⟩
    refine h.alive.moveWake hi nofun (fun n w hw => .inl hw) fun w' hres how => ?_
    by_cases hww : w' = w
    · -- the call has not returned, so its task was read
      subst hww
      refine ⟨i, k, pos, c, .inr ⟨?_, hw⟩⟩
      rw [hres]
      exact update_self _ _ _
    · refine how.moveWake rfl (fun _ _ h => h) ?_ (by rw [hi]; nofun)
      rw [hi]
      rintro _ _ _ ⟨⟩
      exact hww rfl
  | wake pos c t => cases hrun; exact h.wakeTask hi
  | unlock c => cases hrun; exact h.retWake hi

end Makaos.Futex
