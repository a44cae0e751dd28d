import Makaos.Proc.TaskExit

/-!
The storage of a task outlives it.

* `Passed`: which CPUs the dying task is known to have left, at each position of the grace period.
* `storage_outlives`: **storage is freed only after the task has left its last CPU**, in every run in
  which the parent does not take a CPU for quiescent while the dying task executes there.
* `freed_while_running`: a run in which it does.
-/

namespace Makaos.TaskExit

open Transition RcuGrace Option Sys List
open Function (forall_update_iff update update_apply update_eq_self update_of_ne update_self)
open RcuGrace (graceStep graceRun)

variable {τ : Type*} {s s' : Sys τ} {t d : τ} {c : ℕ} {next : Option τ} {p : Pc τ} {r : RcuGrace.Sys τ}

/-- The task does not execute on CPU `c`. -/
def NotOn (s : Sys τ) (d : τ) (c : ℕ) : Prop := s.rcu.running c ≠ some d

/-- What the caller of `rcu_note_qs` knows about the dying task. -/
def ThenPassed (s : Sys τ) (d : τ) : RcuGrace.Then → Prop
  | .bail | .classic => False
  | .expedited => True
  | .callback me _ => NotOn s d me

/-- Which CPUs the dying task is known to have left. -/
def Passed (s : Sys τ) (d : τ) : RcuGrace.Pc → Prop
  | .idle => ∀ c < s.rcu.ncpu, NotOn s d c
  | .snap exp _ => exp = true
  | .note k | .inc _ k => ThenPassed s d k
  | .me => True
  | .ipi me _ | .ipiWait me _ | .depthOf me _ | .depth me _ _ => NotOn s d me
  | .wait me i => (∃ m, me = some m ∧ NotOn s d m) ∧ ∀ c < i, NotOn s d c

/-- The task has set its state in `sys_exit`. -/
def Dead (s : Sys τ) (d : τ) : Prop := s.st d = .zombie ∨ s.st d = .freed

/-- What a position says: only a task that is not dead waits, and only for a dead one. -/
def Reaping (s : Sys τ) (t : τ) : Pc τ → Prop
  | .other | .setState | .load _ => ¬ Dead s t
  | .unlink d | .destroy d => ¬ Dead s t ∧ Dead s d
  | .grace d => ¬ Dead s t ∧ Dead s d ∧ Passed s d (s.rcu.pc t)
  | _ => True

/-- What holds in every state. -/
structure Inv (s : Sys τ) : Prop where
  reaping : ∀ t, Reaping s t (s.pc t)
  good : Good s

lemma Passed.mono {p : RcuGrace.Pc} (h : Passed s d p) (hn : s'.rcu.ncpu = s.rcu.ncpu)
    (hon : ∀ c, NotOn s d c → NotOn s' d c) : Passed s' d p := by
  have hthen : ∀ {k}, ThenPassed s d k → ThenPassed s' d k := by
    intro k hk
    cases k with
    | callback me i => exact hon me hk
    | _ => exact hk
  cases p with
  | idle => exact fun c hc => hon c (h c (hn ▸ hc))
  | snap exp i => exact h
  | note k | inc c k => exact hthen h
  | me => trivial
  | ipi me i | ipiWait me i | depthOf me i | depth me i c => exact hon me h
  | wait me i =>
    obtain ⟨⟨m, hm, hon'⟩, hbelow⟩ := h
    exact ⟨⟨m, hm, hon m hon'⟩, fun c hc => hon c (hbelow c hc)⟩

/-- What a position says stays true when the dead stay dead and do not come back to a CPU. -/
lemma Reaping.mono (h : Reaping s t p) (hn : s'.rcu.ncpu = s.rcu.ncpu)
    (hpc : s'.rcu.pc t = s.rcu.pc t) (hlive : ¬ Dead s t → ¬ Dead s' t)
    (hdead : ∀ d, Dead s d → Dead s' d) (hon : ∀ d, Dead s d → ∀ c, NotOn s d c → NotOn s' d c) :
    Reaping s' t p := by
  cases p with
  | other | setState | load d => exact hlive h
  | unlink d | destroy d => exact ⟨hlive h.1, hdead d h.2⟩
  | grace d =>
    obtain ⟨hl, hd, hp⟩ := h
    refine ⟨hlive hl, hdead d hd, ?_⟩
    rw [hpc]
    exact hp.mono hn (hon d hd)
  | _ => trivial

/-- A step in which nobody dies, nobody is freed, and no dead task comes to a CPU. -/
structure Keeps (s s' : Sys τ) : Prop where
  ncpu : s'.rcu.ncpu = s.rcu.ncpu
  dead : ∀ d, Dead s' d ↔ Dead s d
  freed : ∀ d, s'.st d = .freed → s.st d = .freed
  on : ∀ d, Dead s d → ∀ c, NotOn s d c → NotOn s' d c

lemma Keeps.good (k : Keeps s s') (h : Good s) : Good s' := by
  intro d hd c hc
  have hd' := k.freed d hd
  exact k.on d (.inr hd') c (h d hd' c (k.ncpu ▸ hc))

lemma Keeps.reaping (k : Keeps s s') (h : Reaping s t p) (hpc : s'.rcu.pc t = s.rcu.pc t) :
    Reaping s' t p :=
  h.mono k.ncpu hpc (fun hl hd => hl ((k.dead t).1 hd)) (fun d => (k.dead d).2) k.on

lemma Inv.keepAll (h : Inv s) (k : Keeps s s') (hrcu : s'.rcu.pc = s.rcu.pc) (hpc : s'.pc = s.pc) :
    Inv s' :=
  ⟨fun u => hpc ▸ k.reaping (h.reaping u) (by rw [hrcu]), k.good h.good⟩

lemma Keeps.of_eq (hn : s'.rcu.ncpu = s.rcu.ncpu) (hst : s'.st = s.st)
    (hon : s'.rcu.running = s.rcu.running) : Keeps s s' := by
  refine ⟨hn, fun d => ?_, fun d => ?_, fun d _ c hc => ?_⟩
  · rw [Dead, Dead, hst]
  · rw [hst]; exact id
  · rw [NotOn, hon]; exact hc

lemma Keeps.trans {s1 s2 s3 : Sys τ} (h : Keeps s1 s2) (k : Keeps s2 s3) : Keeps s1 s3 :=
  ⟨k.ncpu.trans h.ncpu, fun d => (k.dead d).trans (h.dead d), fun d hd => h.freed d (k.freed d hd),
    fun d hd c hc => k.on d ((h.dead d).2 hd) c (h.on d hd c hc)⟩

lemma not_dead_of_runnable (h : s.Runnable next) : ∀ n ∈ next, ¬ Dead s n := by
  intro n hn
  rw [Dead, h n hn]
  nofun

variable [DecidableEq τ]

/-! ### The grace period -/

/-- A caller moves only itself, and no CPU goes on with another task. -/
lemma graceRun_frame {r' : RcuGrace.Sys τ} {p : RcuGrace.Pc} (h : graceRun r t c p = some r') :
    r'.running = r.running ∧ r'.ncpu = r.ncpu ∧ ∀ u ≠ t, r'.pc u = r.pc u := by
  have hpc : ∀ (q : RcuGrace.Pc) (u : τ), u ≠ t → update r.pc t q u = r.pc u :=
    fun q u hu => update_of_ne hu _ _
  cases p <;> simp only [graceRun] at h <;> (repeat' split at h) <;> cases h <;>
    exact ⟨rfl, rfl, hpc _⟩

lemma Passed.run (h : Passed s d (s.rcu.pc t)) (hpc : s.pc t = .grace d) (hex : s.rcu.Executes t c)
    (htd : t ≠ d) (hok : Departed s (.run t c next))
    (hrun : graceRun s.rcu t c (s.rcu.pc t) = some r) : Passed s d (r.pc t) := by
  have hc : NotOn s d c := by
    intro e
    rw [hex.2.1] at e
    exact htd (some.inj e)
  have hupd : ∀ {q : RcuGrace.Pc}, Passed s d q → Passed s d (update s.rcu.pc t q t) := by
    intro q hq
    rwa [update_self]
  generalize hp : s.rcu.pc t = pc at hrun h
  cases pc with
  | idle => nomatch hrun
  | snap exp i =>
    obtain rfl : exp = true := h
    simp only [graceRun] at hrun
    split at hrun
    · cases hrun; exact hupd rfl
    · cases hrun; exact hupd trivial
  | note k | depthOf me i => cases hrun; exact hupd h
  | inc e k =>
    cases hrun
    refine hupd ?_
    cases k with
    | bail | classic => exact absurd h id
    | expedited => trivial
    | callback me i => exact h
  | me => cases hrun; exact hupd hc
  | ipi me i =>
    simp only [graceRun] at hrun
    split at hrun
    · split at hrun
      · cases hrun; exact hupd h
      · split at hrun <;> cases hrun <;> exact hupd h
    · cases hrun; exact hupd ⟨⟨me, rfl, h⟩, nofun⟩
  | ipiWait me i =>
    simp only [graceRun] at hrun
    obtain ⟨-, hrun⟩ := ite_none_right_eq_some.mp hrun
    cases hrun; exact hupd h
  | depth me i e =>
    simp only [graceRun] at hrun
    split at hrun <;> cases hrun <;> exact hupd h
  | wait me i =>
    obtain ⟨⟨m, rfl, hm⟩, hbelow⟩ := h
    simp only [graceRun] at hrun
    split at hrun
    next hi =>
      obtain ⟨hpass, rfl⟩ := ite_some_none_eq_some.mp hrun
      refine hupd ⟨⟨m, rfl, hm⟩, fun e he => ?_⟩
      obtain he | rfl := Nat.lt_succ_iff_lt_or_eq.1 he
      · exact hbelow e he
      · by_cases hme : e = m
        · exact hme ▸ hm
        · -- the counter of this CPU has changed
          have hqs := hpass.resolve_left hme
          refine hok (d, e) ?_
          have hne : some m ≠ some e := fun e' => hme (some.inj e').symm
          simp [accepting, hpc, hp, hi, hne, hqs]
    next hi =>
      cases hrun
      exact hupd fun e he => hbelow e (by omega)

/-! ### Every step -/

lemma Inv.keep (h : Inv s) (hpc : s'.pc = update s.pc t p := by rfl)
    (hp : Reaping s t p := by trivial) (hrcu : s'.rcu.pc = s.rcu.pc := by rfl)
    (k : Keeps s s' := by exact .of_eq rfl rfl rfl) : Inv s' := by
  refine ⟨?_, k.good h.good⟩
  rw [hpc]
  exact (forall_update_iff s.pc (Reaping s')).mpr ⟨k.reaping hp (by rw [hrcu]),
    fun u _ => k.reaping (h.reaping u) (by rw [hrcu])⟩

/-- The state of a task that is not dead changes. -/
lemma Keeps.setSt {x : St} (ht : ¬ Dead s t) (hx : x ≠ .zombie ∧ x ≠ .freed) :
    Keeps s (s.setSt t x) := by
  have hst : ∀ d, (s.setSt t x).st d = if d = t then x else s.st d := fun d =>
    update_apply _ _ _ _
  refine ⟨rfl, fun d => ?_, fun d hd => ?_, fun d _ c hc => hc⟩
  · rw [Dead, hst]
    split_ifs with hdt
    · rw [hdt]
      exact ⟨fun h => absurd h (by rw [not_or]; exact hx), fun h => absurd h ht⟩
    · rfl
  · rw [hst] at hd
    split at hd
    · exact absurd hd hx.2
    · exact hd

lemma Keeps.switchTo (hnext : ∀ n ∈ next, ¬ Dead s n) : Keeps s (s.switchTo c next) := by
  have hst : Keeps s { s with st := (s.switchTo c next).st } := by
    cases next with
    | none => exact .of_eq rfl rfl rfl
    | some n => exact Keeps.setSt (hnext n rfl) ⟨nofun, nofun⟩
  refine hst.trans ⟨rfl, fun _ => Iff.rfl, fun _ => id, fun d hd e he => ?_⟩
  change update s.rcu.running c next e ≠ some d
  rw [update_apply]
  split
  · rintro rfl
    exact hnext d rfl ((hst.dead d).1 hd)
  · exact he

lemma Keeps.wake (s : Sys τ) (t : τ) : Keeps s (s.wake t) := by
  unfold Sys.wake
  split_ifs with ht
  · refine Keeps.setSt ?_ ⟨nofun, nofun⟩
    rw [Dead, ht]
    nofun
  · exact .of_eq rfl rfl rfl

lemma Inv.wake (h : Inv s) (t : τ) : Inv (s.wake t) := by
  have hframe : (s.wake t).rcu.pc = s.rcu.pc ∧ (s.wake t).pc = s.pc := by
    unfold Sys.wake; split <;> exact ⟨rfl, rfl⟩
  exact h.keepAll (Keeps.wake s t) hframe.1 hframe.2

lemma Keeps.doSwitch (h : Good s) {sleep : Bool} (hc : c < s.rcu.ncpu) (hnext : s.Runnable next) :
    Keeps s (s.doSwitch c next sleep) := by
  have hinc : Keeps s { s with rcu := s.rcu.incQs c } := .of_eq rfl rfl rfl
  unfold Sys.doSwitch
  split
  · exact hinc.trans (Keeps.switchTo (not_dead_of_runnable hnext))
  next t ht =>
    split
    · exact hinc
    next hz =>
      have hlive : ¬ Dead s t := by
        rintro (hd | hd)
        · exact hz hd
        · exact h t hd c hc ht
      have hset : Keeps s (Sys.setSt { s with rcu := s.rcu.incQs c } t
          (if sleep then .sleeping else .ready)) :=
        hinc.trans (Keeps.setSt hlive (by cases sleep <;> exact ⟨nofun, nofun⟩))
      exact hset.trans (Keeps.switchTo fun n hn hd =>
        not_dead_of_runnable hnext n hn ((hset.dead n).1 hd))

/-- Interrupts and reader sections move nobody. -/
lemma Inv.rcu (h : Inv s) {a : RcuGrace.Act τ} (hstep : rcuStep s a = some s')
    (ha : ∀ t c, a ≠ .run t c ∧ (∀ e, a ≠ .call t c e) ∧ a ≠ .bail t c)
    (hs : ∀ c n, a ≠ .switch c n) : Inv s' := by
  obtain ⟨r, hr, rfl⟩ := map_eq_some_iff.1 hstep
  have hframe : r.running = s.rcu.running ∧ r.ncpu = s.rcu.ncpu ∧ r.pc = s.rcu.pc := by
    cases a with
    | switch c n => exact absurd rfl (hs c n)
    | run t c => exact absurd rfl (ha t c).1
    | call t c e => exact absurd rfl ((ha t c).2.1 e)
    | bail t c => exact absurd rfl (ha t c).2.2
    | note c =>
      obtain ⟨-, hr⟩ := ite_none_right_eq_some.mp hr
      cases hr; exact ⟨rfl, rfl, rfl⟩
    | lock c | unlock c => cases hr; exact ⟨rfl, rfl, rfl⟩
    | ipi c t =>
      obtain ⟨-, hr⟩ := ite_none_right_eq_some.mp hr
      cases hr; split <;> exact ⟨rfl, rfl, rfl⟩
  exact h.keepAll (Keeps.of_eq hframe.2.1 rfl hframe.1) hframe.2.2 rfl

/-- A task sets its state in `sys_exit`. -/
lemma Inv.die (h : Inv s) (hlive : ¬ Dead s t) : Inv ((s.setSt t .zombie).setPc t .link) := by
  have hst : ∀ {d}, d ≠ t → (s.setSt t .zombie).st d = s.st d := fun hd => update_of_ne hd _ _
  have hdead : ∀ d, Dead s d → Dead (s.setSt t .zombie) d := by
    intro d hd
    have hdt : d ≠ t := by rintro rfl; exact hlive hd
    rwa [Dead, hst hdt]
  refine ⟨(forall_update_iff s.pc (Reaping _)).mpr ⟨trivial, fun u hu => ?_⟩, fun d hd c hc => ?_⟩
  · refine (h.reaping u).mono rfl rfl (fun hl hd => hl ?_) hdead fun _ _ _ => id
    change Dead (s.setSt t .zombie) u at hd
    rwa [Dead, hst hu] at hd
  · change update s.st t .zombie d = .freed at hd
    rw [update_apply] at hd
    split at hd
    · nomatch hd
    · exact h.good d hd c hc

lemma Inv.free (h : Inv s) (hlive : ¬ Dead s t) (hdead : Dead s d)
    (hpassed : ∀ c < s.rcu.ncpu, NotOn s d c) : Inv ((s.setSt d .freed).setPc t .other) := by
  have hst : ∀ {x}, x ≠ d → (s.setSt d .freed).st x = s.st x := fun hx => update_of_ne hx _ _
  have hlives : ∀ u, ¬ Dead s u → ¬ Dead (s.setSt d .freed) u := by
    intro u hu
    have hud : u ≠ d := by rintro rfl; exact hu hdead
    rwa [Dead, hst hud]
  have hdeads : ∀ x, Dead s x → Dead (s.setSt d .freed) x := by
    intro x hx
    by_cases hxd : x = d
    · exact .inr (hxd ▸ update_self _ _ _)
    · rwa [Dead, hst hxd]
  refine ⟨(forall_update_iff s.pc (Reaping _)).mpr ⟨hlives t hlive, fun u _ => ?_⟩,
    fun x hx c hc => ?_⟩
  · exact (h.reaping u).mono rfl rfl (hlives u) hdeads fun _ _ _ => id
  · change update s.st d .freed x = .freed at hx
    rw [update_apply] at hx
    split_ifs at hx with hxd
    · exact hxd ▸ hpassed c hc
    · exact h.good x hx c hc

lemma Inv.graceMove (h : Inv s) (hrunning : r.running = s.rcu.running) (hn : r.ncpu = s.rcu.ncpu)
    (hpc : ∀ u ≠ t, r.pc u = s.rcu.pc u) (hp : Reaping { s with rcu := r } t p) :
    Inv (setPc { s with rcu := r } t p) := by
  have hk : Keeps s { s with rcu := r } := Keeps.of_eq hn rfl hrunning
  refine ⟨(forall_update_iff s.pc (Reaping _)).mpr ⟨hp, fun u hu => ?_⟩, hk.good h.good⟩
  exact hk.reaping (h.reaping u) (hpc u hu)

/-- **A task.** -/
lemma Inv.taskRun (h : Inv s) (hex : s.rcu.Executes t c) (hok : Departed s (.run t c next))
    (hrun : taskRun s t c next (s.pc t) = some s') : Inv s' := by
  have hreap := h.reaping t
  generalize hp : s.pc t = pc at hrun hreap
  cases pc with
  | other | gone => nomatch hrun
  | setState =>
    cases hrun
    exact h.die hreap
  | link | yield => cases hrun; exact h.keep
  | signal =>
    cases hrun
    split
    · exact h.keep
    next p _ =>
      exact (h.wake p).keep
  | note =>
    cases hrun
    exact h.keep
  | leave =>
    simp only [TaskExit.taskRun] at hrun
    obtain ⟨hnext, rfl⟩ := ite_some_none_eq_some.mp hrun
    have hk := Keeps.switchTo (c := c) (not_dead_of_runnable hnext)
    exact (h.keepAll hk rfl rfl).keep
  | load d =>
    simp only [TaskExit.taskRun] at hrun
    split_ifs at hrun with hd
    · cases hrun; exact h.keep rfl ⟨hreap, .inl hd.1⟩
    · cases hrun; exact h.keep rfl hreap
  | unlink d =>
    cases hrun
    exact h.keep rfl hreap
  | destroy d =>
    obtain ⟨s1, hcall, rfl⟩ := map_eq_some_iff.1 hrun
    obtain ⟨r, hr, rfl⟩ := map_eq_some_iff.1 hcall
    obtain ⟨-, rfl⟩ := ite_some_none_eq_some.mp hr
    refine h.graceMove rfl rfl (fun u hu => update_of_ne hu _ _) ⟨hreap.1, hreap.2, ?_⟩
    change Passed _ d (update s.rcu.pc t (.snap true 0) t)
    rw [update_self]
    rfl
  | grace d =>
    obtain ⟨hlive, hdead, hpassed⟩ := hreap
    simp only [TaskExit.taskRun] at hrun
    split_ifs at hrun with hidle
    · cases hrun
      rw [hidle] at hpassed
      exact h.free hlive hdead hpassed
    · obtain ⟨r, hr, rfl⟩ := map_eq_some_iff.1 hrun
      simp only [graceStep] at hr
      rw [if_pos hex] at hr
      have htd : t ≠ d := by rintro rfl; exact hlive hdead
      obtain ⟨hrunning, hn, hpc⟩ := graceRun_frame hr
      have hpass : Passed { s with rcu := r } d (r.pc t) :=
        (hpassed.run hp hex htd hok hr).mono hn fun e he => by rw [NotOn, hrunning]; exact he
      have hmove := h.graceMove (p := .grace d) hrunning hn hpc ⟨hlive, hdead, hpass⟩
      have hself : update s.pc t (.grace d) = s.pc := by
        rw [← hp, update_eq_self]
      rwa [Sys.setPc, hself] at hmove

/-- **Every step preserves the invariant.** -/
theorem Inv.step (h : Inv s) {a : Act τ} (hok : Departed s a) (hstep : exitStep s a = some s') :
    Inv s' := by
  cases a with
  | sched c next sleep =>
    obtain ⟨hc, rfl⟩ := ite_some_none_eq_some.mp hstep
    have hframe : (s.doSwitch c next sleep).rcu.pc = s.rcu.pc ∧
        (s.doSwitch c next sleep).pc = s.pc := by
      unfold doSwitch
      split
      · exact ⟨rfl, rfl⟩
      · split <;> exact ⟨rfl, rfl⟩
    exact h.keepAll (Keeps.doSwitch h.good hc.1 hc.2.2.2) hframe.1 hframe.2
  | wake t =>
    cases hstep
    exact h.wake t
  | note c | lock c | unlock c | ipi c t =>
    obtain ⟨-, hstep⟩ := ite_none_right_eq_some.mp hstep
    exact h.rcu hstep (fun _ _ => ⟨nofun, nofun, nofun⟩) nofun
  | exit t c =>
    obtain ⟨hc, rfl⟩ := ite_some_none_eq_some.mp hstep
    have hreap := h.reaping t
    rw [hc.2] at hreap
    exact h.keep rfl hreap
  | wait t d c =>
    obtain ⟨hc, rfl⟩ := ite_some_none_eq_some.mp hstep
    have hreap := h.reaping t
    rw [hc.2.1] at hreap
    exact h.keep rfl hreap
  | run t c next =>
    obtain ⟨hex, hstep⟩ := ite_none_right_eq_some.mp hstep
    exact h.taskRun hex hok hstep

lemma boot_inv (ncpu : ℕ) (parent : τ → Option τ) (running : ℕ → Option τ) (qs : ℕ → BitVec 64)
    (asleep : τ → Bool) : Inv (boot ncpu parent running qs asleep) := by
  have hlive : ∀ t, (boot ncpu parent running qs asleep).st t ≠ .zombie ∧
      (boot ncpu parent running qs asleep).st t ≠ .freed := by
    intro t
    simp only [boot]
    split
    · exact ⟨nofun, nofun⟩
    · split <;> exact ⟨nofun, nofun⟩
  refine ⟨fun t => ?_, fun d hd => absurd hd (hlive d).2⟩
  change ¬ Dead _ t
  rw [Dead, not_or]
  exact hlive t

/-- **The storage of a task is freed only after it has left its last CPU**, in every run in which the
parent does not take a CPU for quiescent while the dying task executes there. -/
theorem storage_outlives (ncpu : ℕ) (parent : τ → Option τ) (running : ℕ → Option τ)
    (qs : ℕ → BitVec 64) (asleep : τ → Bool) (acts : List (Act τ)) {s : Sys τ}
    (hrun : exec exitStep (boot ncpu parent running qs asleep) acts = some s)
    (hok : Meets exitStep Departed (boot ncpu parent running qs asleep) acts) : Good s :=
  (exec_invariant (fun h => h.step) hrun hok
    (boot_inv ncpu parent running qs asleep)).good

/-- Two CPUs: task 0, the child of task 1, runs on CPU 0 and task 1 on CPU 1. -/
def family : Sys (Fin 2) :=
  boot 2 (fun t => if t = 0 then some 1 else none)
    (fun c => if c = 0 then some 0 else if c = 1 then some 1 else none) (fun _ => 0) (fun _ => false)

/-- `sys_wait` of task 1 for task 0, up to the interrupt for CPU 0. -/
def reapUntilIpi : List (Act (Fin 2)) :=
  .wait 1 0 1 :: replicate 10 (.run 1 1 none)

/-- Task 0 exits and leaves CPU 0; then task 1 reaps it. -/
def exitThenReap : List (Act (Fin 2)) := flatten
  [.exit 0 0 :: replicate 6 (.run 0 0 none), reapUntilIpi, [.ipi 0 1],
    replicate 7 (.run 1 1 none)]

theorem storage_outlives_exitThenReap :
    ∃ s, exec exitStep family exitThenReap = some s ∧ s.st 0 = .freed ∧ Good s := by
  have hok : Meets exitStep Departed family exitThenReap := by decide +kernel
  exact exists_run fun _ hrun _ =>
    storage_outlives _ _ _ _ _ exitThenReap hrun hok

/-- Task 0 has set its state in `sys_exit`; task 1 finds it, and the interrupt of its grace period
comes to CPU 0 while task 0 executes there. -/
def reapTooEarly : List (Act (Fin 2)) := flatten
  [[.exit 0 0, .run 0 0 none], reapUntilIpi, [.ipi 0 1], replicate 7 (.run 1 1 none)]

/-- The storage of a task is freed while it executes. -/
theorem freed_while_running : ∃ s, exec exitStep family reapTooEarly = some s ∧
      s.st 0 = .freed ∧ s.rcu.running 0 = some 0 :=
  exists_of_any _ _ _ _

end Makaos.TaskExit
