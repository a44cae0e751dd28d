import Makaos.Proc.RcuGrace

/-!
A grace period waits for the reader sections that had begun before it.

* `Knows`: what a caller knows at each position.
* `Inv.step`: every step preserves it, as long as increments are made on the CPU that was read.
* `grace_period`: **no call returns early**; `grace_period_early` is the run in which the caller of
  `rcu_note_qs` is moved between reading its CPU and the increment.
-/

namespace Makaos.RcuGrace

open Function Transition RcuGrace Option List
variable {τ : Type*} [DecidableEq τ]
variable {s s' : Sys τ} {t : τ} {c : ℕ}

/-- Since the snapshot of CPU `c` its counter has not changed, or no old section is open there. -/
def Seen (s : Sys τ) (t : τ) (c : ℕ) : Prop := s.qs c = s.snapshot t c ∨ s.Clear t c

/-- What is known at the call of `rcu_note_qs`. -/
def Then.Knows (s : Sys τ) (t : τ) : Then → Prop
  | .bail => True
  | .classic | .expedited => ∀ c < s.ncpu, Seen s t c
  | .callback me _ => (∀ c < s.ncpu, Seen s t c) ∧ s.Clear t me

/-- What is known at a position. -/
def Knows (s : Sys τ) (t : τ) : Pc → Prop
  | .idle => True
  | .snap _ i => ∀ c < i, Seen s t c
  | .note k | .inc _ k => k.Knows s t
  | .me => ∀ c < s.ncpu, Seen s t c
  | .ipi me _ | .ipiWait me _ | .depthOf me _ | .depth me _ _ =>
    (∀ c < s.ncpu, Seen s t c) ∧ s.Clear t me
  | .wait me i => (∀ c < s.ncpu, Seen s t c) ∧ (∀ c ∈ me, s.Clear t c) ∧ ∀ c < i, s.Clear t c

/-- What holds in every state. -/
structure Inv (s : Sys τ) : Prop where
  start : ∀ t, s.start t ≤ s.clock
  knows : ∀ t, Knows s t (s.pc t)
  early : s.early = false

omit [DecidableEq τ] in
/-- What is known stays true when no old section is opened, and a counter changes only on a CPU
without sections. -/
lemma Knows.mono {p : Pc} (h : Knows s t p)
    (hseen : ∀ c, Seen s t c → Seen s' t c := by exact fun _ => id)
    (hclear : ∀ c, s.Clear t c → s'.Clear t c := by exact fun _ => id)
    (hn : s'.ncpu = s.ncpu := by rfl) : Knows s' t p := by
  have hall : (∀ c < s.ncpu, Seen s t c) → ∀ c < s'.ncpu, Seen s' t c :=
    fun h c hc => hseen c (h c (hn ▸ hc))
  have hthen : ∀ {k : Then}, k.Knows s t → k.Knows s' t := by
    intro k hk
    cases k with
    | bail => trivial
    | classic | expedited => exact hall hk
    | callback me i => exact ⟨hall hk.1, hclear _ hk.2⟩
  cases p with
  | idle => trivial
  | snap exp i => exact fun c hc => hseen c (h c hc)
  | note k | inc c k => exact hthen h
  | me => exact hall h
  | ipi me i | ipiWait me i | depthOf me i | depth me i c => exact ⟨hall h.1, hclear _ h.2⟩
  | wait me i => exact ⟨hall h.1, fun c hc => hclear c (h.2.1 c hc), fun c hc => hclear c (h.2.2 c hc)⟩

lemma Inv.setPc (h : Inv s) {p : Pc} (hp : Knows s t p) : Inv (s.setPc t p) := by
  have hsame : ∀ {u q}, Knows s u q → Knows (s.setPc t p) u q :=
    fun hq => hq.mono
  exact ⟨h.start, (forall_update_iff s.pc (Knows _)).mpr ⟨hsame hp, fun u _ => hsame (h.knows u)⟩,
    h.early⟩

omit [DecidableEq τ] in
lemma Inv.incQs (h : Inv s) (hc : s.sections c = []) : Inv (s.incQs c) := by
  refine ⟨h.start, fun t => (h.knows t).mono fun d hd => ?_, h.early⟩
  by_cases hdc : d = c
  · subst hdc
    refine .inr fun x hx => ?_
    change x ∈ s.sections d at hx
    rw [hc] at hx
    nomatch hx
  · refine hd.imp_left fun e => ?_
    exact (update_of_ne hdc _ _).trans e

omit [DecidableEq τ] in
lemma clear_of_executes (h : s.Executes t c) (u : τ) : s.Clear u c := by
  intro x hx
  rw [h.2.2] at hx
  nomatch hx

omit [DecidableEq τ] in
lemma Then.knows_next {k : Then} (h : k.Knows s t) : RcuGrace.Knows s t k.next := by
  cases k with
  | bail => trivial
  | classic => exact ⟨h, nofun, nofun⟩
  | expedited => exact h
  | callback me i => exact h

lemma Inv.snap (h : Inv s) {exp : Bool} {i : ℕ} (hkn : ∀ c < i, Seen s t c) :
    Inv ({ s with
      snapshot := update s.snapshot t (update (s.snapshot t) i (s.qs i))
      }.setPc t (.snap exp (i + 1))) := by
  refine ⟨h.start, (forall_update_iff s.pc (Knows _)).mpr ⟨fun c hc => ?_, fun u hu => ?_⟩, h.early⟩
  · change s.qs c = update s.snapshot t (update (s.snapshot t) i (s.qs i)) t c ∨ _
    rw [update_self]
    obtain hc | rfl := Nat.lt_succ_iff_lt_or_eq.1 hc
    · rw [update_of_ne hc.ne]
      exact hkn c hc
    · exact .inl (update_self c (s.qs c) (s.snapshot t)).symm
  · refine (h.knows u).mono fun c hc => hc.imp_left fun e => e.trans ?_
    exact congrFun (update_of_ne hu _ _).symm c

/-- **A caller.** -/
lemma Inv.graceRun (h : Inv s) (hex : s.Executes t c) (hok : Local s (.run t c))
    (hrun : graceRun s t c (s.pc t) = some s') : Inv s' := by
  have hkn := h.knows t
  have hclear := clear_of_executes hex t
  generalize hp : s.pc t = pc at hrun hkn
  cases pc with
  | idle => nomatch hrun
  | snap exp i =>
    simp only [RcuGrace.graceRun] at hrun
    split at hrun
    next hi => cases hrun; exact h.snap hkn
    next hi =>
      cases hrun
      have hall : ∀ c < s.ncpu, Seen s t c := fun c hc => hkn c (by omega)
      refine h.setPc ?_
      cases exp <;> exact hall
  | note k | depthOf me i => cases hrun; exact h.setPc hkn
  | inc d k =>
    simp only [Local, hp] at hok
    subst hok
    cases hrun
    have h' := h.incQs hex.2.2
    have hk' := h'.knows t
    rw [show (s.incQs d).pc t = _ from hp] at hk'
    exact h'.setPc (Then.knows_next hk')
  | me => cases hrun; exact h.setPc ⟨hkn, hclear⟩
  | ipi me i =>
    simp only [RcuGrace.graceRun] at hrun
    split at hrun
    · split at hrun
      · cases hrun; exact h.setPc hkn
      · split at hrun
        · cases hrun; exact h.setPc hkn
        · cases hrun
          have h' : Inv { s with slot := update s.slot t (some i) } :=
            ⟨h.start, fun u => (h.knows u).mono, h.early⟩
          exact h'.setPc hkn
    · cases hrun
      refine h.setPc ⟨hkn.1, ?_, nofun⟩
      rintro _ ⟨⟩
      exact hkn.2
  | ipiWait me i =>
    simp only [RcuGrace.graceRun] at hrun
    obtain ⟨-, hrun⟩ := Option.ite_none_right_eq_some.mp hrun
    cases hrun; exact h.setPc hkn
  | depth me i d =>
    simp only [RcuGrace.graceRun] at hrun
    split at hrun <;> cases hrun <;> exact h.setPc hkn
  | wait me i =>
    obtain ⟨hseen, hme, hbelow⟩ := hkn
    simp only [RcuGrace.graceRun] at hrun
    split at hrun
    next hi =>
      obtain ⟨hpass, rfl⟩ := ite_some_none_eq_some.mp hrun
      refine h.setPc ⟨hseen, hme, fun d hd => ?_⟩
      obtain hd | rfl := Nat.lt_succ_iff_lt_or_eq.1 hd
      · exact hbelow d hd
      · obtain hd | hd := hpass
        · cases me with
          | none => exact hd ▸ hclear
          | some m => exact hd ▸ hme m rfl
        · exact (hseen d hi).resolve_left hd
    next hi =>
      cases hrun
      have hall : ∀ c < s.ncpu, s.Clear t c := fun c hc => hbelow c (by omega)
      have h' : Inv { s with
          returns := s.returns + 1
          early := s.early || !decide (∀ c < s.ncpu, s.Clear t c) } :=
        ⟨h.start, fun u => (h.knows u).mono, by
          simpa [h.early] using hall⟩
      exact h'.setPc trivial

/-- **Every step preserves the invariant.** -/
theorem Inv.step (h : Inv s) {a : Act τ} (hok : Local s a) (hstep : graceStep s a = some s') :
    Inv s' := by
  have hframe : ∀ {r : Sys τ}, Inv r → ∀ {run : ℕ → Option τ} {slot : τ → Option ℕ},
      Inv { r with running := run, slot := slot } := fun hr _ _ =>
    ⟨hr.start, fun u => (hr.knows u).mono, hr.early⟩
  cases a with
  | switch c next =>
    obtain ⟨hc, hstep⟩ := ite_none_right_eq_some.mp hstep
    cases hstep; exact hframe (h.incQs hc.2.1)
  | note c =>
    obtain ⟨hc, hstep⟩ := ite_none_right_eq_some.mp hstep
    cases hstep; exact h.incQs hc.2
  | lock c =>
    cases hstep
    -- a new section is newer than every call
    have hclear : ∀ t d, s.Clear t d → Sys.Clear { s with
        sections := update s.sections c (s.clock :: s.sections c)
        clock := s.clock + 1 } t d := by
      intro t d hd x hx
      change x ∈ update s.sections c (s.clock :: s.sections c) d at hx
      rw [update_apply] at hx
      split_ifs at hx with hdc
      · obtain rfl | hx := mem_cons.1 hx
        · exact h.start t
        · exact hd x (hdc ▸ hx)
      · exact hd x hx
    exact ⟨fun t => (h.start t).trans (Nat.le_succ _), fun t =>
      (h.knows t).mono (fun d hd => hd.imp_right (hclear t d)) (hclear t), h.early⟩
  | unlock c =>
    cases hstep
    have hclear : ∀ t d, s.Clear t d → Sys.Clear { s with
        sections := update s.sections c (s.sections c).tail } t d := by
      intro t d hd x hx
      change x ∈ update s.sections c (s.sections c).tail d at hx
      rw [update_apply] at hx
      split_ifs at hx with hdc
      · exact hd x (hdc ▸ mem_of_mem_tail hx)
      · exact hd x hx
    exact ⟨h.start, fun t => (h.knows t).mono (fun d hd => hd.imp_right (hclear t d)) (hclear t),
      h.early⟩
  | ipi c t =>
    obtain ⟨-, rfl⟩ := ite_some_none_eq_some.mp hstep
    split_ifs with hc
    · exact hframe (h.incQs (length_eq_zero_iff.1 hc))
    · exact hframe h
  | call t c exp =>
    obtain ⟨hc, rfl⟩ := ite_some_none_eq_some.mp hstep
    refine ⟨?_, (forall_update_iff s.pc (Knows _)).mpr ⟨nofun, fun u hu => ?_⟩, h.early⟩
    · exact (forall_update_iff s.start fun _ x => x ≤ s.clock).mpr ⟨le_rfl, fun u _ => h.start u⟩
    · have hclear : ∀ d, s.Clear u d → Sys.Clear ({ s with
          start := update s.start t s.clock }.setPc t (.snap exp 0)) u d := by
        intro d hd x hx
        change update s.start t s.clock u ≤ x
        rw [update_of_ne hu]
        exact hd x hx
      exact (h.knows u).mono (fun d hd => hd.imp_right (hclear d)) hclear
  | bail t c =>
    obtain ⟨-, hstep⟩ := ite_none_right_eq_some.mp hstep
    cases hstep; exact h.setPc trivial
  | run t c =>
    obtain ⟨hex, hstep⟩ := ite_none_right_eq_some.mp hstep
    exact h.graceRun hex hok hstep

omit [DecidableEq τ] in
lemma boot_inv (ncpu : ℕ) (running : ℕ → Option τ) (qs : ℕ → BitVec 64) :
    Inv (boot ncpu running qs) :=
  ⟨fun _ => le_rfl, fun _ => trivial, rfl⟩

/-- **A grace period waits for every reader section that had begun before it**, in every run in which
each increment of a counter is made on the CPU that was read. -/
theorem grace_period (ncpu : ℕ) (running : ℕ → Option τ) (qs : ℕ → BitVec 64) (acts : List (Act τ))
    {s : Sys τ} (hrun : exec graceStep (boot ncpu running qs) acts = some s)
    (hok : Meets graceStep Local (boot ncpu running qs) acts) : s.early = false :=
  (exec_invariant (fun h => h.step) hrun hok
    (boot_inv ncpu running qs)).early

/-- Two CPUs; task 0 runs on CPU 0 and task 1 on CPU 1. -/
def two : Sys (Fin 3) := boot 2 (fun c => if c = 0 then some 0 else some 1) (fun _ => 0)

/-- Task 0 reads on CPU 0 while task 1 waits for a grace period; it ends, and task 1 returns. -/
def readThenWait : List (Act (Fin 3)) := flatten
  [[.lock 0, .call 1 1 false], replicate 5 (.run 1 1), [.unlock 0, .note 0],
    replicate 3 (.run 1 1)]

theorem grace_period_readThenWait :
    ∃ s, exec graceStep two readThenWait = some s ∧ s.returns = 1 ∧ s.early = false := by
  have hok : Meets graceStep Local two readThenWait := by decide +kernel
  exact exists_run fun _ hrun _ => grace_period _ _ _ readThenWait hrun hok

/-- Task 0 has read in `rcu_note_qs` that it runs on CPU 0 when it is switched out. A reader begins
there, and then task 1 calls `synchronize_rcu` on CPU 1. Task 0 goes on on CPU 1 and increments the
counter of CPU 0, and task 1 takes it for a quiescent state. -/
def movedInNote : List (Act (Fin 3)) := flatten
  [[.call 0 0 false], replicate 4 (.run 0 0), [.switch 0 (some 2), .lock 0, .call 1 1 false],
    replicate 5 (.run 1 1), [.switch 1 (some 0), .run 0 1, .switch 1 (some 1)],
    replicate 3 (.run 1 1)]

/-- A call returns while a reader section that had begun before it is open. -/
theorem grace_period_early : ∃ s, exec graceStep two movedInNote = some s ∧ s.early = true :=
  exists_of_any _ _ _ _

end Makaos.RcuGrace
