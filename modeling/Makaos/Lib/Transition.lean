import Mathlib.Tactic

/-!
Runs of a machine given by a partial step function: `step s a` is the state after action `a`, or
`none` if the action is not possible in `s`.

* `exec`: a run, the list of its actions.
* `Meets`: every action of a run meets a condition in the state it is taken in.
* `exec_invariant`: **what every step preserves holds at the end of every run.**
* `run`, `run_invariant`: the same for a machine that can take every action.
* `update_cases`: what one of many agents has after the step of one of them.
-/

namespace Makaos.Transition

variable {σ α : Type*} {step : σ → α → Option σ} {ok : σ → α → Prop} {s s' : σ} {as : List α}

-- constants, so that a literal that names one of a few agents is the same term in every module
instance neZero_one : NeZero 1 := ⟨by decide⟩

instance neZero_two : NeZero 2 := ⟨by decide⟩

instance neZero_three : NeZero 3 := ⟨by decide⟩

/-- The state at the end of a run. -/
def exec (step : σ → α → Option σ) : σ → List α → Option σ
  | s, [] => some s
  | s, a :: as =>
    match step s a with
    | none => none
    | some s' => exec step s' as

/-- Every action of the run meets `ok` in the state it is taken in. -/
def Meets (step : σ → α → Option σ) (ok : σ → α → Prop) : σ → List α → Prop
  | _, [] => True
  | s, a :: as =>
    ok s a ∧
      match step s a with
      | none => True
      | some s' => Meets step ok s' as

/-- Whether a run meets a decidable condition can be computed. -/
def decMeets (step : σ → α → Option σ) (ok : σ → α → Prop) [∀ s a, Decidable (ok s a)] :
    (s : σ) → (as : List α) → Decidable (Meets step ok s as)
  | _, [] => inferInstanceAs (Decidable True)
  | s, a :: as =>
    have : Decidable (match step s a with
        | none => True
        | some s' => Meets step ok s' as) :=
      match step s a with
      | none => inferInstanceAs (Decidable True)
      | some s' => decMeets step ok s' as
    inferInstanceAs (Decidable (_ ∧ _))

instance [∀ s a, Decidable (ok s a)] : Decidable (Meets step ok s as) := decMeets step ok s as

lemma exec_cons {a : α} (h : exec step s (a :: as) = some s') :
    ∃ s1, step s a = some s1 ∧ exec step s1 as = some s' := by
  simp only [exec] at h
  cases hs : step s a with
  | none => simp [hs] at h
  | some s1 => exact ⟨s1, rfl, by simpa [hs] using h⟩

lemma exec_of_step {a : α} {s1 : σ} (h : step s a = some s1) :
    exec step s (a :: as) = exec step s1 as := by
  simp only [exec, h]

lemma exec_append (s : σ) (as bs : List α) :
    exec step s (as ++ bs) = (exec step s as).bind fun s1 => exec step s1 bs := by
  induction as generalizing s with
  | nil => rfl
  | cons a as ih =>
    simp only [List.cons_append, exec]
    cases step s a with
    | none => rfl
    | some s1 => exact ih s1

/-- A property of the end of a run that can be computed. -/
lemma exists_of_any (step : σ → α → Option σ) (s : σ) (as : List α) (P : σ → Prop) [DecidablePred P]
    (h : (exec step s as).any (fun s' => decide (P s')) = true := by decide +kernel) :
    ∃ s', exec step s as = some s' ∧ P s' := by
  cases he : exec step s as with
  | none => simp [he] at h
  | some s' => exact ⟨s', rfl, by simpa [he] using h⟩

/-- A property that follows for the run from one that can be computed. -/
lemma exists_of_run (P : σ → Prop) {Q : σ → Prop} [DecidablePred P]
    (hQ : ∀ s', exec step s as = some s' → P s' → Q s')
    (h : (exec step s as).any (fun s' => decide (P s')) = true := by decide +kernel) :
    ∃ s', exec step s as = some s' ∧ Q s' := by
  obtain ⟨s', hrun, hp⟩ := exists_of_any step s as P h
  exact ⟨s', hrun, hQ s' hrun hp⟩

lemma exists_run {P Q : σ → Prop} [DecidablePred P]
    (hQ : ∀ s', exec step s as = some s' → P s' → Q s')
    (h : (exec step s as).any (fun s' => decide (P s')) = true := by decide +kernel) :
    ∃ s', exec step s as = some s' ∧ P s' ∧ Q s' :=
  exists_of_run P (fun s' hrun hp => ⟨hp, hQ s' hrun hp⟩) h

/-- **What every step preserves holds at the end of every run.** -/
theorem exec_invariant {I : σ → Prop} (hstep : ∀ {s a s'}, I s → ok s a → step s a = some s' → I s')
    (hrun : exec step s as = some s') (hok : Meets step ok s as) (h0 : I s) : I s' := by
  induction as generalizing s with
  | nil =>
    obtain rfl : s = s' := Option.some.inj hrun
    exact h0
  | cons a as ih =>
    obtain ⟨s1, hs, hrest⟩ := exec_cons hrun
    obtain ⟨ha, hmeets⟩ := hok
    rw [hs] at hmeets
    exact ih hrest hmeets (hstep h0 ha hs)

/-- A condition on the actions alone may be added. -/
lemma meets_and {P : α → Prop} (h : Meets step ok s as) (hP : ∀ a ∈ as, P a) :
    Meets step (fun s a => ok s a ∧ P a) s as := by
  induction as generalizing s with
  | nil => trivial
  | cons a as ih =>
    obtain ⟨ha, hrest⟩ := h
    refine ⟨⟨ha, hP a List.mem_cons_self⟩, ?_⟩
    cases hs : step s a with
    | none => trivial
    | some s1 =>
      rw [hs] at hrest
      exact ih hrest fun b hb => hP b (List.mem_cons_of_mem _ hb)

lemma meets_true (s : σ) (as : List α) : Meets step (fun _ _ => True) s as := by
  induction as generalizing s with
  | nil => trivial
  | cons a as ih =>
    refine ⟨trivial, ?_⟩
    cases step s a with
    | none => trivial
    | some s1 => exact ih s1

/-! ### Machines that can take every action in every state -/

section Total

variable {step : σ → α → σ}

/-- The state at the end of a run. -/
def run (step : σ → α → σ) (s : σ) (as : List α) : σ := as.foldl step s

/-- Every action of the run meets `ok` in the state it is taken in. -/
abbrev RunMeets (step : σ → α → σ) (ok : σ → α → Prop) : σ → List α → Prop :=
  Meets (fun s a => some (step s a)) ok

lemma exec_some (step : σ → α → σ) (s : σ) (as : List α) :
    exec (fun s a => some (step s a)) s as = some (run step s as) := by
  induction as generalizing s with
  | nil => rfl
  | cons a as ih => exact ih (step s a)

theorem run_invariant {I : σ → Prop} (hstep : ∀ s a, I s → ok s a → I (step s a))
    (hok : RunMeets step ok s as) (h0 : I s) : I (run step s as) := by
  refine exec_invariant (fun hs ha h => ?_) (exec_some step s as) hok h0
  cases h
  exact hstep _ _ hs ha

lemma RunMeets.concat {a : α} (h : RunMeets step ok s as) (ha : ok (run step s as) a) :
    RunMeets step ok s (as ++ [a]) := by
  induction as generalizing s with
  | nil => exact ⟨ha, trivial⟩
  | cons b as ih => exact ⟨h.1, ih h.2 ha⟩

end Total

/-- After an update at `i` a value is the new one, at `i`, or an old one, elsewhere. -/
lemma update_cases {ι β : Type*} [DecidableEq ι] {f : ι → β} {i j : ι} {b x : β}
    (h : Function.update f i b j = x) : j = i ∧ b = x ∨ j ≠ i ∧ f j = x := by
  by_cases hj : j = i
  · subst hj
    exact .inl ⟨rfl, by rwa [Function.update_self] at h⟩
  · exact .inr ⟨hj, by rwa [Function.update_of_ne hj] at h⟩

lemma of_update {ι β : Type*} [DecidableEq ι] {f : ι → β} {i j : ι} {b x : β}
    (h : Function.update f i b j = x) (hb : b ≠ x) : f j = x :=
  (update_cases h).elim (fun e => absurd e.2 hb) And.right

end Makaos.Transition
