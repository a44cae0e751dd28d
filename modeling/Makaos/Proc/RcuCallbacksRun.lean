import Makaos.Proc.RcuCallbacks

/-!
Every deferred callback is invoked once, and when `rcu_barrier` can be relied on.

* `future_push`, `Inv.invoke`: **a push inserts into the order in which callbacks come out, and an
  invocation takes the first.**
* `Inv`: what holds in every state.
* `callbacks_run`: what holds in every run in which the last push of each `rcu_barrier` comes out
  after everything queued before the call; `barrier_early` is a run where it does not.
-/

namespace Makaos.RcuCallbacks

open Function Transition Option Nat
open List hiding chains
open StackRow

variable {ι : Type*} [DecidableEq ι]
variable {s s' : Sys ι} {i : ι}

/-! ### The order -/

omit [DecidableEq ι] in
/-- **A push inserts into the order**, behind what is ahead of its CPU. -/
lemma future_push {c : ℕ} (hc : c < s.ncpu) (hgp : s.detached ≤ s.ncpu) (who : Option ι) :
    ∃ l r, future s = l ++ r ∧ future (s.push c who) = l ++ s.queued.length :: r ∧
      ∀ o, Ahead s c o → o ∈ l := by
  have hpush : future (s.push c who) =
      chains (update s.pending c (s.queued.length :: s.pending c)) s.detached
        (s.ncpu - s.detached) ++ s.collected ++
      chains (update s.pending c (s.queued.length :: s.pending c)) 0 s.detached := rfl
  rw [hpush, future]
  by_cases hci : c < s.detached
  · -- detached already: for the next pass
    refine ⟨chains s.pending s.detached (s.ncpu - s.detached) ++ s.collected ++
      chains s.pending (c + 1) (s.detached - (c + 1)), s.pending c ++ chains s.pending 0 c,
      ?_, ?_, fun o ho => ?_⟩
    · rw [chains_eq_append (i := 0) (zero_le c) (by omega : c < 0 + s.detached)]
      simp
    · rw [chains_update_of_not_mem (.inl hci),
        chains_update (i := 0) _ (zero_le c) (by omega : c < 0 + s.detached)]
      simp
    · simp only [mem_append, mem_chains]
      obtain ⟨d, hd, hcd, ho⟩ | ⟨ho, -⟩ := ho
      · by_cases hdi : d < s.detached
        · exact .inr ⟨d, by omega, by omega, ho⟩
        · exact .inl (.inl ⟨d, by omega, by omega, ho⟩)
      · exact .inl (.inr ho)
  · refine ⟨chains s.pending (c + 1) (s.ncpu - (c + 1)), s.pending c ++
      chains s.pending s.detached (c - s.detached) ++ s.collected ++ chains s.pending 0 s.detached,
      ?_, ?_, fun o ho => ?_⟩
    · rw [chains_eq_append (c := c) (by omega) (by omega : c < s.detached + (s.ncpu - s.detached)),
        Nat.add_sub_cancel' hgp]
      simp
    · rw [chains_update_of_not_mem (i := 0) (.inr (by omega)),
        chains_update (c := c) _ (by omega) (by omega : c < s.detached + (s.ncpu - s.detached)),
        Nat.add_sub_cancel' hgp]
      simp
    · obtain ⟨d, hd, hcd, ho⟩ | ⟨-, hpass⟩ := ho
      · exact mem_chains.2 ⟨d, hcd, by omega, ho⟩
      · exact absurd hpass hci

omit [DecidableEq ι] in
/-- Between two passes nothing is collected, and all lists are for the next pass. -/
lemma future_nextPass (hgp : s.detached = s.ncpu) (hnil : s.collected = []) :
    future s.nextPass = future s := by
  rw [future, future, hgp]
  change chains s.pending 0 (s.ncpu - 0) ++ s.collected ++ chains s.pending 0 0 = _
  simp [hnil, chains]

/-! ### The invariant -/

/-- How many callbacks of the barrier of `i` have not been invoked. -/
def owed (s : Sys ι) (i : ι) : ℕ := (future s).countP fun h => s.owner h = some i

/-- What a position says about a barrier. -/
def Stage (s : Sys ι) (i : ι) : Pc → Prop
  | .idle => owed s i = 0
  | .load c .user | .cas c _ .user => c < s.ncpu ∧ owed s i = 0
  | .load c (.barrier k) | .cas c _ (.barrier k) => c < s.ncpu ∧ k < s.ncpu ∧ owed s i + s.done i = k
  | .between k => k < s.ncpu ∧ owed s i + s.done i = k
  | .waiting => owed s i + s.done i = s.ncpu ∧ s.owner (s.last i) = some i ∧
      (s.last i ∈ s.invoked ∨ s.last i ∈ future s) ∧
      ∀ o ∈ s.before i, o ∈ s.invoked ∨ Before (future s) o (s.last i)

/-- Which steps the current pass has made. -/
def Ticked (s : Sys ι) : GpPc → Prop
  | .collect i => i ≤ s.ncpu ∧ s.ticks = i
  | .sync => s.ticks = s.ncpu + 1
  | .invoke => s.ticks + s.collected.length ≤ s.ncpu + 2 + s.queued.length

/-- What holds in every state. -/
structure Inv (s : Sys ι) : Prop where
  perm : s.queued.Perm (s.invoked ++ future s)
  nodup : s.queued.Nodup
  lt : ∀ o ∈ s.queued, o < s.queued.length
  age : ∀ o ∈ future s, s.passes ≤ s.queuedAt o + 1
  fresh : ∀ c < s.detached, ∀ o ∈ s.pending c, s.queuedAt o = s.passes
  ticked : Ticked s s.gp
  stage : ∀ i, Stage s i (s.pc i)
  returned : ∀ l ∈ s.returned, ∀ o ∈ l, o ∈ s.invoked
  noCpu : s.ncpu = 0 → s.queued = []

lemma Inv.detached_le (h : Inv s) : s.detached ≤ s.ncpu := by
  have := h.ticked
  unfold Sys.detached
  split
  case h_1 i hg => rw [hg] at this; exact this.1
  case h_2 | h_3 => exact le_rfl

lemma Inv.good (h : Inv s) : Good s where
  barrier := h.returned
  once := by
    have hnodup := h.perm.nodup_iff.1 h.nodup
    exact ⟨(nodup_append.1 hnodup).1, fun o ho => h.perm.mem_iff.2 (mem_append_left _ ho)⟩
  invoked o ho hpass := by
    obtain ho | ho := mem_append.1 (h.perm.mem_iff.1 ho)
    · exact ho
    · have := h.age o ho
      omega
  passEnds := by
    have := h.ticked
    revert this
    cases s.gp with
    | collect i => rintro ⟨hi, ht⟩; omega
    | sync => intro ht; change s.ticks = _ at ht; omega
    | invoke => intro ht; change _ ≤ _ at ht; omega

lemma boot_inv (ncpu : ℕ) : Inv (boot ncpu : Sys ι) := by
  have hnil : ∀ i m, chains (fun _ => ([] : List ℕ)) i m = [] := by
    intro i m
    induction m with
    | zero => rfl
    | succ m ih => rw [chains, ih]; rfl
  have hfuture : future (boot ncpu : Sys ι) = [] := by
    rw [future]
    simp [boot, hnil]
  constructor
  case perm => rw [hfuture]; exact List.Perm.refl _
  case nodup => exact nodup_nil
  case lt | fresh | returned => rintro _ ⟨⟩
  case age => rw [hfuture]; simp
  case ticked => exact ⟨zero_le _, rfl⟩
  case stage =>
    intro i
    change owed _ i = 0
    rw [owed, hfuture]
    rfl
  case noCpu => exact fun _ => rfl

lemma Inv.setPc (h : Inv s) {p : Pc} (hp : Stage s i p) : Inv (s.setPc i p) :=
  { h with stage := (forall_update_iff s.pc (Stage s)).mpr ⟨hp, fun j _ => h.stage j⟩ }

/-- What a position says stays true when callbacks are invoked and others are queued. -/
lemma Stage.congr {j : ι} {p : Pc} (h : Stage s j p) (hn : s'.ncpu = s.ncpu)
    (howed : owed s' j ≤ owed s j) (hsum : owed s' j + s'.done j = owed s j + s.done j)
    (hlast : s'.last j = s.last j)
    (howner : p = .waiting → s'.owner (s.last j) = s.owner (s.last j))
    (hbefore : s'.before j = s.before j)
    (hmem : s.last j ∈ s.invoked ∨ s.last j ∈ future s → s.last j ∈ s'.invoked ∨ s.last j ∈ future s')
    (horder : ∀ o, o ∈ s.invoked ∨ Before (future s) o (s.last j) →
      o ∈ s'.invoked ∨ Before (future s') o (s.last j)) :
    Stage s' j p := by
  have hzero : owed s j = 0 → owed s' j = 0 := fun e => by omega
  cases p with
  | idle => exact hzero h
  | load c job | cas c old job =>
    cases job with
    | user => exact ⟨hn ▸ h.1, hzero h.2⟩
    | barrier k => simpa only [Stage, hn, hsum] using h
  | between k => simpa only [Stage, hn, hsum] using h
  | waiting =>
    obtain ⟨hcount, hown, hlas, hord⟩ := h
    refine ⟨by rw [hsum, hn, hcount], ?_, ?_, ?_⟩
    · rw [hlast, howner rfl, hown]
    · rw [hlast]; exact hmem hlas
    · rw [hbefore, hlast]; exact fun o ho => horder o (hord o ho)

/-! ### The grace-period thread -/

omit [DecidableEq ι] in
lemma future_detach {i : ℕ} (hg : s.gp = .collect i) (hi : i < s.ncpu) (t : ℕ) :
    future { s with
      pending := update s.pending i []
      collected := s.pending i ++ s.collected
      gp := .collect (i + 1)
      ticks := t } = future s := by
  have hd : s.detached = i := by simp only [Sys.detached, hg]
  obtain ⟨m, hm⟩ : ∃ m, s.ncpu - i = m + 1 := ⟨s.ncpu - i - 1, by omega⟩
  rw [future, future, hd]
  change chains (update s.pending i []) (i + 1) (s.ncpu - (i + 1)) ++ (s.pending i ++ s.collected)
    ++ chains (update s.pending i []) 0 (i + 1) = _
  rw [chains_update_of_not_mem (.inl (lt_succ_self i)), chains, zero_add, update_self,
    chains_update_of_not_mem (.inr (by omega)), hm, chains_succ, show s.ncpu - (i + 1) = m by omega]
  simp

lemma Inv.quiet (h : Inv s) {pend : ℕ → List ℕ} {col : List ℕ} {g : GpPc} {n m : ℕ} :
    let s' := { s with pending := pend, collected := col, gp := g, passes := n, ticks := m }
    future s' = future s → (∀ o ∈ future s, n ≤ s.queuedAt o + 1) →
    (∀ c < s'.detached, ∀ o ∈ pend c, s.queuedAt o = n) → Ticked s' g → Inv s' := by
  intro s' hfuture hage hfresh hticked
  constructor
  case perm => rw [hfuture]; exact h.perm
  case nodup => exact h.nodup
  case lt => exact h.lt
  case age => rw [hfuture]; exact hage
  case fresh => exact hfresh
  case ticked => exact hticked
  case stage =>
    intro i
    have howed : owed s' i = owed s i := by rw [owed, owed, hfuture]
    refine (h.stage i).congr rfl howed.le (by rw [howed]) rfl (fun _ => rfl) rfl ?_ ?_ <;> rw [hfuture]
    · exact id
    · exact fun _ => id
  case returned => exact h.returned
  case noCpu => exact h.noCpu

lemma Inv.nextPass (h : Inv s) (hgp : s.detached = s.ncpu) (hnil : s.collected = []) :
    Inv s.nextPass := by
  refine h.quiet (future_nextPass hgp hnil) (fun o ho => ?_) nofun ⟨zero_le _, rfl⟩
  -- what is left was queued in the pass that ends
  rw [future, hgp, hnil, Nat.sub_self] at ho
  obtain ⟨c, -, hc, ho⟩ := mem_chains.1 (by simpa [chains] using ho)
  have := h.fresh c (by omega) o ho
  change s.passes + 1 ≤ _
  omega

lemma Inv.invoke {s : Sys ι} (h : Inv s) {o : ℕ} {rest : List ℕ} (hg : s.gp = .invoke)
    (hcol : s.collected = o :: rest) :
    let s' := { s with
      collected := rest
      invoked := o :: s.invoked
      ticks := s.ticks + 1
      done := match s.owner o with
        | none => s.done
        | some i => update s.done i (s.done i + 1) }
    Inv s' := by
  intro s'
  have hfuture : future s = o :: future s' := by
    have hd : s.detached = s.ncpu := by simp only [Sys.detached, hg]
    have hd' : s'.detached = s.ncpu := hd
    rw [future, future, hd, hd', hcol, Nat.sub_self]
    rfl
  have hinvoked : s'.invoked = o :: s.invoked := rfl
  have hqueued : s'.queued = s.queued := rfl
  have howner : s'.owner = s.owner := rfl
  have hat : s'.queuedAt = s.queuedAt := rfl
  have howed : ∀ j, owed s j = owed s' j + if s.owner o = some j then 1 else 0 := by
    intro j
    rw [owed, hfuture, countP_cons, owed, howner]
    simp
  have hdone : ∀ j, s'.done j = s.done j + if s.owner o = some j then 1 else 0 := by
    intro j
    simp only [s']
    cases hw : s.owner o with
    | none => simp
    | some i =>
      change update s.done i (s.done i + 1) j = _
      rw [update_apply]
      by_cases hji : j = i
      · simp [hji]
      · simp [hji, Ne.symm hji]
  constructor
  case perm =>
    rw [hqueued, hinvoked]
    exact h.perm.trans (hfuture ▸ perm_middle)
  case nodup => exact h.nodup
  case lt => exact h.lt
  case age =>
    intro x hx
    exact h.age x (hfuture ▸ mem_cons_of_mem _ hx)
  case fresh => exact h.fresh
  case ticked =>
    have hticked := h.ticked
    rw [hg] at hticked
    change _ ≤ _ at hticked
    rw [hcol, length_cons] at hticked
    rw [show s'.gp = .invoke from hg]
    change s.ticks + 1 + rest.length ≤ s.ncpu + 2 + s.queued.length
    omega
  case stage =>
    intro j
    refine (h.stage j).congr rfl (by rw [howed]; omega) (by rw [howed, hdone]; omega) rfl
      (fun _ => rfl) rfl ?_ fun x hx => ?_ <;> rw [hinvoked]
    · rw [hfuture, mem_cons, mem_cons]
      tauto
    · obtain hx | hx := hx
      · exact .inl (mem_cons_of_mem _ hx)
      · obtain rfl | hx := (hfuture ▸ hx : Before (o :: future s') x _).tail
        · exact .inl mem_cons_self
        · exact .inr hx
  case returned =>
    exact fun l hl x hx => mem_cons_of_mem _ (h.returned l hl x hx)
  case noCpu => exact h.noCpu

/-- **The grace-period thread.** -/
lemma Inv.gpRun (h : Inv s) : Inv (gpRun s) := by
  have hticked := h.ticked
  unfold RcuCallbacks.gpRun
  split
  next i hg =>
    rw [hg] at hticked
    have hd : s.detached = i := by simp only [Sys.detached, hg]
    split
    next hi =>
      refine h.quiet (future_detach hg hi _) h.age (fun c hc o ho => ?_)
        ⟨hi, congrArg (· + 1) hticked.2⟩
      change c < i + 1 at hc
      change o ∈ update s.pending i [] c at ho
      rw [update_apply] at ho
      split at ho
      · nomatch ho
      next hci => exact h.fresh c (by omega) o ho
    next hi =>
      have hn : i = s.ncpu := by have := hticked.1; omega
      split
      next hnil => exact h.nextPass (hd.trans hn) hnil
      · refine h.quiet ?_ h.age (fun c hc o ho => ?_) ?_
        · rw [future, future, hd, hn]; rfl
        · exact h.fresh c (by rw [hd, hn]; exact hc) o ho
        · exact congrArg (· + 1) (hticked.2.trans hn)
  next hg =>
    rw [hg] at hticked
    have hd : s.detached = s.ncpu := by simp only [Sys.detached, hg]
    refine h.quiet ?_ h.age (fun c hc o ho => ?_) ?_
    · rw [future, future, hd]; rfl
    · exact h.fresh c (by rw [hd]; exact hc) o ho
    · have hlen : s.collected.length ≤ s.queued.length := by
        rw [h.perm.length_eq, future]
        simp
        omega
      change s.ticks + 1 + s.collected.length ≤ s.ncpu + 2 + s.queued.length
      change s.ticks = _ at hticked
      omega
  next hg =>
    have hd : s.detached = s.ncpu := by simp only [Sys.detached, hg]
    split
    next hnil => exact h.nextPass hd hnil
    next o rest hcol => exact h.invoke hg hcol

/-! ### The callers -/

lemma Inv.push (h : Inv s) {c : ℕ} {a : Job} (hc : c < s.ncpu) :
    let s' := { s.push c (a.owner i) with last := a.last s i }.setPc i (a.next s.ncpu)
    ( ∀ l r, future s' = l ++ s.queued.length :: r → (∀ o, Ahead s c o → o ∈ l) →
      owed s' i = owed s i + (if a.owner i = some i then 1 else 0) →
      Stage s' i (a.next s.ncpu)) → Inv s' := by
  intro s' hst
  obtain ⟨l, r, hold, hnew, hahead⟩ := future_push hc h.detached_le (a.owner i)
  have hfuture : future s' = l ++ s.queued.length :: r := hnew
  have hinvoked : s'.invoked = s.invoked := rfl
  have hqueued : s'.queued = s.queued.length :: s.queued := rfl
  have hpass : s'.passes = s.passes := rfl
  have hn : s'.ncpu = s.ncpu := rfl
  have hfresh : ∀ o ∈ s.queued, o ≠ s.queued.length := fun o ho => (h.lt o ho).ne
  have hmem : ∀ o ∈ l ++ r, o ∈ s.queued := fun o ho =>
    h.perm.mem_iff.2 (mem_append_right _ (hold ▸ ho))
  have hat : ∀ o ∈ s.queued, s'.queuedAt o = s.queuedAt o := fun o ho =>
    update_of_ne (hfresh o ho) _ _
  have howner : ∀ o ∈ s.queued, s'.owner o = s.owner o := fun o ho =>
    update_of_ne (hfresh o ho) _ _
  have howned : s'.owner s.queued.length = a.owner i := update_self _ _ _
  have hself : s'.queuedAt s.queued.length = s.passes := update_self _ _ _
  have howed : ∀ j, owed s' j = owed s j + if a.owner i = some j then 1 else 0 := by
    intro j
    have hsame : (l ++ r).countP (fun o => s'.owner o = some j) = owed s j := by
      rw [owed, hold]
      exact countP_congr fun o ho => by rw [howner o (hmem o ho)]
    rw [owed, hfuture, countP_append, countP_cons, howned, ← hsame, countP_append]
    simp only [decide_eq_true_eq]
    omega
  constructor
  case perm =>
    rw [hqueued, hinvoked, hfuture, ← append_assoc]
    refine (h.perm.cons _).trans ?_
    rw [hold, ← append_assoc]
    exact perm_middle.symm
  case nodup => rw [hqueued]; exact nodup_cons.2 ⟨fun ho => hfresh _ ho rfl, h.nodup⟩
  case lt =>
    rw [hqueued, length_cons]
    exact forall_mem_cons.2 ⟨lt_succ_self _, fun o ho => lt_succ_of_lt (h.lt o ho)⟩
  case age =>
    intro o ho
    rw [hfuture, mem_append, mem_cons] at ho
    rw [hpass]
    obtain rfl | ho : o = s.queued.length ∨ o ∈ l ++ r := by rw [mem_append]; tauto
    · rw [hself]; exact le_succ _
    · rw [hat o (hmem o ho)]
      exact h.age o (hold ▸ ho)
  case fresh =>
    intro d hd o ho
    have hd' : d < s.detached := hd
    rw [hpass]
    have hpend : s'.pending = update s.pending c (s.queued.length :: s.pending c) := rfl
    obtain rfl | ho : o = s.queued.length ∨ o ∈ s.pending d := by
      rw [hpend, update_apply] at ho
      split_ifs at ho with hdc
      · rw [hdc]; exact mem_cons.1 ho
      · exact .inr ho
    · exact hself
    · rw [hat o (h.perm.mem_iff.2 (mem_append_right _ ?_)), h.fresh d hd' o ho]
      exact mem_append_right _ (mem_chains.2 ⟨d, zero_le _, by omega, ho⟩)
  case ticked =>
    have hticked := h.ticked
    rw [show s'.gp = s.gp from rfl]
    revert hticked
    have hticks : s'.ticks = s.ticks := rfl
    have hcol : s'.collected = s.collected := rfl
    cases s.gp with
    | collect k | sync => simp only [Ticked, hn, hticks]; exact id
    | invoke => simp only [Ticked, hn, hticks, hcol, hqueued, length_cons]; omega
  case stage =>
    intro j
    by_cases hji : j = i
    · subst hji
      rw [show s'.pc j = a.next s.ncpu from update_self _ _ _]
      exact hst l r hfuture hahead (howed j)
    · rw [show s'.pc j = s.pc j from update_of_ne hji _ _]
      have hne : a.owner i ≠ some j := by
        cases a with
        | user => nofun
        | barrier k => exact fun e => hji (some.inj e).symm
      have hlast : a.last s i j = s.last j := by
        cases a with
        | user => rfl
        | barrier k => exact update_of_ne hji _ _
      have hsame : owed s' j = owed s j := by rw [howed, if_neg hne, add_zero]
      refine (h.stage j).congr hn hsame.le (by rw [hsame]; rfl)
        hlast (fun hw => ?_) (rfl) ?_ fun o ho => ?_
      · have hst := h.stage j
        rw [hw] at hst
        exact howner _ (h.perm.mem_iff.2 (mem_append.2 hst.2.2.1))
      · rw [hinvoked, hfuture, hold, mem_append, mem_append, mem_cons]
        tauto
      · rw [hinvoked, hfuture]
        exact ho.imp_right fun ho => (hold ▸ ho : Before (l ++ r) o _).insert
  case returned =>
    rw [hinvoked, show s'.returned = s.returned from rfl]
    exact h.returned
  case noCpu =>
    rw [hn]
    intro e
    omega

/-- **A caller.** -/
lemma Inv.callRun (h : Inv s) {cpu : ℕ} (hok : Covered s (.run i cpu))
    (hrun : callRun s i cpu (s.pc i) = some s') : Inv s' := by
  have hst := h.stage i
  generalize hp : s.pc i = pc at hrun hst
  cases pc with
  | idle => nomatch hrun
  | load c job =>
    cases hrun
    exact h.setPc (by cases job <;> exact hst)
  | between k =>
    simp only [RcuCallbacks.callRun] at hrun
    obtain ⟨hcpu, hrun⟩ := ite_none_right_eq_some.mp hrun
    cases hrun; exact h.setPc ⟨hcpu, hst⟩
  | cas c old job =>
    simp only [RcuCallbacks.callRun] at hrun
    split at hrun
    next hhead =>
      cases hrun
      have hc : c < s.ncpu := by cases job <;> exact hst.1
      refine h.push hc fun l r hfuture hahead howed => ?_
      cases job with
      | user => exact howed.trans hst.2
      | barrier k =>
        obtain ⟨-, hk, hsum⟩ := hst
        rw [if_pos (show Job.owner i (.barrier k) = some i from rfl)] at howed
        change Stage _ i (if k + 1 < s.ncpu then .between (k + 1) else .waiting)
        by_cases hlt : k + 1 < s.ncpu
        · rw [if_pos hlt]
          refine ⟨hlt, ?_⟩
          rw [howed]
          change _ + s.done i = _
          omega
        · -- the last push
          rw [if_neg hlt]
          have hlast : update s.last i s.queued.length i = s.queued.length := update_self _ _ _
          refine ⟨?_, (congrArg _ hlast).trans (update_self _ _ _), .inr ?_, fun o ho => ?_⟩
          · rw [howed]
            change _ + s.done i = s.ncpu
            omega
          · rw [hfuture]
            exact mem_append_right _ (hlast ▸ mem_cons_self)
          · simp only [Covered, hp] at hok
            refine (hok hhead (by omega) o ho).imp_right fun ho => ?_
            rw [hfuture]
            exact hlast ▸ before_inserted (hahead o ho)
    · cases hrun
      exact h.setPc (by cases job <;> exact hst)
  | waiting =>
    simp only [RcuCallbacks.callRun] at hrun
    split at hrun
    · nomatch hrun
    next hdone =>
      cases hrun
      obtain ⟨hsum, hown, hlast, hbefore⟩ := hst
      have hnone : owed s i = 0 := by omega
      -- its last callback has been invoked, so all before it have
      have hgone : s.last i ∉ future s := by
        intro hmem
        have := countP_eq_zero.1 hnone _ hmem
        simp [hown] at this
      have hret : Inv { s with returned := s.before i :: s.returned } := by
        refine { h with stage := fun j => ?_, returned := forall_mem_cons.2 ⟨?_, h.returned⟩ }
        · exact (h.stage j).congr rfl le_rfl rfl rfl (fun _ => rfl) rfl id fun _ => id
        · exact fun o ho => (hbefore o ho).resolve_right fun hb => hgone hb.mem_right
      exact hret.setPc hnone

/-- **Every step preserves the invariant.** -/
theorem Inv.step (h : Inv s) {a : Act ι} (hok : Covered s a) (hstep : rcuStep s a = some s') :
    Inv s' := by
  cases a with
  | call i c =>
    obtain ⟨hi, rfl⟩ := ite_some_none_eq_some.mp hstep
    have hst := h.stage i
    rw [hi.1] at hst
    exact h.setPc ⟨hi.2, hst⟩
  | barrier i =>
    obtain ⟨hi, hstep⟩ := ite_none_right_eq_some.mp hstep
    split_ifs at hstep with hn
    · cases hstep
      refine { h with stage := fun j => ?_, returned := forall_mem_cons.2 ⟨?_, h.returned⟩ }
      · exact (h.stage j).congr rfl le_rfl rfl rfl (fun _ => rfl) rfl id fun _ => id
      · rw [h.noCpu hn]; nofun
    · cases hstep
      have hst := h.stage i
      rw [hi] at hst
      have hstay : ∀ j ≠ i, Stage { s with
          before := update s.before i s.queued
          done := update s.done i 0 } j (s.pc j) := fun j hji =>
        (h.stage j).congr rfl le_rfl (congrArg _ (update_of_ne hji _ _)) rfl
          (fun _ => rfl) (update_of_ne hji _ _) id fun _ => id
      refine { h with stage := (forall_update_iff s.pc (Stage _)).mpr ⟨?_, hstay⟩ }
      refine ⟨pos_of_ne_zero hn, ?_⟩
      change owed s i + update s.done i 0 i = 0
      rwa [update_self]
  | run i c => exact h.callRun hok hstep
  | gp => cases hstep; exact h.gpRun

/-- **Every deferred callback is invoked exactly once, and `rcu_barrier` waits for all that were
queued before it**, in every run in which the last push of each `rcu_barrier` comes out after
them. -/
theorem callbacks_run (ncpu : ℕ) (acts : List (Act ι)) {s : Sys ι}
    (hrun : exec rcuStep (boot ncpu) acts = some s)
    (hok : Meets rcuStep Covered (boot ncpu) acts) : Good s :=
  (exec_invariant (fun h => h.step) hrun hok (boot_inv ncpu)).good

/-- A callback is queued and collected; then `rcu_barrier` is called, and returns when its own
callback has been invoked. -/
def barrierAfterPass : List (Act (Fin 2)) := flatten
  [[.call 0 0], replicate 2 (.run 0 0), replicate 2 .gp, [.barrier 1],
    replicate 3 (.run 1 0), replicate 7 .gp, [.run 1 0]]

theorem callbacks_run_barrierAfterPass : ∃ s, exec rcuStep (boot 1) barrierAfterPass = some s ∧
      (s.returned = [[0]] ∧ s.invoked = [1, 0]) ∧ Good s := by
  have hok : Meets rcuStep Covered (boot 1) barrierAfterPass := by decide +kernel
  exact exists_run fun _ hrun _ => callbacks_run 1 barrierAfterPass hrun hok

/-- A callback is queued, `rcu_barrier` is called, and then the pass begins: the barrier's callback
is in front, and `rcu_barrier` returns when it has been invoked. -/
def barrierOvertakes : List (Act (Fin 2)) := flatten
  [[.call 0 0], replicate 2 (.run 0 0), [.barrier 1], replicate 3 (.run 1 0),
    replicate 4 .gp, [.run 1 0]]

/-- `rcu_barrier` has returned, and a callback queued before the call has not been invoked. -/
theorem barrier_early : ∃ s, exec rcuStep (boot 1) barrierOvertakes = some s ∧
      s.returned = [[0]] ∧ 0 ∉ s.invoked :=
  exists_of_any _ _ _ _

end Makaos.RcuCallbacks
