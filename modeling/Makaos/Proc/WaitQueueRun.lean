import Makaos.Proc.WaitQueueBooks

/-!
Wait queues lose nobody, as long as unlinking meets the links it has read and an entry is added only
while nobody has it.

* `Inv`: an entry that waits is not marked, and is on a chain or in somebody's hands.
* `Inv.step`: a step in order keeps it.
* `Owed`: what a `wait_queue_wake_all` that has detached a waiting entry still owes it.
* `waiters_kept`: **in every run in order, every entry that waits can be reached from the head or is
  with a wake, and a `wait_queue_wake_all` that finds it in the queue calls it, unless it is removed
  first.**
* `waiter_lost`: a `wq_remove` that meets a `wq_add` at the head takes the new entry with it.
-/

namespace Makaos.WaitQueue

open Function Transition Sys List Option
open LinkChain (Chains OnChain)

variable {ι ε : Type*} [DecidableEq ι] [DecidableEq ε] {s s' : Sys ι ε} {a : Act ι ε}
  {loc loc' : ε → Option (Option ι)} {i j : ι} {q : Pc ε} {e : ε} {s₀ : Sys ι ε} {n : Option ε}

/-! ### The invariant -/

/-- **An entry that waits is not marked, and is on a chain or in somebody's hands.** -/
structure Inv (s : Sys ι ε) (loc : ε → Option (Option ι)) : Prop where
  books : Books s.next s.head s.pc loc
  alive : ∀ e, s.waiting e = true → s.dead e = false
  placed : ∀ e, s.waiting e = true → loc e ≠ none ∨ ∃ i, e ∈ (s.pc i).hands
  /-- `wait_queue_wake_one` skips no entry that waits. -/
  skip : ∀ i c, s.pc i = .oneSkip c → s.waiting c = false

/-- An entry on a chain stays there, or is detached with the queue, or is taken off at the front,
or is unlinked. -/
lemma Effect.loc_some {x : Option ι} (h : Books s.next s.head s.pc loc)
    (he : Effect i q s s' loc loc') (hloc : loc e = some x) :
    loc' e = some x ∨ (x = none ∧ loc' e = some (some i)) ∨ (s.pc i).pops = some e ∨
      ∃ link n, s.pc i = .remove e (.store link n) := by
  cases he with
  | stay | start | store => exact .inl hloc
  | @push y k old hp =>
    have hy : e ≠ y := by
      rintro rfl
      exact h.not_mem_of_loc hloc i (by simp [hp, Pc.hands])
    exact .inl (by rwa [update_of_ne hy])
  | detach hp =>
    cases x with
    | none => exact .inr (.inl ⟨rfl, by simp [Chains.relocate, hloc]⟩)
    | some j => exact .inl (by simp [Chains.relocate, hloc])
  | @pop c hc =>
    by_cases hy : e = c
    · exact .inr (.inr (.inl (hy ▸ hc)))
    · exact .inl (by rwa [update_of_ne hy])
  | @unlinkHead y n hp =>
    by_cases hy : e = y
    · exact .inr (.inr (.inr ⟨.head, n, hy ▸ hp⟩))
    · exact .inl (by rwa [update_of_ne hy])
  | @unlink y p n hp =>
    split
    · exact .inl hloc
    · by_cases hy : e = y
      · exact .inr (.inr (.inr ⟨.next p, n, hy ▸ hp⟩))
      · exact .inl (by rwa [update_of_ne hy])

namespace Flags

variable {p : Pc ε}

omit [DecidableEq ι] in
/-- An entry begins to wait when its owner begins to add it. -/
lemma waiting (h : Flags s s' p) (hw : s'.waiting e = true) :
    s.waiting e = true ∨ (p = .add e .owner .dead ∧ s'.dead e = false) := by
  have hdrop : ∀ x, update s.waiting x false e = true → s.waiting e = true :=
    fun _ hx => of_update hx nofun
  cases h with
  | same _ _ hwaiting => exact .inl (hwaiting ▸ hw)
  | revive x k hp hdead hwaiting =>
    rw [hwaiting] at hw
    split_ifs at hw with hk
    · by_cases hex : e = x
      · exact .inr ⟨by rw [hp, hk, hex], by rw [hdead, hex, update_self]⟩
      · exact .inl (by rwa [update_of_ne hex] at hw)
    · exact .inl hw
  | mark x _ _ hwaiting | unlink x _ _ _ _ hwaiting => exact .inl (hdrop x (hwaiting ▸ hw))
  | call x _ _ hwaiting =>
    rw [hwaiting] at hw
    split at hw
    · exact .inl hw
    · exact .inl (hdrop x hw)

omit [DecidableEq ι] in
/-- Marking an entry ends its waiting. -/
lemma alive (h : Flags s s' p) (halive : ∀ e, s.waiting e = true → s.dead e = false)
    (hw : s'.waiting e = true) : s'.dead e = false := by
  rcases h.waiting hw with hold | ⟨-, hdead⟩
  case inr => exact hdead
  have hdead := halive e hold
  cases h with
  | same _ hd | unlink _ _ _ _ hd | call _ _ hd => rwa [hd]
  | revive x k _ hd => rw [hd, update_apply, hdead, ite_self]
  | mark x _ hd hwaiting =>
    by_cases hex : e = x
    · rw [hwaiting, hex, update_self] at hw
      nomatch hw
    · rwa [hd, update_of_ne hex]

end Flags

/-- **What an agent has in hand, or at the front of its private chain, and goes on waiting, it
keeps, or it has pushed it.** -/
lemma Inv.kept (h : Inv s loc) (hs : waitStep s a = some s')
    (he : e ∈ (s.pc a.agent).hands ∨ (s.pc a.agent).rest = some e) (hw : s'.waiting e = true) :
    e ∈ (s'.pc a.agent).hands ∨ (s'.pc a.agent).rest = some e ∨ s'.head = some e := by
  obtain ⟨q, x, rfl, ht⟩ := turn_of_step hs
  rw [goto_pc_self]
  generalize hp : s.pc a.agent = p at ht he
  cases ht with
  | casFail | casMiss | revive | load | store => exact he.imp id .inl
  | push i c k =>
    rw [resume_hands, resume_rest]
    rcases he with he | he
    · rcases mem_cons.mp he with rfl | he
      · exact .inr (.inr rfl)
      · exact .inl he
    · exact .inr (.inl he)
  | addStart | removeStart | allStart | oneStart | mark | lock | head | walkEnd | walkHit | walkOn
  | next | unlink | unlock | allXchg | oneXchg => rcases he with he | he <;> cases he
  | allNext i c =>
    rcases he with he | he
    · cases he
    · exact .inl (mem_singleton.mpr (some.inj he).symm)
  | oneFired i c =>
    rw [oneAt_hands]
    rcases he with he | he
    · cases he
    · exact .inl (mem_singleton.mpr (some.inj he).symm)
  | allSkip i c n hdead =>
    rw [allAt_rest]
    rcases he with he | he
    · obtain rfl : e = c := mem_singleton.mp he
      exact absurd (h.alive e hw) (by simp [hdead])
    · exact .inr (.inl he)
  | allDead | allKeep | oneDead | oneFire | oneKeep => exact he.imp id .inl
  | allDrop i c n hkeep =>
    rw [allAt_rest]
    rcases he with he | he
    · obtain rfl : e = c := mem_singleton.mp he
      simp [call, goto, hkeep] at hw
    · exact .inr (.inl he)
  | oneSkip i c =>
    rcases he with he | he
    · cases he
    · obtain rfl : c = e := some.inj he
      exact absurd hw (by simp [goto, h.skip i c hp])
  | oneRest i c f =>
    rcases he with he | he
    · exact .inl (mem_cons_of_mem _ he)
    · obtain rfl : c = e := some.inj he
      exact .inl mem_cons_self
  | oneDrop i f hkeep =>
    rcases he with he | he
    · obtain rfl : e = f := mem_singleton.mp he
      simp [call, goto, hkeep] at hw
    · cases he

/-- `wait_queue_wake_one` comes to skip an entry that it has found marked. -/
lemma oneSkip_of_step {c : ε} (hs : waitStep s a = some s')
    (hq : s'.pc a.agent = .oneSkip c) : s.dead c = true ∧ s'.waiting = s.waiting := by
  have hgoes := goes_of_step hs
  have hflags := flags_of_step hs
  rw [hq] at hgoes
  cases hgoes with
  | plain h => exact absurd rfl (h.2 c)
  | skip hp hdead =>
    rw [hp] at hflags
    cases hflags with
    | same _ _ hw => exact ⟨hdead, hw⟩
    | revive _ _ hx | mark _ hx | unlink _ _ _ hx => nomatch hx
    | call _ hx => rcases hx with ⟨_, hx⟩ | hx <;> nomatch hx

/-! ### A step in order keeps the invariant -/

lemma Inv.placed_step (h : Inv s loc) (hs : waitStep s a = some s')
    (he : Effect a.agent q s s' loc loc') (hbooks : Books s'.next s'.head s'.pc loc')
    (hw : s'.waiting e = true) :
    loc' e ≠ none ∨ ∃ i, e ∈ (s'.pc i).hands := by
  -- what is in the hands of the agent or at the front of its chain
  have hkept : (e ∈ (s.pc a.agent).hands ∨ (s.pc a.agent).rest = some e) →
      loc' e ≠ none ∨ ∃ i, e ∈ (s'.pc i).hands := by
    intro hin
    rcases h.kept hs hin hw with hk | hk | hk
    · exact .inr ⟨_, hk⟩
    · exact .inl (by simp [hbooks.chains.loc_head (i := some a.agent) hk])
    · exact .inl (by simp [hbooks.chains.loc_head (i := none) hk])
  have hflags := flags_of_step hs
  rcases hflags.waiting hw with hold | ⟨hp, -⟩
  · rcases h.placed e hold with hloc | ⟨j, hj⟩
    · obtain ⟨x, hx⟩ := ne_none_iff_exists'.mp hloc
      rcases he.loc_some h.books hx with hx' | ⟨-, hx'⟩ | hpop | ⟨link, n, hp⟩
      · exact .inl (by simp [hx'])
      · exact .inl (by simp [hx'])
      · exact hkept (.inr (Pc.rest_of_pops hpop))
      · -- an unlinked entry does not wait
        exfalso
        rw [hp] at hflags
        cases hflags with
        | same hx | revive _ _ hx | mark _ hx => nomatch hx
        | unlink y _ _ hx _ hwaiting =>
          obtain ⟨rfl, -⟩ := Pc.remove.inj hx
          simp [hwaiting] at hw
        | call _ hx => rcases hx with ⟨_, hx⟩ | hx <;> nomatch hx
    · by_cases hji : j = a.agent
      · exact hkept (.inl (hji ▸ hj))
      · exact .inr ⟨j, by rwa [pc_of_ne hs hji]⟩
  · exact hkept (.inl (by simp [hp, Pc.hands]))

/-- An entry that `wait_queue_wake_one` is about to skip does not begin to wait. -/
lemma Inv.skip_step (h : Inv s loc) (hs : waitStep s a = some s') {c : ε}
    (hp : s'.pc i = .oneSkip c) : s'.waiting c = false := by
  by_contra hw
  rw [Bool.not_eq_false] at hw
  by_cases hi : i = a.agent
  · subst hi
    obtain ⟨hdead, hwaiting⟩ := oneSkip_of_step hs hp
    rw [hwaiting] at hw
    exact absurd (h.alive c hw) (by simp [hdead])
  · rw [pc_of_ne hs hi] at hp
    rcases (flags_of_step hs).waiting hw with hold | ⟨hadd, -⟩
    · exact absurd (h.skip i c hp) (by simp [hold])
    · have hloc : loc c = some (some i) :=
        h.books.chains.loc_head (i := some i) (show (s.pc i).rest = some c by rw [hp]; rfl)
      exact h.books.not_mem_of_loc hloc a.agent (by simp [hadd, Pc.hands])

/-- **A step in order keeps the invariant.** -/
theorem Inv.step (h : Inv s loc) (hok : Orderly s a) (hs : waitStep s a = some s') :
    ∃ q loc', s'.pc = update s.pc a.agent q ∧ Effect a.agent q s s' loc loc' ∧ Inv s' loc' := by
  obtain ⟨q, loc', hpc, -, he⟩ := exists_effect loc hok hs
  have hbooks := h.books.effect hpc he
  exact ⟨q, loc', hpc, he,
    { books := hbooks
      alive := fun e hw => (flags_of_step hs).alive h.alive hw
      placed := fun e hw => h.placed_step hs he hbooks hw
      skip := fun i c hp => h.skip_step hs hp }⟩

omit [DecidableEq ι] [DecidableEq ε] in
lemma boot_inv (next : ε → Option ε) (dead : ε → Bool) (func : ε → Func) :
    Inv (boot next dead func : Sys ι ε) fun _ => none where
  books :=
    { chains := fun x => ⟨[], by cases x <;> exact .nil, fun a => by simp⟩
      off := fun _ _ _ => rfl
      one := fun _ _ _ h => (nomatch h)
      nodup := fun _ => nodup_nil
      cas := fun _ _ _ _ h => (nomatch h) }
  alive _ h := nomatch h
  placed _ h := nomatch h
  skip _ _ h := nomatch h

lemma exec_inv {next : ε → Option ε} {dead : ε → Bool} {func : ε → Func} {acts : List (Act ι ε)}
    (hrun : exec waitStep (boot next dead func) acts = some s)
    (hok : Meets waitStep Orderly (boot next dead func) acts) : ∃ loc, Inv s loc := by
  refine exec_invariant (I := fun s => ∃ loc, Inv s loc) ?_ hrun hok ⟨_, boot_inv next dead func⟩
  rintro s a s' ⟨loc, h⟩ ha hs
  obtain ⟨-, loc', -, -, h'⟩ := h.step ha hs
  exact ⟨loc', h'⟩

/-! ### Nobody is lost -/

omit [DecidableEq ε] in
lemma Pc.of_adds {p : Pc ε} {x : ε} (h : p.adds = some x) : p.rest = none ∧ p.hands = [x] := by
  cases p with
  | add y k a =>
    cases k with
    | owner =>
      cases h
      exact ⟨rfl, rfl⟩
    | _ => nomatch h
  | _ => nomatch h

omit [DecidableEq ι] [DecidableEq ε] in
theorem Inv.accounted (h : Inv s loc) : Accounted s := by
  intro e hw hadds
  -- whoever has the entry is a wake
  have hwake : ∀ i, (OnChain s.next (s.pc i).rest e ∨ e ∈ (s.pc i).hands) → s.InWake i e := by
    intro i hin
    refine ⟨?_, hin⟩
    by_contra hne
    obtain ⟨x, hx⟩ := ne_none_iff_exists'.mp hne
    obtain ⟨hrest, hhands⟩ := Pc.of_adds hx
    rw [hrest, hhands] at hin
    rcases hin with hin | hin
    · nomatch hin
    · exact hadds i (mem_singleton.mp hin ▸ hx)
  rcases h.placed e hw with hloc | ⟨i, hi⟩
  · obtain ⟨x, hx⟩ := ne_none_iff_exists'.mp hloc
    have hon := h.books.chains.onChain_iff.mpr hx
    cases x with
    | none => exact .inl hon
    | some i => exact .inr ⟨i, hwake i (.inl hon)⟩
  · exact .inr ⟨i, hwake i (.inr hi)⟩

/-! ### A wake of the whole queue calls everybody -/

/-- In the loop of `wait_queue_wake_all`. -/
def Pc.isAll : Pc ε → Prop
  | .allNext _ | .allDead .. | .allCall .. | .add _ (.all _) _ => True
  | _ => False

/-- The `wait_queue_wake_all` of `i` has the entry still to call. -/
def Visits (s : Sys ι ε) (loc : ε → Option (Option ι)) (i : ι) (e : ε) : Prop :=
  (loc e = some (some i) ∧ (s.pc i).isAll) ∨ ∃ n, s.pc i = .allDead e n ∨ s.pc i = .allCall e n

/-- **What the `wait_queue_wake_all` of `i` owes an entry that waited in `s₀`:** to call it, unless
it is removed first. -/
def Owed (s₀ s : Sys ι ε) (loc : ε → Option (Option ι)) (i : ι) (e : ε) : Prop :=
  s₀.called e < s.called e ∨ s₀.removals e < s.removals e ∨
    (s₀.called e ≤ s.called e ∧ s₀.removals e ≤ s.removals e ∧ s.waiting e = true ∧
      Visits s loc i e)

namespace Flags

variable {p : Pc ε}

omit [DecidableEq ι] in
/-- The counts grow, and an entry stops waiting when one of them does. -/
lemma counts (h : Flags s s' p) (e : ε) : s.called e ≤ s'.called e ∧ s.removals e ≤ s'.removals e ∧
      (s.waiting e = true → s'.called e = s.called e → s'.removals e = s.removals e →
        s'.waiting e = true) := by
  cases h with
  | same _ _ hw hc hr => simp [hw, hc, hr]
  | revive x k _ _ hw hc hr =>
    refine ⟨hc ▸ le_rfl, hr ▸ le_rfl, fun h _ _ => ?_⟩
    rw [hw]
    split
    · rw [update_apply, h, ite_self]
    · exact h
  | mark x _ _ hw hc hr | unlink x _ _ _ _ hw hc hr =>
    rw [hw, hc, hr]
    by_cases hex : e = x
    · subst hex
      simp
    · simp [update_of_ne hex]
  | call x _ _ hw hc hr =>
    rw [hw, hc, hr]
    by_cases hex : e = x
    · subst hex
      simp
    · simp only [update_of_ne hex]
      refine ⟨le_rfl, le_rfl, fun h _ _ => ?_⟩
      split
      · exact h
      · rwa [update_of_ne hex]

omit [DecidableEq ι] in
lemma removals_unlink {link : Link ε} (h : Flags s s' (.remove e (.store link n))) :
    s'.removals e = s.removals e + 1 := by
  cases h with
  | same hx | revive _ _ hx | mark _ hx => nomatch hx
  | unlink x _ _ hx _ _ _ hr =>
    obtain ⟨rfl, -⟩ := Pc.remove.inj hx
    rw [hr, update_self]
  | call _ hx => rcases hx with ⟨_, hx⟩ | hx <;> nomatch hx

end Flags

omit [DecidableEq ε] in
lemma isAll_allAt (h : (allAt n).rest ≠ none) : (allAt n).isAll := by
  cases n with
  | none => exact absurd rfl h
  | some c => trivial

/-- `wait_queue_wake_all` goes on until its chain is at its end. -/
lemma isAll_step (hs : waitStep s a = some s') (hall : (s.pc a.agent).isAll)
    (hrest : (s'.pc a.agent).rest ≠ none) : (s'.pc a.agent).isAll := by
  obtain ⟨q, x, rfl, ht⟩ := turn_of_step hs
  rw [goto_pc_self] at hrest ⊢
  generalize s.pc a.agent = p at ht hall
  cases ht with
  | casFail i e k | casMiss i e k | revive i e k | load i e k | store i e k => cases k <;> exact hall
  | push i e k =>
    cases k with
    | all n => exact isAll_allAt hrest
    | _ => exact hall.elim
  | allSkip | allDrop => exact isAll_allAt hrest
  | allNext | allDead | allKeep => trivial
  | _ => exact hall.elim

/-- `wait_queue_wake_all` takes the entry at the front into its hands. -/
lemma allDead_of_pops (hs : waitStep s a = some s') (hall : (s.pc a.agent).isAll)
    (hpop : (s.pc a.agent).pops = some e) : ∃ n, s'.pc a.agent = .allDead e n := by
  obtain ⟨q, x, rfl, ht⟩ := turn_of_step hs
  rw [goto_pc_self]
  generalize s.pc a.agent = p at ht hall hpop
  cases ht with
  | allNext i c =>
    obtain rfl : c = e := some.inj hpop
    exact ⟨_, rfl⟩
  | oneSkip | oneFired | oneRest => exact hall.elim
  | _ => nomatch hpop

/-- **A step leaves the entry with the wake that has it, unless it is called or removed.** -/
lemma Visits.step (hv : Visits s loc i e) (h : Inv s loc) (hs : waitStep s a = some s')
    (he : Effect a.agent q s s' loc loc') (h' : Inv s' loc') (hw : s.waiting e = true)
    (hcalled : s'.called e = s.called e) (hremovals : s'.removals e = s.removals e) :
    Visits s' loc' i e := by
  have hflags := flags_of_step hs
  rcases hv with ⟨hloc, hall⟩ | ⟨n, hp⟩
  · -- the entry is on the private chain
    rcases he.loc_some h.books hloc with hloc' | ⟨hx, -⟩ | hpop | ⟨link, m, hp⟩
    · refine .inl ⟨hloc', ?_⟩
      by_cases hi : i = a.agent
      · subst hi
        refine isAll_step hs hall fun hnone => ?_
        exact h'.books.chains.loc_ne_of_empty (i := some a.agent) hnone e hloc'
      · rwa [pc_of_ne hs hi]
    · nomatch hx
    · have hagent := h.books.chains.loc_head (i := some a.agent) (Pc.rest_of_pops hpop)
      obtain rfl : i = a.agent := some.inj (some.inj (hloc.symm.trans hagent))
      obtain ⟨n, hn⟩ := allDead_of_pops hs hall hpop
      exact .inr ⟨n, .inl hn⟩
    · rw [hp] at hflags
      exact absurd hremovals (by rw [hflags.removals_unlink]; omega)
  · by_cases hi : i = a.agent
    · subst hi
      obtain ⟨q, x, rfl, ht⟩ := turn_of_step hs
      rcases hp with hp | hp <;> rw [hp] at ht
      · cases ht with
        | allSkip _ _ _ hdead => exact absurd (h.alive e hw) (by simp [hdead])
        | allDead => exact .inr ⟨n, .inr (goto_pc_self ..)⟩
      · -- the callback is called
        cases ht <;> exact absurd hcalled (by simp [goto, call])
    · refine .inr ⟨n, ?_⟩
      rwa [pc_of_ne hs hi]

lemma Owed.step (ho : Owed s₀ s loc i e) (h : Inv s loc) (hs : waitStep s a = some s')
    (he : Effect a.agent q s s' loc loc') (h' : Inv s' loc') : Owed s₀ s' loc' i e := by
  obtain ⟨hcalled, hremovals, hwaits⟩ := (flags_of_step hs).counts e
  rcases ho with ho | ho | ⟨hc, hr, hw, hv⟩
  · exact .inl (ho.trans_le hcalled)
  · exact .inr (.inl (ho.trans_le hremovals))
  · rcases hcalled.lt_or_eq with hlt | hcalled
    · exact .inl (hc.trans_lt hlt)
    rcases hremovals.lt_or_eq with hlt | hremovals
    · exact .inr (.inl (hr.trans_lt hlt))
    refine .inr (.inr ⟨hcalled ▸ hc, hremovals ▸ hr, hwaits hw hcalled.symm hremovals.symm, ?_⟩)
    exact hv.step h hs he h' hw hcalled.symm hremovals.symm

omit [DecidableEq ι] [DecidableEq ε] in
lemma Owed.paid (ho : Owed s₀ s loc i e) (hidle : s.pc i = .idle) :
    s₀.called e < s.called e ∨ s₀.removals e < s.removals e := by
  rcases ho with ho | ho | ⟨-, -, -, ⟨-, hall⟩ | ⟨n, hp⟩⟩
  · exact .inl ho
  · exact .inr ho
  · rw [hidle] at hall
    exact hall.elim
  · rw [hidle] at hp
    rcases hp with hp | hp <;> nomatch hp

/-- The exchange of `wait_queue_wake_all` makes it owe a call to every waiting entry of the queue. -/
lemma Inv.owed (h : Inv s loc) (hw : s.waiting e = true) (hon : OnChain s.next s.head e)
    (hp : s.pc i = .allXchg) (hs : waitStep s (.run i) = some s') :
    ∃ loc', Inv s' loc' ∧ Owed s s' loc' i e := by
  have hok : Orderly s (.run i) := fun x hx => by
    rw [hp] at hx
    cases hx
  obtain ⟨-, loc', -, -, h'⟩ := h.step hok hs
  simp only [waitStep, hp] at hs
  cases hs
  refine ⟨loc', h', .inr (.inr ⟨le_rfl, le_rfl, hw, .inl ⟨?_, ?_⟩⟩)⟩
  · rw [← h'.books.chains.onChain_iff]
    change OnChain s.next (update s.pc i (allAt s.head) i).rest e
    rwa [update_self, allAt_rest]
  · rw [goto_pc_self]
    refine isAll_allAt ?_
    rw [allAt_rest]
    intro hnone
    rw [hnone] at hon
    cases hon

/-- **In every run in order nobody is lost:** every entry that waits can be reached from the head or
is with a wake, and a `wait_queue_wake_all` that finds it in the queue has called it when it returns,
unless it has been removed. -/
theorem waiters_kept {next : ε → Option ε} {dead : ε → Bool} {func : ε → Func}
    {acts : List (Act ι ε)} (hrun : exec waitStep (boot next dead func) acts = some s)
    (hok : Meets waitStep Orderly (boot next dead func) acts) : Accounted s ∧
    ∀ i e, s.waiting e = true → OnChain s.next s.head e → s.pc i = .allXchg →
      ∀ acts' s', exec waitStep s (.run i :: acts') = some s' →
        Meets waitStep Orderly s (.run i :: acts') → s'.pc i = .idle →
        s.called e < s'.called e ∨ s.removals e < s'.removals e := by
  obtain ⟨loc, h⟩ := exec_inv hrun hok
  refine ⟨h.accounted, fun i e hw hon hp acts' s' hrun' hok' hidle => ?_⟩
  obtain ⟨s1, hs, hrest⟩ := exec_cons hrun'
  obtain ⟨loc1, h1, ho⟩ := h.owed hw hon hp hs
  have hmeets := hok'.2
  rw [hs] at hmeets
  have hstep : ∀ {t b t'}, (∃ loc', Inv t loc' ∧ Owed s t loc' i e) → Orderly t b →
      waitStep t b = some t' → ∃ loc', Inv t' loc' ∧ Owed s t' loc' i e := by
    rintro t b t' ⟨loc2, h2, ho2⟩ hb ht
    obtain ⟨q, loc3, -, he, h3⟩ := h2.step hb ht
    exact ⟨loc3, h3, ho2.step h2 ht he h3⟩
  obtain ⟨loc', -, ho'⟩ := exec_invariant hstep hrest hmeets ⟨loc1, h1, ho⟩
  exact ho'.paid hidle

/-! ### Two runs -/

/-- Nobody uses the queue; the entries are watches, which are kept. -/
def watches : Sys (Fin 2) (Fin 2) := boot (fun _ => none) (fun _ => false) (fun _ => .epoll)

/-- Two entries are added, the older one is removed, and a wake begins. -/
def addRemoveWake : { acts // Meets waitStep Orderly watches acts } :=
  ⟨List.flatten [[.add 0 0], replicate 4 (.run 0), [.add 1 1], replicate 4 (.run 1),
    [.remove 0 0], replicate 8 (.run 0), [.wakeAll 1]], by decide +kernel⟩

theorem waiters_kept_addRemoveWake :
    ∃ s s', exec waitStep watches addRemoveWake.1 = some s ∧ Accounted s ∧
      s.waiting 1 = true ∧ exec waitStep s (replicate 8 (.run 1)) = some s' ∧ s'.pc 1 = .idle ∧
      (s.called 1 < s'.called 1 ∨ s.removals 1 < s'.removals 1) := by
  obtain ⟨s, hrun, hw, hon, hp, hsome, hok⟩ := exists_of_any waitStep watches addRemoveWake.1
    (fun s => s.waiting 1 = true ∧ OnChain s.next s.head 1 ∧ s.pc 1 = .allXchg ∧
      (exec waitStep s (replicate 8 (.run 1))).any (fun s' => decide (s'.pc 1 = .idle)) = true ∧
      Meets waitStep Orderly s (replicate 8 (.run 1)))
  obtain ⟨s', hrun', hidle⟩ := exists_of_any waitStep s (replicate 8 (.run 1))
    (fun s' => s'.pc 1 = .idle) hsome
  obtain ⟨hacc, hcall⟩ := waiters_kept hrun addRemoveWake.2
  exact ⟨s, s', hrun, hacc, hw, hrun', hidle,
    hcall 1 1 hw hon hp (replicate 7 (.run 1)) s' hrun' hok hidle⟩

/-- `wq_remove` of the only entry has read that nothing follows it when another entry is pushed. -/
def removeMeetsAdd : List (Act (Fin 2) (Fin 2)) := List.flatten
  [[.add 0 0], replicate 4 (.run 0), [.remove 0 0], replicate 5 (.run 0), [.add 1 1],
    replicate 4 (.run 1), replicate 2 (.run 0)]

/-- **A `wq_remove` takes with it the entry that a `wq_add` has pushed in the meantime:** it waits,
and nobody has it. -/
theorem waiter_lost : ∃ s, exec waitStep watches removeMeetsAdd = some s ∧ s.waiting 1 = true ∧
      (∀ i, s.pc i = .idle) ∧ ¬ OnChain s.next s.head 1 ∧ ¬ Accounted s := by
  obtain ⟨s, hrun, hw, hidle, hon⟩ := exists_of_any waitStep watches removeMeetsAdd
    (fun s => s.waiting 1 = true ∧ (∀ i, s.pc i = .idle) ∧ ¬ OnChain s.next s.head 1)
  refine ⟨s, hrun, hw, hidle, hon, fun hacc => ?_⟩
  rcases hacc 1 hw (fun i => by rw [hidle i]; nofun) with h | ⟨i, -, h⟩
  · exact hon h
  · rw [hidle i] at h
    rcases h with h | h <;> nomatch h

end Makaos.WaitQueue
