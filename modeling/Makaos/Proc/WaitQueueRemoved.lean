import Makaos.Proc.WaitQueueRun

/-!
A removed entry stays removed, as long as no wake pushes back an entry that has been marked.

* `Walks`: while its entry is in the queue, the walk of `wq_remove` is on the way to it.
* `RemInv`: the lock, the marks and the walks.
* `Gone`: after `wq_remove` the entry is marked, not in the queue and not being added.
* `removed_stays`: **in every run in order, once `wq_remove` has returned and the wakes that had the
  entry have returned, it is not in the queue and its callback is not called, until its owner adds
  it.**
* `removed_revived`: a wake that has called the entry pushes it back after its `wq_remove`.
-/

namespace Makaos.WaitQueue

open Function Transition Option WaitQueue.Pc Sys
open LinkChain (Chains OnChain)
open List (replicate)

variable {ι ε : Type*} [DecidableEq ι] [DecidableEq ε] {s s' : Sys ι ε} {a : Act ι ε}
  {loc loc' : ε → Option (Option ι)} {i : ι} {q : Pc ε} {e : ε}
variable {r : ι} {x x' : RemovePc ε}

/-! ### What a step can do to one entry -/

/-- An entry comes into the queue by a push, and onto a private chain from the queue. -/
lemma Effect.loc_from {x : Option ι} (he : Effect i q s s' loc loc') (hloc : loc' e = some x) :
    loc e = some x ∨ (x = some i ∧ loc e = some none) ∨
      (x = none ∧ ∃ k old, s.pc i = .add e k (.cas old) ∧ s.head = old ∧ s'.head = some e) := by
  cases he with
  | stay | start | store => exact .inl hloc
  | @push y k old hp hold _ _ hhead =>
    rcases update_cases hloc with ⟨rfl, hx⟩ | ⟨-, hloc⟩
    · exact .inr (.inr ⟨(some.inj hx).symm, k, old, hp, hold, hhead⟩)
    · exact .inl hloc
  | detach =>
    by_cases hx : loc e = some none
    · rw [Chains.relocate, if_pos hx] at hloc
      exact .inr (.inl ⟨(some.inj hloc).symm, hx⟩)
    · rw [Chains.relocate, if_neg hx] at hloc
      exact .inl hloc
  | pop | unlinkHead => exact .inl (of_update hloc (by simp))
  | unlink =>
    split at hloc
    · exact .inl hloc
    · exact .inl (of_update hloc (by simp))

/-- An entry comes into the hands of an agent from its private chain, or when its owner adds it. -/
lemma Effect.mem_hands (h : Books s.next s.head s.pc loc) (he : Effect i q s s' loc loc')
    (hmem : e ∈ q.hands) : e ∈ (s.pc i).hands ∨ loc e = some (some i) ∨ q.adds = some e := by
  cases he with
  | stay _ _ _ hhands => exact .inl (hhands.subset hmem)
  | @start y _ _ _ hq =>
    subst hq
    obtain rfl : e = y := by simpa [hands, Kont.hands] using hmem
    exact .inr (.inr rfl)
  | store hp hq =>
    subst hq
    exact .inl (by rwa [hp])
  | push hp _ hq =>
    subst hq
    rw [resume_hands] at hmem
    exact .inl (by rw [hp]; exact List.mem_cons_of_mem _ hmem)
  | detach _ _ hhands =>
    rw [hhands] at hmem
    cases hmem
  | pop hc _ hhands =>
    rcases List.mem_cons.mp (hhands.subset hmem) with rfl | hmem
    · exact .inr (.inl (h.chains.loc_head (i := some i) (rest_of_pops hc)))
    · exact .inl hmem
  | unlinkHead _ hq | unlink _ hq =>
    subst hq
    cases hmem

/-- While an entry stays in the queue and nobody unlinks, so does every other one, and the links
stay. -/
lemma Effect.queue_kept (h : Books s.next s.head s.pc loc) (he : Effect i q s s' loc loc')
    (hnot : (s.pc i).unlinks = none) (hloc : loc e = some none) (hloc' : loc' e = some none) {c : ε}
    (hc : loc c = some none) : loc' c = some none ∧ s'.next c = s.next c := by
  cases he with
  | stay hnext | start hnext => exact ⟨hc, by rw [hnext]⟩
  | @store y k old hp _ hnext =>
    refine ⟨hc, ?_⟩
    rw [hnext, update_of_ne]
    rintro rfl
    exact h.not_mem_of_loc hc i (by simp [hp, hands])
  | @push y k old hp _ _ hnext =>
    refine ⟨?_, by rw [hnext]⟩
    rw [update_of_ne]
    · exact hc
    · rintro rfl
      exact h.not_mem_of_loc hc i (by simp [hp, hands])
  | detach => simp [Chains.relocate, hloc] at hloc'
  | @pop y hy _ _ _ hnext =>
    refine ⟨?_, by rw [hnext]⟩
    have hyloc := h.chains.loc_head (i := some i) (rest_of_pops hy)
    rw [update_of_ne]
    · exact hc
    · rintro rfl
      rw [hc] at hyloc
      cases hyloc
  | unlinkHead hp | unlink hp =>
    rw [hp] at hnot
    cases hnot

/-- `wq_remove` changes no chain before its store. -/
lemma Effect.of_remove (he : Effect i q s s' loc loc') (hp : s.pc i = .remove e x)
    (hnot : (s.pc i).unlinks = none) : loc' = loc := by
  cases he with
  | stay | start | store => rfl
  | pop hx | push hx => rw [hp] at hx; nomatch hx
  | detach hx => rw [hp] at hx; rcases hx with hx | hx <;> nomatch hx
  | unlinkHead hx | unlink hx => rw [hx] at hnot; nomatch hnot

section

variable (hs : waitStep s a = some s')
include hs

lemma owned_of_step (ho : (s'.pc a.agent).owned = some e) :
    (s.pc a.agent).owned = some e ∨ a = .add a.agent e ∨ a = .remove a.agent e := by
  have hgoes := goes_of_step hs
  generalize s'.pc a.agent = q at *
  cases hgoes with
  | addStart ha => exact .inr (.inl (some.inj ho ▸ ha))
  | removeStart ha => exact .inr (.inr (some.inj ho ▸ ha))
  | @add x k y y' hp =>
    rw [hp]
    cases k with
    | owner => exact .inl ho
    | _ => nomatch ho
  | remove x' hp =>
    rw [hp]
    exact .inl ho
  | skip => nomatch ho
  | plain hq =>
    rw [hq.1] at ho
    nomatch ho

omit hs in
omit [DecidableEq ε] in
lemma Pc.owned_of_adds {p : Pc ε} (h : p.adds = some e) : p.owned = some e := by
  cases p with
  | add x k a =>
    cases k with
    | owner => exact h
    | _ => nomatch h
  | _ => nomatch h

lemma adds_of_step (ho : (s'.pc i).adds = some e) :
    (s.pc i).adds = some e ∨ a = .add i e := by
  by_cases hi : i = a.agent
  case neg =>
    rw [pc_of_ne hs hi] at ho
    exact .inl ho
  subst hi
  have hgoes := goes_of_step hs
  generalize s'.pc a.agent = q at *
  cases hgoes with
  | addStart ha => exact .inr (some.inj ho ▸ ha)
  | @add x k y y' hp =>
    rw [hp]
    cases k with
    | owner => exact .inl ho
    | _ => nomatch ho
  | removeStart | remove | skip => nomatch ho
  | plain hq =>
    have howned := owned_of_adds ho
    rw [hq.1] at howned
    nomatch howned

lemma remove_of_step (hp : s'.pc a.agent = .remove e x') :
    (a = .remove a.agent e ∧ x' = .dead) ∨ ∃ x t, s.pc a.agent = .remove e x ∧
      s' = t.goto a.agent (.remove e x') ∧ Turn s a (.remove e x) (.remove e x') t := by
  have hgoes := goes_of_step hs
  rw [hp] at hgoes
  cases hgoes with
  | removeStart ha => exact .inl ⟨ha, rfl⟩
  | @remove _ x _ hx =>
    obtain ⟨q, t, rfl, ht⟩ := turn_of_step hs
    obtain rfl : q = .remove e x' := (goto_pc_self ..).symm.trans hp
    exact .inr ⟨x, t, hx, rfl, hx ▸ ht⟩
  | plain hq =>
    have howned := hq.1
    nomatch howned

/-! ### A marked entry -/

/-- A marked entry stays marked until its owner adds it. -/
lemma dead_step (hok : Unrevived s a) (hdead : s.dead e = true)
    (hadds : (s.pc a.agent).adds ≠ some e) : s'.dead e = true := by
  cases flags_of_step hs with
  | same _ hd | unlink _ _ _ _ hd | call _ _ hd => rwa [hd]
  | mark x _ hd => rw [hd, update_apply, hdead, ite_self]
  | revive x k hp hd =>
    by_cases hex : e = x
    · subst hex
      exfalso
      obtain ⟨q, t, -, ht⟩ := turn_of_step hs
      rw [hp] at ht
      cases ht with
      | revive i =>
        have hmust := hok.2 e
        cases k with
        | owner => exact hadds (by rw [hp]; rfl)
        | _ =>
          rw [hmust (by rw [repushes, show s.pc i = _ from hp]; rfl)] at hdead
          nomatch hdead
    · rwa [hd, update_of_ne hex]

end

/-- A marked entry does not come into the queue until its owner adds it. -/
lemma queue_step (h : Inv s loc) (hs : waitStep s a = some s') (hok : Unrevived s a)
    (he : Effect a.agent q s s' loc loc') (hdead : s.dead e = true)
    (hadds : (s.pc a.agent).adds ≠ some e) (hloc : loc' e = some none) : loc e = some none := by
  rcases he.loc_from hloc with hx | ⟨hx, -⟩ | ⟨-, k, old, hp, hold, hhead⟩
  · exact hx
  · nomatch hx
  · obtain ⟨q, t, rfl, ht⟩ := turn_of_step hs
    rw [hp] at ht
    subst hold
    cases ht with
    | push i =>
      exfalso
      have hmust := hok.2 e
      cases k with
      | owner => exact hadds (by rw [hp]; rfl)
      | _ =>
        rw [hmust (by rw [repushes, show s.pc i = _ from hp]; simp)] at hdead
        nomatch hdead
    -- the head has not changed
    | casFail | casMiss => exact h.books.chains.loc_head (i := none) hhead

/-! ### The walk of `wq_remove` -/

/-- `wq_remove` has the lock. -/
def RemovePc.Locked : RemovePc ε → Prop
  | .dead | .lock => False
  | .head | .walk .. | .next _ | .store .. | .unlock => True

/-- The link is that of an entry of the queue. -/
def LinkIn (loc : ε → Option (Option ι)) : Link ε → Prop
  | .head => True
  | .next p => loc p = some none

/-- **While its entry is in the queue, `wq_remove` is on the way to it.** -/
def Walks (s : Sys ι ε) (loc : ε → Option (Option ι)) (e : ε) : RemovePc ε → Prop
  | .dead | .lock | .head => True
  | .walk link cur =>
    (∃ c, cur = some c ∧ loc c = some none ∧ OnChain s.next (some c) e) ∧ LinkIn loc link
  | .next link | .store link _ => LinkIn loc link
  | .unlock => False

omit [DecidableEq ι] [DecidableEq ε] in
lemma Walks.locked (h : ¬ x.Locked) : Walks s loc e x := by
  cases x with
  | dead | lock => trivial
  | _ => exact absurd trivial h

/-- **The lock, the owners, the marks and the walks.** -/
structure RemInv (s : Sys ι ε) (loc : ε → Option (Option ι)) : Prop where
  inv : Inv s loc
  locked : ∀ r e x, s.pc r = .remove e x → x.Locked → s.lock = some r
  single : ∀ i j e, (s.pc i).owned = some e → (s.pc j).owned = some e → i = j
  marked : ∀ r e x, s.pc r = .remove e x → x ≠ .dead → s.dead e = true
  walks : ∀ r e x, s.pc r = .remove e x → loc e = some none → Walks s loc e x

/-- The agent is in a `wq_remove` that has the lock. -/
def Pc.Locks : Pc ε → Prop
  | .remove _ x => x.Locked
  | _ => False

omit [DecidableEq ε] in
lemma Pc.not_locks {p : Pc ε} (h : p.owned = none) : ¬ p.Locks := by
  cases p with
  | remove => nomatch h
  | _ => exact id

/-- The lock is taken when it is free, and given back by who has it. -/
lemma lock_step (hs : waitStep s a = some s') :
    (s'.lock = s.lock ∧ ((s'.pc a.agent).Locks → (s.pc a.agent).Locks)) ∨
      (s.lock = none ∧ s'.lock = some a.agent) ∨
      ((s.pc a.agent).Locks ∧ ¬ (s'.pc a.agent).Locks) := by
  obtain ⟨q, t, rfl, ht⟩ := turn_of_step hs
  rw [goto_pc_self]
  generalize s.pc a.agent = p at ht
  cases ht with
  | lock i e hfree => exact .inr (.inl ⟨hfree, rfl⟩)
  | unlock => exact .inr (.inr ⟨trivial, id⟩)
  | unlink i e link => exact .inl ⟨by cases link <;> rfl, fun _ => trivial⟩
  | head | walkEnd | walkHit | walkOn | next => exact .inl ⟨rfl, fun _ => trivial⟩
  | push i e k => exact .inl ⟨rfl, fun hl => absurd hl (not_locks (resume_plain k).1)⟩
  | allXchg | allSkip | allDrop =>
    exact .inl ⟨rfl, fun hl => absurd hl (not_locks (allAt_plain _).1)⟩
  | oneXchg | oneSkip => exact .inl ⟨rfl, fun hl => absurd hl (not_locks (oneFrom_plain _).1)⟩
  | oneFired => exact .inl ⟨rfl, fun hl => absurd hl (not_locks (oneAt_plain _ _).1)⟩
  | _ => exact .inl ⟨rfl, fun hl => absurd hl id⟩

namespace RemInv

variable (h : RemInv s loc)
include h

omit [DecidableEq ι] [DecidableEq ε] in
lemma lock_of_locks (hl : (s.pc r).Locks) : s.lock = some r := by
  generalize hp : s.pc r = p at hl
  cases p with
  | remove e x => exact h.locked r e x hp hl
  | _ => exact hl.elim

lemma locked_step (hs : waitStep s a = some s') (hp : s'.pc r = .remove e x') (hx : x'.Locked) :
    s'.lock = some r := by
  have hlocks : (s'.pc r).Locks := by rwa [hp]
  by_cases hr : r = a.agent
  · subst hr
    rcases lock_step hs with ⟨hsame, hold⟩ | ⟨-, hnew⟩ | ⟨-, hnot⟩
    · rw [hsame]
      exact h.lock_of_locks (hold hlocks)
    · exact hnew
    · exact absurd hlocks hnot
  · rw [pc_of_ne hs hr] at hlocks
    have hold := h.lock_of_locks hlocks
    rcases lock_step hs with ⟨hsame, -⟩ | ⟨hfree, -⟩ | ⟨hagent, -⟩
    · rwa [hsame]
    · rw [hold] at hfree
      nomatch hfree
    · exact absurd (some.inj (hold.symm.trans (h.lock_of_locks hagent))) hr

lemma single_step (hs : waitStep s a = some s') (hok : Unrevived s a)
    {i j : ι} (hi : (s'.pc i).owned = some e) (hj : (s'.pc j).owned = some e) : i = j := by
  have key : ∀ j, j ≠ a.agent → (s'.pc a.agent).owned = some e → (s'.pc j).owned = some e →
      False := by
    intro j hja ho hj
    rw [pc_of_ne hs hja] at hj
    rcases owned_of_step hs ho with hold | ha | ha
    · exact hja (h.single j a.agent e hj hold)
    · rw [ha] at hok
      exact hok.2 j hj
    · rw [ha] at hok
      exact hok.2 j hj
  by_cases hia : i = a.agent
  · subst hia
    by_contra hne
    exact key j (fun hja => hne hja.symm) hi hj
  · by_cases hja : j = a.agent
    · subst hja
      exact absurd (key i hia hj hi) id
    · rw [pc_of_ne hs hia] at hi
      rw [pc_of_ne hs hja] at hj
      exact h.single i j e hi hj

omit [DecidableEq ι] [DecidableEq ε] in
/-- Another agent is not adding the entry as its owner. -/
lemma adds_ne (hp : s.pc r = .remove e x) : (s.pc i).adds ≠ some e := by
  intro hadds
  obtain rfl := h.single i r e (owned_of_adds hadds) (by rw [hp]; rfl)
  rw [hp] at hadds
  nomatch hadds

lemma marked_step (hs : waitStep s a = some s') (hok : Unrevived s a)
    (hp : s'.pc r = .remove e x') (hx : x' ≠ .dead) : s'.dead e = true := by
  by_cases hr : r = a.agent
  · subst hr
    rcases remove_of_step hs hp with ⟨-, rfl⟩ | ⟨x, t, hpx, rfl, ht⟩
    · exact absurd rfl hx
    · by_cases hxd : x = .dead
      · subst hxd
        cases ht
        simp [goto, cancel]
      · exact dead_step hs hok (h.marked _ _ _ hpx hxd) (h.adds_ne hpx)
  · rw [pc_of_ne hs hr] at hp
    exact dead_step hs hok (h.marked r e x' hp hx) (h.adds_ne hp)

/-- The step of another agent leaves the walk on its way. -/
lemma walks_other (he : Effect i q s s' loc loc') (hr : r ≠ i) (hp : s.pc r = .remove e x)
    (hloc : loc e = some none) (hloc' : loc' e = some none) : Walks s' loc' e x := by
  have hw := h.walks r e x hp hloc
  by_cases hx : x.Locked
  case neg => exact Walks.locked hx
  -- the lock keeps other removers away
  have hnot : (s.pc i).unlinks = none := by
    cases hu : s.pc i with
    | remove y z =>
      cases z with
      | store link n =>
        have hi := h.locked i y _ hu trivial
        exact absurd (some.inj ((h.locked r e x hp hx).symm.trans hi)) hr
      | _ => rfl
    | _ => rfl
  have hkept : ∀ c, loc c = some none → loc' c = some none ∧ s'.next c = s.next c :=
    fun c hc => he.queue_kept h.inv.books hnot hloc hloc' hc
  have hlink : ∀ link, LinkIn loc link → LinkIn loc' link := by
    intro link hl
    cases link with
    | head => trivial
    | next p => exact (hkept p hl).1
  cases x with
  | dead | lock | head => trivial
  | walk link cur =>
    obtain ⟨⟨c, hcur, hc, hon⟩, hl⟩ := hw
    refine ⟨⟨c, hcur, (hkept c hc).1, ?_⟩, hlink link hl⟩
    refine h.inv.books.chains.onChain_frame (fun y hy => (hkept y hy).2) (fun y hy => ?_) hon
    rwa [← some.inj hy]
  | next link | store link => exact hlink link hw
  | unlock => exact hw

lemma walks_self {t : Sys ι ε} (he : Effect i q s s' loc loc') (hp : s.pc i = .remove e x)
    (hs' : s' = t.goto i (.remove e x')) (ht : Turn s a (.remove e x) (.remove e x') t)
    (hloc : loc e = some none) (hloc' : loc' e = some none) : Walks s' loc' e x' := by
  have hw := h.walks i e x hp hloc
  have hstay : (s.pc i).unlinks = none → loc' = loc := he.of_remove hp
  subst hs'
  cases ht with
  | mark | lock => trivial
  | head =>
    obtain rfl := hstay (by rw [hp]; rfl)
    -- the walk begins at the head, and the entry can be reached from there
    have hon : OnChain s.next s.head e := (h.inv.books.chains.onChain_iff (i := none)).mpr hloc
    cases hhd : s.head with
    | none =>
      rw [hhd] at hon
      nomatch hon
    | some c =>
      rw [hhd] at hon
      exact ⟨⟨c, rfl, h.inv.books.chains.loc_head (i := none) hhd, hon⟩, trivial⟩
  | walkEnd =>
    obtain ⟨⟨c, hc, -⟩, -⟩ := hw
    nomatch hc
  | walkHit =>
    obtain rfl := hstay (by rw [hp]; rfl)
    exact hw.2
  | walkOn _ _ link c hne =>
    obtain ⟨⟨_, ⟨⟩, hc, hon⟩, hl⟩ := hw
    obtain rfl := hstay (by rw [hp]; rfl)
    cases hon with
    | head => exact absurd rfl hne
    | tail hon =>
      cases hn : s.next c with
      | none =>
        rw [hn] at hon
        nomatch hon
      | some d =>
        rw [hn] at hon
        exact ⟨⟨d, rfl, h.inv.books.chains.loc_link hc hn, hon⟩, hc⟩
  | next =>
    obtain rfl := hstay (by rw [hp]; rfl)
    exact hw
  | unlink _ _ link n =>
    -- the store takes the entry out of the queue
    exfalso
    cases he with
    | unlinkHead hx =>
      rw [hp] at hx
      obtain ⟨rfl, -⟩ := remove.inj hx
      rw [update_self] at hloc'
      nomatch hloc'
    | @unlink y p m hx =>
      rw [hp] at hx
      obtain ⟨rfl, hstore⟩ := remove.inj hx
      obtain ⟨rfl, -⟩ := RemovePc.store.inj hstore
      have hin : loc p = some none := hw
      rw [if_neg (by rw [hin]; nofun), update_self] at hloc'
      nomatch hloc'
    | stay _ _ _ _ _ hx => rw [hp] at hx; nomatch hx
    | start _ _ hx | store hx | push hx | pop hx => rw [hp] at hx; nomatch hx
    | detach hx => rw [hp] at hx; rcases hx with hx | hx <;> nomatch hx

lemma walks_step (hs : waitStep s a = some s') (hok : Unrevived s a)
    (he : Effect a.agent q s s' loc loc') (hp : s'.pc r = .remove e x')
    (hloc' : loc' e = some none) : Walks s' loc' e x' := by
  by_cases hr : r = a.agent
  · subst hr
    rcases remove_of_step hs hp with ⟨-, rfl⟩ | ⟨x, t, hpx, hs', ht⟩
    · trivial
    · refine h.walks_self he hpx hs' ht ?_ hloc'
      rcases he.loc_from hloc' with hx | ⟨hx, -⟩ | ⟨-, k, old, hx, -⟩
      · exact hx
      · nomatch hx
      · rw [hpx] at hx
        nomatch hx
  · rw [pc_of_ne hs hr] at hp
    by_cases hx : x' = .dead
    · subst hx
      trivial
    · have hdead := h.marked r e x' hp hx
      exact h.walks_other he hr hp (queue_step h.inv hs hok he hdead (h.adds_ne hp) hloc') hloc'

/-- **A step in order keeps the lock, the owners, the marks and the walks.** -/
theorem step (hok : Unrevived s a) (hs : waitStep s a = some s') :
    ∃ q loc', s'.pc = update s.pc a.agent q ∧ Effect a.agent q s s' loc loc' ∧ RemInv s' loc' := by
  obtain ⟨q, loc', hpc, he, hinv⟩ := h.inv.step hok.1 hs
  exact ⟨q, loc', hpc, he,
    { inv := hinv
      locked := fun _ _ _ => h.locked_step hs
      single := fun _ _ _ => h.single_step hs hok
      marked := fun _ _ _ => h.marked_step hs hok
      walks := fun _ _ _ => h.walks_step hs hok he }⟩

end RemInv

lemma exec_remInv {next : ε → Option ε} {dead : ε → Bool} {func : ε → Func} {acts : List (Act ι ε)}
    (hrun : exec waitStep (boot next dead func) acts = some s)
    (hok : Meets waitStep Unrevived (boot next dead func) acts) : ∃ loc, RemInv s loc := by
  have hboot : RemInv (boot next dead func : Sys ι ε) fun _ => none :=
    { inv := boot_inv next dead func
      locked := nofun
      single := nofun
      marked := nofun
      walks := nofun }
  refine exec_invariant (I := fun s => ∃ loc, RemInv s loc) ?_ hrun hok ⟨_, hboot⟩
  rintro s a s' ⟨loc, h⟩ ha hs
  obtain ⟨-, loc', -, -, h'⟩ := h.step ha hs
  exact ⟨loc', h'⟩

/-! ### After `wq_remove` -/

/-- **The entry is marked, not in the queue and not being added.** -/
structure Gone (s : Sys ι ε) (loc : ε → Option (Option ι)) (e : ε) : Prop where
  rem : RemInv s loc
  dead : s.dead e = true
  out : loc e ≠ some none
  adds : ∀ i, (s.pc i).adds ≠ some e

namespace Gone

omit [DecidableEq ι] [DecidableEq ε] in
lemma not_onChain (h : Gone s loc e) : ¬ OnChain s.next s.head e := fun hon =>
  h.out ((h.rem.inv.books.chains.onChain_iff (i := none)).mp hon)

lemma of_return (h : RemInv s loc) (hok : Unrevived s (.run r)) (hp : s.pc r = .remove e .unlock)
    (hs : waitStep s (.run r) = some s') : ∃ loc', Gone s' loc' e := by
  obtain ⟨q, loc', -, he, h'⟩ := h.step hok hs
  have hdead : s.dead e = true := h.marked r e _ hp nofun
  refine ⟨loc', h', dead_step hs hok hdead (h.adds_ne hp), fun hloc => ?_, fun i hadds => ?_⟩
  · have hold := queue_step h.inv hs hok he hdead (h.adds_ne hp) hloc
    exact h.walks r e _ hp hold
  · rcases adds_of_step hs hadds with hadds | ha
    · exact h.adds_ne hp hadds
    · nomatch ha

/-- **It stays so until the owner adds it, and nobody new gets hold of it.** -/
lemma step (h : Gone s loc e) (hok : Unrevived s a) (hown : ∀ i, a ≠ .add i e)
    (hs : waitStep s a = some s') :
    (∃ loc', Gone s' loc' e) ∧ ∀ i, s'.InWake i e → s.InWake i e := by
  obtain ⟨q, loc', hpc, he, h'⟩ := h.rem.step hok hs
  have hbooks := h.rem.inv.books
  refine ⟨⟨loc', h', dead_step hs hok h.dead (h.adds _), fun hloc => ?_, fun i hadds => ?_⟩,
    fun i hin => ?_⟩
  · exact h.out (queue_step h.rem.inv hs hok he h.dead (h.adds _) hloc)
  · exact (adds_of_step hs hadds).elim (h.adds i) (hown i)
  · obtain ⟨hnone, hin⟩ := hin
    have hwake : (OnChain s.next (s.pc i).rest e ∨ e ∈ (s.pc i).hands) := by
      rcases hin with hon | hmem
      · have hon := (h'.inv.books.chains.onChain_iff (i := some i)).mp hon
        rcases he.loc_from hon with hloc | ⟨-, hloc⟩ | ⟨hx, -⟩
        · exact .inl ((hbooks.chains.onChain_iff (i := some i)).mpr hloc)
        · exact absurd hloc h.out
        · nomatch hx
      · by_cases hi : i = a.agent
        · subst hi
          rw [hpc, update_self] at hmem hnone
          rcases he.mem_hands hbooks hmem with hmem | hloc | hadds
          · exact .inr hmem
          · exact .inl ((hbooks.chains.onChain_iff (i := some a.agent)).mpr hloc)
          · rw [hnone] at hadds
            nomatch hadds
        · rw [pc_of_ne hs hi] at hmem
          exact .inr hmem
    refine ⟨?_, hwake⟩
    -- whoever is adding an entry has no other
    by_contra hne
    obtain ⟨x, hx⟩ := ne_none_iff_exists'.mp hne
    obtain ⟨hrest, hhands⟩ := of_adds hx
    rw [hrest, hhands] at hwake
    rcases hwake with hwake | hwake
    · nomatch hwake
    · exact h.adds i (List.mem_singleton.mp hwake ▸ hx)

end Gone

omit [DecidableEq ι] [DecidableEq ε] in
lemma Sys.InWake.not_idle (h : s.InWake i e) : s.pc i ≠ .idle := by
  intro hidle
  rw [InWake, hidle] at h
  rcases h.2 with h | h <;> nomatch h

/-- A call returns when its agent becomes idle. -/
lemma returns_step (hok : Orderly s a) (hs : waitStep s a = some s') (hp : s'.pc i ≠ .idle) :
    s'.returns i = s.returns i := by
  obtain ⟨q, -, hpc, hreturns, -⟩ := exists_effect (fun _ => none) hok hs
  rw [hreturns, goto]
  split
  case isFalse => rfl
  case isTrue hq =>
      refine update_of_ne ?_ _ _
      rintro rfl
      rw [hpc, update_self] at hp
      exact hp hq

lemma called_step (hs : waitStep s a = some s') (hno : ∀ i, ¬ s.InWake i e) :
    s'.called e = s.called e := by
  cases flags_of_step hs with
  | same _ _ _ hc | revive _ _ _ _ _ hc | mark _ _ _ _ hc | unlink _ _ _ _ _ _ hc => rw [hc]
  | call x hp _ _ hc =>
    rw [hc, update_of_ne]
    rintro rfl
    refine hno a.agent ?_
    rcases hp with ⟨n, hp⟩ | hp <;> rw [InWake, hp]
    all_goals exact ⟨rfl, .inr (List.mem_singleton_self _)⟩

/-- **In every run in order a removed entry stays removed:** once its `wq_remove` has returned, and
the wakes that had the entry then have returned, it is not in the queue and its callback is not
called, as long as its owner does not add it. -/
theorem removed_stays {next : ε → Option ε} {dead : ε → Bool} {func : ε → Func}
    {acts acts₁ acts₂ : List (Act ι ε)} {s₁ s₂ s₃ : Sys ι ε} {r : ι}
    (hrun : exec waitStep (boot next dead func) acts = some s)
    (hok : Meets waitStep Unrevived (boot next dead func) acts) (hp : s.pc r = .remove e .unlock)
    (hs₁ : waitStep s (.run r) = some s₁) (hrun₂ : exec waitStep s₁ acts₁ = some s₂)
    (hok₂ : Meets waitStep Unrevived s₁ acts₁) (hown₂ : ∀ a ∈ acts₁, ∀ i, a ≠ .add i e)
    (hdone : ∀ i, s₁.InWake i e → s₁.returns i < s₂.returns i)
    (hrun₃ : exec waitStep s₂ acts₂ = some s₃) (hok₃ : Meets waitStep Unrevived s₂ acts₂)
    (hown₃ : ∀ a ∈ acts₂, ∀ i, a ≠ .add i e) :
    ¬ OnChain s₃.next s₃.head e ∧ s₃.called e = s₂.called e := by
  obtain ⟨loc, h⟩ := exec_remInv hrun hok
  have hok1 : Unrevived s (.run r) := by
    refine ⟨fun x hx => ?_, fun x hx => ?_⟩
    · rw [hp] at hx
      nomatch hx
    · simp [repushes, hp] at hx
  obtain ⟨loc1, h1⟩ := Gone.of_return h hok1 hp hs₁
  -- until the wakes have returned: whoever has the entry had it, and has not returned
  obtain ⟨⟨loc2, h2⟩, hhad⟩ := exec_invariant
    (I := fun t => (∃ loc', Gone t loc' e) ∧
      ∀ i, t.InWake i e → s₁.InWake i e ∧ t.returns i = s₁.returns i)
    (fun ⟨⟨_, ht⟩, hhad⟩ hb hstep => by
      obtain ⟨hgone, hin⟩ := ht.step hb.1 hb.2 hstep
      refine ⟨hgone, fun i hi => ⟨(hhad i (hin i hi)).1, ?_⟩⟩
      rw [returns_step hb.1.1 hstep hi.not_idle]
      exact (hhad i (hin i hi)).2)
    hrun₂ (meets_and hok₂ hown₂) ⟨⟨loc1, h1⟩, fun i hi => ⟨hi, rfl⟩⟩
  have hnobody : ∀ i, ¬ s₂.InWake i e := fun i hi => by
    obtain ⟨hold, hsame⟩ := hhad i hi
    exact absurd (hdone i hold) (by omega)
  -- from then on nobody has it
  obtain ⟨⟨loc3, h3⟩, -, hcalled⟩ := exec_invariant
    (I := fun t => (∃ loc', Gone t loc' e) ∧ (∀ i, ¬ t.InWake i e) ∧ t.called e = s₂.called e)
    (fun ⟨⟨_, ht⟩, hno, hcalled⟩ hb hstep => by
      obtain ⟨hgone, hin⟩ := ht.step hb.1 hb.2 hstep
      exact ⟨hgone, fun i hi => hno i (hin i hi), (called_step hstep hno).trans hcalled⟩)
    hrun₃ (meets_and hok₃ hown₃) ⟨⟨loc2, h2⟩, hnobody, rfl⟩
  exact ⟨h3.not_onChain, hcalled⟩

/-! ### Two runs -/

/-- An entry is added, a wake detaches the queue, and `wq_remove` of the entry comes to its end. -/
def wakeThenRemove : List (Act (Fin 2) (Fin 2)) := List.flatten
  [[.add 0 0], replicate 4 (.run 0), [.wakeAll 1, .run 1, .remove 0 0], replicate 4 (.run 0)]

/-- The wake finds the mark and returns, and another wake follows. -/
theorem removed_stays_wakeThenRemove : ∃ s s₁ s₂ s₃, exec waitStep watches wakeThenRemove = some s ∧
      waitStep s (.run 0) = some s₁ ∧ s₁.InWake 1 0 ∧
      exec waitStep s₁ (replicate 2 (.run 1)) = some s₂ ∧
      exec waitStep s₂ [.wakeAll 0, .run 0] = some s₃ ∧
      ¬ OnChain s₃.next s₃.head 0 ∧ s₃.called 0 = s₂.called 0 := by
  obtain ⟨s, hrun, hp, hnext⟩ := exists_of_any waitStep watches wakeThenRemove
    (fun s => s.pc 0 = .remove 0 .unlock ∧
      (exec waitStep s [.run 0]).any (fun s₁ => decide (s₁.InWake 1 0 ∧
        Meets waitStep Unrevived s₁ (replicate 2 (.run 1)) ∧
        (exec waitStep s₁ (replicate 2 (.run 1))).any (fun s₂ => decide (
          (∀ i, s₁.InWake i 0 → s₁.returns i < s₂.returns i) ∧
          Meets waitStep Unrevived s₂ [.wakeAll 0, .run 0] ∧
          (exec waitStep s₂ [.wakeAll 0, .run 0]).any (fun _ => true) = true)) =
            true)) = true)
  obtain ⟨s₁, hrun1, hin, hok2, hnext⟩ := exists_of_any _ _ _ _ hnext
  obtain ⟨s₂, hrun2, hdone, hok3, hnext⟩ := exists_of_any _ _ _ _ hnext
  obtain ⟨s₃, hrun3, -⟩ := exists_of_any waitStep s₂ _ (fun _ => True) (by simpa using hnext)
  obtain ⟨t, hs1, hnil⟩ := exec_cons hrun1
  obtain rfl := some.inj hnil
  exact ⟨s, t, s₂, s₃, hrun, hs1, hin, hrun2, hrun3, removed_stays hrun (by decide +kernel) hp hs1
    hrun2 hok2 (by decide) hdone hrun3 hok3 (by decide)⟩

/-- A wake has found the entry unmarked when `wq_remove` marks it, does not find it in the queue and
returns; then the wake calls the entry, pushes it back and returns. -/
def removeThenPushBack : List (Act (Fin 2) (Fin 2)) := List.flatten
  [[.add 0 0], replicate 4 (.run 0), [.wakeAll 1], replicate 3 (.run 1), [.remove 0 0],
    replicate 5 (.run 0), replicate 5 (.run 1)]

/-- **The entry is back in the queue after its `wq_remove` and the wake that had it have returned,
unmarked, and the next wake calls it.** -/
theorem removed_revived : ∃ s s', exec waitStep watches removeThenPushBack = some s ∧
      (∀ i, s.pc i = .idle) ∧ s.removals 0 = 1 ∧ OnChain s.next s.head 0 ∧
      exec waitStep s (.wakeAll 0 :: replicate 4 (.run 0)) = some s' ∧
      s'.called 0 = s.called 0 + 1 := by
  obtain ⟨s, hrun, hidle, hremoved, hon, hnext⟩ := exists_of_any waitStep watches
    removeThenPushBack
    (fun s => (∀ i, s.pc i = .idle) ∧ s.removals 0 = 1 ∧ OnChain s.next s.head 0 ∧
      (exec waitStep s (.wakeAll 0 :: replicate 4 (.run 0))).any (fun s' =>
        decide (s'.called 0 = s.called 0 + 1)) = true)
  obtain ⟨s', hrun', hcalled⟩ := exists_of_any _ _ _ _ hnext
  exact ⟨s, s', hrun, hidle, hremoved, hon, hrun', hcalled⟩

end Makaos.WaitQueue
