import Makaos.Proc.WaitQueue

/-!
The books of a wait queue: which chain every entry hangs off.

* `heads`: the chains are that of the queue and the rest of the private chain of every wake.
* `Books`: the chains end and share no entry, and an entry in the hands of an agent is on none of
  them and in nobody else's hands.
* `Turn`, `turn_of_step`: **what a step does.**
* `Effect`: what it can do to the chains and the hands.
* `exists_effect`: every step in order has one of these effects.
* `Books.effect`: the effects keep the books.
* `Goes`, `goes_of_step`: where one step can lead.
* `Flags`, `flags_of_step`: **what one step can do to the marks and the counts.**
-/

namespace Makaos.WaitQueue

open Option List

open Function (forall_update_iff update update_apply update_comm update_eq_self update_of_ne update_self)
open LinkChain (Chains OnChain)

variable {ι ε : Type*}
variable {e : ε} {p : Pc ε} {a : Act ι ε} {r : RemovePc ε} {k : Kont ε} {q : Pc ε}

/-! ### The books -/

/-- The heads of the chains. -/
def heads (head : Option ε) (pc : ι → Pc ε) : Option ι → Option ε
  | none => head
  | some i => (pc i).rest

lemma heads_update_pc [DecidableEq ι] (head : Option ε) (pc : ι → Pc ε) (i : ι) (q : Pc ε) :
    heads head (update pc i q) = update (heads head pc) (some i) q.rest := by
  funext x
  cases x with
  | none => rfl
  | some j =>
    simp only [heads, update_apply, Option.some.injEq]
    split <;> rfl

lemma heads_update_head [DecidableEq ι] (head x : Option ε) (pc : ι → Pc ε) :
    heads x pc = update (heads head pc) none x := by
  funext y
  cases y <;> simp [heads]

/-- Nothing changes for the chains when the rest of a wake does not. -/
lemma heads_update_of_rest {pc : ι → Pc ε} [DecidableEq ι] (head : Option ε) {i : ι}
    (hrest : q.rest = (pc i).rest) : heads head (update pc i q) = heads head pc := by
  rw [heads_update_pc, hrest]
  exact update_eq_self (some i) (heads head pc)

/-- **Which chain every entry hangs off.** -/
structure Books (next : ε → Option ε) (head : Option ε) (pc : ι → Pc ε)
    (loc : ε → Option (Option ι)) : Prop where
  chains : Chains next (heads head pc) loc
  /-- An entry in somebody's hands is on no chain. -/
  off : ∀ i e, e ∈ (pc i).hands → loc e = none
  /-- No two have it in their hands. -/
  one : ∀ i j e, e ∈ (pc i).hands → e ∈ (pc j).hands → i = j
  nodup : ∀ i, (pc i).hands.Nodup
  /-- An entry about to be pushed leads to the head that was read. -/
  cas : ∀ i e k old, pc i = .add e k (.cas old) → next e = old

namespace Pc

lemma hands_of_pushes (h : p.pushes = some e) : e ∈ p.hands := by
  cases p with
  | add x k a =>
    cases a with
    | cas old => simpa [pushes, hands, eq_comm] using Or.inl h
    | _ => nomatch h
  | _ => nomatch h

/-- The entry at the front of the private chain that the next step takes off. -/
def pops : Pc ε → Option ε
  | .allNext c | .oneSkip c | .oneFired c | .oneRest c _ => some c
  | _ => none

lemma rest_of_pops {c : ε} (h : p.pops = some c) : p.rest = some c := by
  cases p with
  | allNext | oneSkip | oneFired | oneRest => exact h
  | _ => nomatch h

end Pc

namespace Books

variable {next next' : ε → Option ε} {head head' : Option ε} {pc : ι → Pc ε}
  {loc loc' : ε → Option (Option ι)} {i : ι}

lemma notPushes {old : Option ε} (hq : q.pushes = none) (h : q = .add e k (.cas old)) :
    next' e = old := by
  rw [h] at hq
  nomatch hq

section

variable (h : Books next head pc loc)
include h

lemma not_mem_of_ne {j : ι} (he : e ∈ (pc i).hands) (hj : j ≠ i) :
    e ∉ (pc j).hands := fun hej => hj (h.one j i e hej he)

lemma not_mem_of_loc {x : Option ι} (he : loc e = some x) (j : ι) :
    e ∉ (pc j).hands := fun hej => by
  rw [h.off j e hej] at he
  nomatch he

/-- The books after agent `i` has gone on, from what has changed. -/
lemma change [DecidableEq ι]
    (hchains : Chains next' (heads head' (update pc i q)) loc') (hnd : q.hands.Nodup)
    (hq : ∀ e ∈ q.hands, loc' e = none ∧ ∀ j, j ≠ i → e ∉ (pc j).hands)
    (hother : ∀ j, j ≠ i → ∀ e ∈ (pc j).hands, loc' e = none)
    (hcas : ∀ e k old, q = .add e k (.cas old) → next' e = old := by rintro _ _ _ ⟨⟩)
    (hkeep : ∀ j, j ≠ i → ∀ e, (pc j).pushes = some e → next' e = next e := by
      exact fun _ _ _ _ => rfl) :
    Books next' head' (update pc i q) loc' where
  chains := hchains
  off := (forall_update_iff pc fun _ q => ∀ e ∈ q.hands, loc' e = none).mpr
    ⟨fun e he => (hq e he).1, hother⟩
  one j k e hej hek := by
    by_cases hj : j = i <;> by_cases hk : k = i
    · exact hj.trans hk.symm
    · subst hj
      rw [update_self] at hej
      rw [update_of_ne hk] at hek
      exact absurd hek ((hq e hej).2 k hk)
    · subst hk
      rw [update_self] at hek
      rw [update_of_ne hj] at hej
      exact absurd hej ((hq e hek).2 j hj)
    · rw [update_of_ne hj] at hej
      rw [update_of_ne hk] at hek
      exact h.one j k e hej hek
  nodup := (forall_update_iff pc fun _ q => q.hands.Nodup).mpr ⟨hnd, fun j _ => h.nodup j⟩
  cas := by
    refine (forall_update_iff pc fun _ q => ∀ e k old, q = .add e k (.cas old) → next' e = old).mpr
      ⟨hcas, fun j hj e k old hp => ?_⟩
    rw [hkeep j hj e (by rw [hp]; rfl)]
    exact h.cas j e k old hp

lemma update_none_of_hands [DecidableEq ε] {c : ε} {j : ι}
    (he : e ∈ (pc j).hands) : update loc c none e = none := by
  rw [update_apply, h.off j e he, ite_self]

end

end Books

namespace Sys

variable [DecidableEq ι] [DecidableEq ε] (s : Sys ι ε) (i : ι) (p : Pc ε)

lemma goto_pc_self : (s.goto i p).pc i = p := update_self ..

end Sys

section

variable (n : Option ε)
include n

@[simp] lemma allAt_rest : (allAt n).rest = n := by cases n <;> rfl
@[simp] lemma allAt_hands : (allAt n).hands = [] := by cases n <;> rfl
@[simp] lemma oneFrom_rest : (oneFrom n).rest = n := by cases n <;> rfl
@[simp] lemma oneFrom_hands : (oneFrom n).hands = [] := by cases n <;> rfl
@[simp] lemma oneAt_rest (f : ε) : (oneAt n f).rest = n := by cases n <;> rfl
@[simp] lemma oneAt_hands (f : ε) : (oneAt n f).hands = [f] := by cases n <;> rfl

end

@[simp] lemma resume_rest (k : Kont ε) : (resume k).rest = k.rest := by
  cases k with
  | all n => exact allAt_rest n
  | one r f => exact oneAt_rest r f
  | owner | last => rfl
@[simp] lemma resume_hands (k : Kont ε) : (resume k).hands = k.hands := by
  cases k with
  | all n => exact allAt_hands n
  | one r f => exact oneAt_hands r f
  | owner | last => rfl

@[simp] lemma allAt_pushes (n : Option ε) : (allAt n).pushes = none := by cases n <;> rfl
@[simp] lemma oneFrom_pushes (n : Option ε) : (oneFrom n).pushes = none := by cases n <;> rfl
@[simp] lemma oneAt_pushes (n : Option ε) (f : ε) : (oneAt n f).pushes = none := by
  cases n <;> rfl
@[simp] lemma resume_pushes (k : Kont ε) : (resume k).pushes = none := by
  cases k with
  | all n => exact allAt_pushes n
  | one r f => exact oneAt_pushes r f
  | owner | last => rfl

/-! ### What a step can do -/

variable [DecidableEq ι] [DecidableEq ε] {s s' : Sys ι ε}

/-- **What a step of agent `i`, which goes on at `q`, can do to the chains and the hands.** -/
inductive Effect (i : ι) (q : Pc ε) (s s' : Sys ι ε) (loc : ε → Option (Option ι)) :
    (ε → Option (Option ι)) → Prop
  /-- No chain changes; something may be let go. -/
  | stay (hnext : s'.next = s.next) (hhead : s'.head = s.head) (hrest : q.rest = (s.pc i).rest)
      (hhands : q.hands.Sublist (s.pc i).hands) (hq : q.pushes = none)
      (hnot : (s.pc i).unlinks = none) : Effect i q s s' loc loc
  /-- The owner begins to add an entry that nobody has. -/
  | start {e : ε} (hnext : s'.next = s.next) (hhead : s'.head = s.head) (hpc : s.pc i = .idle)
      (hq : q = .add e .owner .dead) (hfree : s.Free e) : Effect i q s s' loc loc
  /-- The `next` of an entry is set before the push. -/
  | store {e : ε} {k : Kont ε} {old : Option ε} (hpc : s.pc i = .add e k (.store old))
      (hq : q = .add e k (.cas old)) (hnext : s'.next = update s.next e old)
      (hhead : s'.head = s.head) : Effect i q s s' loc loc
  /-- An entry is pushed. -/
  | push {e : ε} {k : Kont ε} {old : Option ε} (hpc : s.pc i = .add e k (.cas old))
      (hold : s.head = old) (hq : q = resume k) (hnext : s'.next = s.next)
      (hhead : s'.head = some e) : Effect i q s s' loc (update loc e (some none))
  /-- A wake detaches the queue. -/
  | detach (hpc : s.pc i = .allXchg ∨ s.pc i = .oneXchg) (hrest : q.rest = s.head)
      (hhands : q.hands = []) (hq : q.pushes = none) (hnext : s'.next = s.next)
      (hhead : s'.head = none) : Effect i q s s' loc (Chains.relocate loc none (some (some i)))
  /-- A wake takes the first entry off its private chain. -/
  | pop {c : ε} (hc : (s.pc i).pops = some c) (hrest : q.rest = s.next c)
      (hhands : q.hands.Sublist (c :: (s.pc i).hands)) (hq : q.pushes = none)
      (hnext : s'.next = s.next) (hhead : s'.head = s.head) :
      Effect i q s s' loc (update loc c none)
  /-- The first entry of the queue is unlinked. -/
  | unlinkHead {e : ε} {n : Option ε} (hpc : s.pc i = .remove e (.store .head n))
      (hq : q = .remove e .unlock) (he : s.head = some e) (hnext : s'.next = s.next)
      (hhead : s'.head = s.next e) : Effect i q s s' loc (update loc e none)
  /-- An entry is unlinked from behind `p`. -/
  | unlink {e p : ε} {n : Option ε} (hpc : s.pc i = .remove e (.store (.next p) n))
      (hq : q = .remove e .unlock) (he : s.next p = some e)
      (hpush : ∀ j, (s.pc j).pushes ≠ some p)
      (hnext : s'.next = update s.next p (s.next e)) (hhead : s'.head = s.head) :
      Effect i q s s' loc (if loc p = none then loc else update loc e none)

/-- The agent of a step. -/
def Act.agent : Act ι ε → ι
  | .add i _ | .remove i _ | .wakeAll i | .wakeOne i | .run i | .casFail i => i

/-- **What a step does**: it takes its agent from one place to another, over the last state. -/
inductive Turn (s : Sys ι ε) : Act ι ε → Pc ε → Pc ε → Sys ι ε → Prop
  | addStart (i e) : Turn s (.add i e) .idle (.add e .owner .dead) s
  | removeStart (i e) : Turn s (.remove i e) .idle (.remove e .dead) s
  | allStart (i) : Turn s (.wakeAll i) .idle .allXchg s
  | oneStart (i) : Turn s (.wakeOne i) .idle .oneXchg s
  | casFail (i e k old) : Turn s (.casFail i) (.add e k (.cas old)) (.add e k .load) s
  | casMiss (i e k old) : Turn s (.run i) (.add e k (.cas old)) (.add e k .load) s
  | revive (i e k) : Turn s (.run i) (.add e k .dead) (.add e k .load)
      { s with
        dead := update s.dead e false
        waiting := if k = Kont.owner then update s.waiting e true else s.waiting }
  | load (i e k) : Turn s (.run i) (.add e k .load) (.add e k (.store s.head)) s
  | store (i e k old) : Turn s (.run i) (.add e k (.store old)) (.add e k (.cas old))
      { s with next := update s.next e old }
  | push (i e k) : Turn s (.run i) (.add e k (.cas s.head)) (resume k) { s with head := some e }
  | mark (i e) : Turn s (.run i) (.remove e .dead) (.remove e .lock)
      ({ s with dead := update s.dead e true }.cancel e)
  | lock (i e) (hfree : s.lock = none) :
      Turn s (.run i) (.remove e .lock) (.remove e .head) { s with lock := some i }
  | head (i e) : Turn s (.run i) (.remove e .head) (.remove e (.walk .head s.head)) s
  | walkEnd (i e link) : Turn s (.run i) (.remove e (.walk link none)) (.remove e .unlock) s
  | walkHit (i e link) : Turn s (.run i) (.remove e (.walk link (some e))) (.remove e (.next link)) s
  | walkOn (i e link c) (hne : c ≠ e) : Turn s (.run i) (.remove e (.walk link (some c)))
      (.remove e (.walk (.next c) (s.next c))) s
  | next (i e link) : Turn s (.run i) (.remove e (.next link)) (.remove e (.store link (s.next e))) s
  | unlink (i e link n) : Turn s (.run i) (.remove e (.store link n)) (.remove e .unlock)
      ((s.write n link).cancel e)
  | unlock (i e) : Turn s (.run i) (.remove e .unlock) .idle { s with lock := none }
  | allXchg (i) : Turn s (.run i) .allXchg (allAt s.head) { s with head := none }
  | allNext (i c) : Turn s (.run i) (.allNext c) (.allDead c (s.next c)) s
  | allSkip (i c n) (h : s.dead c = true) : Turn s (.run i) (.allDead c n) (allAt n) s
  | allDead (i c n) (h : s.dead c = false) : Turn s (.run i) (.allDead c n) (.allCall c n) s
  | allKeep (i c n) : Turn s (.run i) (.allCall c n) (.add c (.all n) .dead) (s.call c)
  | allDrop (i c n) (h : (s.func c).keep = false) :
      Turn s (.run i) (.allCall c n) (allAt n) (s.call c)
  | oneXchg (i) : Turn s (.run i) .oneXchg (oneFrom s.head) { s with head := none }
  | oneDead (i c) (h : s.dead c = true) : Turn s (.run i) (.oneDead c) (.oneSkip c) s
  | oneFire (i c) : Turn s (.run i) (.oneDead c) (.oneFired c) s
  | oneSkip (i c) : Turn s (.run i) (.oneSkip c) (oneFrom (s.next c)) s
  | oneFired (i c) : Turn s (.run i) (.oneFired c) (oneAt (s.next c) c) s
  | oneRest (i c f) : Turn s (.run i) (.oneRest c f) (.add c (.one (s.next c) f) .dead) s
  | oneKeep (i f) : Turn s (.run i) (.oneCall f) (.add f .last .dead) (s.call f)
  | oneDrop (i f) (h : (s.func f).keep = false) : Turn s (.run i) (.oneCall f) .idle (s.call f)

section Effects

variable {s s' x : Sys ι ε} {i : ι} {loc : ε → Option (Option ι)}

lemma turn_add (b : AddPc ε) :
    ∃ q x, addRun s i e k b = x.goto i q ∧ Turn s (.run i) (.add e k b) q x := by
  cases b with
  | dead => exact ⟨_, _, rfl, .revive i e k⟩
  | load => exact ⟨_, _, rfl, .load i e k⟩
  | store old => exact ⟨_, _, rfl, .store i e k old⟩
  | cas old =>
    rw [addRun]
    split_ifs with h
    · subst h
      exact ⟨_, _, rfl, .push i e k⟩
    · exact ⟨_, _, rfl, .casMiss i e k old⟩

lemma turn_remove (hrun : removeRun s i e r = some s') :
    ∃ q x, s' = x.goto i q ∧ Turn s (.run i) (.remove e r) q x := by
  cases r with
  | lock =>
    obtain ⟨hfree, hrun⟩ := ite_none_right_eq_some.mp hrun
    cases hrun
    exact ⟨_, _, rfl, .lock i e hfree⟩
  | walk link cur =>
    cases cur with
    | none =>
      cases hrun
      exact ⟨_, _, rfl, .walkEnd i e link⟩
    | some c =>
      simp only [removeRun] at hrun
      split_ifs at hrun with h
      · subst h
        cases hrun
        exact ⟨_, _, rfl, .walkHit i c link⟩
      · cases hrun
        exact ⟨_, _, rfl, .walkOn i e link c h⟩
  | _ =>
    cases hrun
    exact ⟨_, _, rfl, by constructor⟩

/-- **Every step is a turn.** -/
theorem turn_of_step (hs : waitStep s a = some s') :
    ∃ q x, s' = x.goto a.agent q ∧ Turn s a (s.pc a.agent) q x := by
  cases a with
  | add | remove | wakeAll | wakeOne =>
    obtain ⟨hidle, hs⟩ := ite_none_right_eq_some.mp hs
    cases hs
    rw [Act.agent, hidle]
    exact ⟨_, _, rfl, by constructor⟩
  | casFail i =>
    simp only [waitStep] at hs
    split at hs
    case h_2 => cases hs
    case h_1 e k old hp =>
      cases hs
      rw [Act.agent, hp]
      exact ⟨_, _, rfl, .casFail i e k old⟩
  | run i =>
    rw [waitStep] at hs
    rw [Act.agent]
    generalize s.pc i = pc at hs
    cases pc with
    | idle => cases hs
    | add e k b =>
      cases hs
      exact turn_add b
    | remove e r => exact turn_remove hs
    | allDead c n | allCall c n | oneDead c | oneCall c =>
      cases hs
      split
      all_goals exact ⟨_, _, rfl, by constructor <;> simp_all⟩
    | _ =>
      cases hs
      exact ⟨_, _, rfl, by constructor⟩

omit [DecidableEq ι] in
lemma Turn.same (h : Turn s a p q x) : x.pc = s.pc ∧ x.returns = s.returns := by
  cases h with
  | unlink i e link n => cases link <;> exact ⟨rfl, rfl⟩
  | _ => exact ⟨rfl, rfl⟩

/-- Only the agent of a step moves. -/
lemma pc_of_ne (hs : waitStep s a = some s') {j : ι} (hj : j ≠ a.agent) : s'.pc j = s.pc j := by
  obtain ⟨q, x, rfl, ht⟩ := turn_of_step hs
  exact (update_of_ne hj ..).trans (congrFun ht.same.1 j)

lemma Effect.letGo (hp : s.pc i = p) (hnext : s'.next = s.next)
    (hhead : s'.head = s.head) (hrest : q.rest = p.rest) (hhands : q.hands.Sublist p.hands)
    (hq : q.pushes = none) (hnot : p.unlinks = none) : Effect i q s s' loc loc := by
  subst hp
  exact .stay hnext hhead hrest hhands hq hnot

/-- **Every step in order has one of the effects.** -/
theorem exists_effect (loc : ε → Option (Option ι)) (hok : Orderly s a)
    (hs : waitStep s a = some s') :
    ∃ q loc', s'.pc = update s.pc a.agent q ∧ s'.returns = (s.goto a.agent q).returns ∧
      Effect a.agent q s s' loc loc' := by
  obtain ⟨q, x, rfl, ht⟩ := turn_of_step hs
  obtain ⟨hpc, hreturns⟩ := ht.same
  have heffect : ∃ loc', Effect a.agent q s (x.goto a.agent q) loc loc' := by
    generalize hp : s.pc a.agent = p at ht
    cases ht with
    | addStart => exact ⟨_, .start rfl rfl hp rfl hok⟩
    | removeStart | allStart | oneStart | mark | lock | head | walkEnd | walkHit | walkOn | next
    | unlock | oneDrop => exact ⟨_, .letGo hp rfl rfl rfl (nil_sublist _) rfl rfl⟩
    | casFail | casMiss | revive | load | allDead | allKeep | oneDead | oneFire | oneKeep =>
      exact ⟨_, .letGo hp rfl rfl rfl (.refl _) rfl rfl⟩
    | allSkip _ _ n | allDrop _ _ n =>
      exact ⟨_, .letGo hp rfl rfl (allAt_rest n) (by simp) (allAt_pushes n) rfl⟩
    | store => exact ⟨_, .store hp rfl rfl rfl⟩
    | push => exact ⟨_, .push hp rfl rfl rfl rfl⟩
    | allXchg =>
      exact ⟨_, .detach (.inl hp) (allAt_rest _) (allAt_hands _) (allAt_pushes _) rfl rfl⟩
    | oneXchg =>
      exact ⟨_, .detach (.inr hp) (oneFrom_rest _) (oneFrom_hands _) (oneFrom_pushes _) rfl rfl⟩
    | allNext | oneRest =>
      exact ⟨_, .pop (by rw [hp]; rfl) rfl (by rw [hp]; exact .refl _) rfl rfl rfl⟩
    | oneSkip =>
      exact ⟨_, .pop (by rw [hp]; rfl) (oneFrom_rest _) (by simp) (oneFrom_pushes _) rfl rfl⟩
    | oneFired =>
      exact ⟨_, .pop (by rw [hp]; rfl) (oneAt_rest _ _) (by simp) (oneAt_pushes _ _) rfl rfl⟩
    | unlink i e link n =>
      obtain ⟨he, hn, hpush⟩ := hok (e, link, n) (by rw [show s.pc i = _ from hp]; rfl)
      obtain rfl : s.next e = n := hn
      cases link with
      | head => exact ⟨_, .unlinkHead hp rfl he rfl rfl⟩
      | next p => exact ⟨_, .unlink hp rfl he (fun j => hpush j p rfl) rfl rfl⟩
  obtain ⟨loc', he⟩ := heffect
  refine ⟨q, loc', ?_, ?_, he⟩ <;> simp only [Sys.goto, hpc, hreturns]

end Effects

/-! ### The effects keep the books -/

/-- **The effects keep the books.** -/
theorem Books.effect {loc loc' : ε → Option (Option ι)} {i : ι} (h : Books s.next s.head s.pc loc)
    (hpc : s'.pc = update s.pc i q)
    (he : Effect i q s s' loc loc') : Books s'.next s'.head s'.pc loc' := by
  rw [hpc]
  cases he with
  | stay hnext hhead hrest hhands hq _ =>
    rw [hnext, hhead]
    refine h.change ?_ ((h.nodup i).sublist hhands) (fun e hmem => ?_) (fun j _ => h.off j)
      fun e k old => notPushes hq
    · rw [heads_update_of_rest _ hrest]
      exact h.chains
    · have hmem := hhands.subset hmem
      exact ⟨h.off i e hmem, fun j hj => h.not_mem_of_ne hmem hj⟩
  | @start e hnext hhead hidle hq hfree =>
    rw [hnext, hhead]
    subst hq
    have hloc : loc e = none := by
      cases hx : loc e with
      | none => rfl
      | some x =>
        have hon := h.chains.onChain_iff.mpr hx
        cases x with
        | none => exact absurd hon hfree.1
        | some j => exact absurd hon (hfree.2 j).1
    refine h.change ?_ (by simp [Pc.hands, Kont.hands]) (fun x hx => ?_) fun j _ => h.off j
    · rw [heads_update_of_rest _ (by rw [hidle]; rfl)]
      exact h.chains
    · obtain rfl : x = e := by simpa [Pc.hands, Kont.hands] using hx
      exact ⟨hloc, fun j _ => (hfree.2 j).2⟩
  | @store e k old hp hq hnext hhead =>
    rw [hnext, hhead]
    subst hq
    have hhands : (Pc.add e k (.cas old)).hands = (s.pc i).hands := by rw [hp]; rfl
    have hmem : e ∈ (s.pc i).hands := by simp [hp, Pc.hands]
    have hloc := h.off i e hmem
    refine h.change ?_ (hhands ▸ h.nodup i) (fun x hx => ?_) (fun j _ => h.off j)
      (fun x k' old' hx => ?_) (fun j hj x hx => ?_)
    · rw [heads_update_of_rest _ (by rw [hp]; rfl)]
      refine h.chains.frame fun x hx => update_of_ne ?_ _ _
      rintro rfl
      exact hx hloc
    · rw [hhands] at hx
      exact ⟨h.off i x hx, fun j hj => h.not_mem_of_ne hx hj⟩
    · obtain ⟨rfl, -, h'⟩ := Pc.add.inj hx
      obtain rfl := AddPc.cas.inj h'
      exact update_self ..
    · refine update_of_ne ?_ _ _
      rintro rfl
      exact h.not_mem_of_ne hmem hj (Pc.hands_of_pushes hx)
  | @push e k old hp hold hq hnext hhead =>
    rw [hnext, hhead]
    subst hq
    have hhands : (s.pc i).hands = e :: k.hands := by rw [hp]; rfl
    have hmem : e ∈ (s.pc i).hands := by simp [hhands]
    have hnd := h.nodup i
    rw [hhands, nodup_cons] at hnd
    have hoff : ∀ j x, x ∈ (s.pc j).hands → x ≠ e →
        update loc e (some none) x = none := fun j x hx hne => by
      rw [update_of_ne hne]
      exact h.off j x hx
    refine h.change ?_ (by simpa using hnd.2) (fun x hx => ?_) (fun j hj x hx => ?_)
      fun x k' old' => notPushes (resume_pushes k)
    · rw [heads_update_of_rest _ (by rw [hp]; exact resume_rest k),
        heads_update_head s.head (some e) s.pc]
      exact h.chains.push (h.off i e hmem) ((h.cas i e k old hp).trans hold.symm)
    · rw [resume_hands] at hx
      have hx' : x ∈ (s.pc i).hands := by simp [hhands, hx]
      exact ⟨hoff i x hx' fun hxe => hnd.1 (hxe ▸ hx), fun j hj => h.not_mem_of_ne hx' hj⟩
    · exact hoff j x hx fun hxe => h.not_mem_of_ne hmem hj (hxe ▸ hx)
  | detach hp hrest hhands hq hnext hhead =>
    rw [hnext, hhead]
    have hnone : (s.pc i).rest = none := by rcases hp with hp | hp <;> rw [hp] <;> rfl
    refine h.change ?_ (by simp [hhands]) (fun x hx => ?_) (fun j _ x hx => ?_)
      fun x k' old' => notPushes hq
    · have hmove := h.chains.move (i := none) (j := some i) (by simp) hnone
      rwa [heads_update_pc, heads_update_head s.head none s.pc, hrest, update_comm (by simp)]
    · rw [hhands] at hx
      cases hx
    · simp [Chains.relocate, h.off j x hx]
  | @pop c hc hrest hhands hq hnext hhead =>
    rw [hnext, hhead]
    have hc := Pc.rest_of_pops hc
    have hloc : loc c = some (some i) := h.chains.loc_head (i := some i) hc
    have hnd : (c :: (s.pc i).hands).Nodup :=
      nodup_cons.mpr ⟨h.not_mem_of_loc hloc i, h.nodup i⟩
    refine h.change ?_ (hnd.sublist hhands) (fun x hx => ?_)
      (fun j _ x hx => h.update_none_of_hands hx)
      fun x k' old' => notPushes hq
    · rw [heads_update_pc, hrest]
      exact h.chains.pop (i := some i) hc
    · rcases mem_cons.mp (hhands.subset hx) with rfl | hx
      · exact ⟨update_self .., fun j _ => h.not_mem_of_loc hloc j⟩
      · exact ⟨h.update_none_of_hands hx, fun j hj => h.not_mem_of_ne hx hj⟩
  | @unlinkHead e n hp hq hhd hnext hhead =>
    rw [hnext, hhead]
    subst hq
    refine h.change ?_ nodup_nil (by rintro _ ⟨⟩) fun j _ x hx => h.update_none_of_hands hx
    rw [heads_update_of_rest _ (by rw [hp]; rfl), heads_update_head s.head (s.next e) s.pc]
    exact h.chains.pop (i := none) hhd
  | @unlink e p n hp hq hnx hpush hnext hhead =>
    rw [hnext, hhead]
    subst hq
    refine h.change ?_ nodup_nil (by rintro _ ⟨⟩) (fun j _ x hx => ?_)
      (fun x k' old' => notPushes rfl) fun j _ x hx => ?_
    · rw [heads_update_of_rest _ (by rw [hp]; rfl)]
      split_ifs with hloc
      · -- the link is that of an entry on no chain
        refine h.chains.frame fun x hx => update_of_ne ?_ _ _
        rintro rfl
        exact hx hloc
      · obtain ⟨y, hy⟩ := ne_none_iff_exists'.mp hloc
        exact h.chains.unlink hy hnx
    · split
      · exact h.off j x hx
      · exact h.update_none_of_hands hx
    · refine update_of_ne ?_ _ _
      rintro rfl
      exact hpush j hx

/-! ### Where a step leads -/

/-- Not in a call of an owner, and not at an entry to be skipped. -/
def Pc.Plain (p : Pc ε) : Prop := p.owned = none ∧ ∀ c, p ≠ .oneSkip c

section Plain

omit [DecidableEq ε]

lemma allAt_plain (n : Option ε) : (allAt n).Plain := by cases n <;> exact ⟨rfl, nofun⟩
lemma oneFrom_plain (n : Option ε) : (oneFrom n).Plain := by cases n <;> exact ⟨rfl, nofun⟩
lemma oneAt_plain (n : Option ε) (f : ε) : (oneAt n f).Plain := by cases n <;> exact ⟨rfl, nofun⟩

lemma resume_plain (k : Kont ε) : (resume k).Plain := by
  cases k with
  | all n => exact allAt_plain n
  | one r f => exact oneAt_plain r f
  | owner | last => exact ⟨rfl, nofun⟩

end Plain

/-- **Where the step `a` can lead its agent.** -/
inductive Goes (s : Sys ι ε) (a : Act ι ε) : Pc ε → Prop
  | addStart {e : ε} (ha : a = .add a.agent e) : Goes s a (.add e .owner .dead)
  | add {e : ε} {k : Kont ε} {x : AddPc ε} (x' : AddPc ε) (hp : s.pc a.agent = .add e k x) :
      Goes s a (.add e k x')
  | removeStart {e : ε} (ha : a = .remove a.agent e) : Goes s a (.remove e .dead)
  | remove {e : ε} {x : RemovePc ε} (x' : RemovePc ε) (hp : s.pc a.agent = .remove e x) :
      Goes s a (.remove e x')
  | skip {c : ε} (hp : s.pc a.agent = .oneDead c) (hdead : s.dead c = true) : Goes s a (.oneSkip c)
  | plain {q : Pc ε} (hq : q.Plain) : Goes s a q

section GoesOfStep

/-- **Where one step leads its agent.** -/
theorem goes_of_step (hs : waitStep s a = some s') : Goes s a (s'.pc a.agent) := by
  obtain ⟨q, x, rfl, ht⟩ := turn_of_step hs
  rw [Sys.goto_pc_self]
  generalize hp : s.pc a.agent = p at ht
  cases ht with
  | addStart => exact .addStart rfl
  | removeStart => exact .removeStart rfl
  | casFail | casMiss | revive | load | store => exact .add _ hp
  | mark | lock | head | walkEnd | walkHit | walkOn | next | unlink => exact .remove _ hp
  | oneDead i c hdead => exact .skip hp hdead
  | push i e k => exact .plain (resume_plain k)
  | allXchg | allSkip | allDrop => exact .plain (allAt_plain _)
  | oneXchg | oneSkip => exact .plain (oneFrom_plain _)
  | oneFired => exact .plain (oneAt_plain _ _)
  | _ => exact .plain ⟨rfl, nofun⟩

end GoesOfStep

/-! ### The marks and the counts -/

/-- The entry whose marks and counts the next step changes. -/
def Pc.touches : Pc ε → Option ε
  | .add e _ .dead | .remove e .dead | .remove e (.store _ _) | .allCall e _ | .oneCall e => some e
  | _ => none

/-- **What the step of an agent at `p` can do to the marks and the counts.** -/
inductive Flags (s s' : Sys ι ε) (p : Pc ε) : Prop
  | same (hp : p.touches = none) (hdead : s'.dead = s.dead) (hwaiting : s'.waiting = s.waiting)
      (hcalled : s'.called = s.called) (hremovals : s'.removals = s.removals) : Flags s s' p
  /-- The first step of `wq_add`. -/
  | revive (e : ε) (k : Kont ε) (hp : p = .add e k .dead) (hdead : s'.dead = update s.dead e false)
      (hwaiting : s'.waiting = if k = .owner then update s.waiting e true else s.waiting)
      (hcalled : s'.called = s.called) (hremovals : s'.removals = s.removals) : Flags s s' p
  /-- The first step of `wq_remove`. -/
  | mark (e : ε) (hp : p = .remove e .dead) (hdead : s'.dead = update s.dead e true)
      (hwaiting : s'.waiting = update s.waiting e false) (hcalled : s'.called = s.called)
      (hremovals : s'.removals = update s.removals e (s.removals e + 1)) : Flags s s' p
  | unlink (e : ε) (link : Link ε) (n : Option ε) (hp : p = .remove e (.store link n))
      (hdead : s'.dead = s.dead) (hwaiting : s'.waiting = update s.waiting e false)
      (hcalled : s'.called = s.called)
      (hremovals : s'.removals = update s.removals e (s.removals e + 1)) : Flags s s' p
  | call (e : ε) (hp : (∃ n, p = .allCall e n) ∨ p = .oneCall e) (hdead : s'.dead = s.dead)
      (hwaiting : s'.waiting = if (s.func e).keep then s.waiting else update s.waiting e false)
      (hcalled : s'.called = update s.called e (s.called e + 1))
      (hremovals : s'.removals = s.removals) : Flags s s' p

section FlagsOfStep

/-- **What one step can do to the marks and the counts.** -/
theorem flags_of_step (hs : waitStep s a = some s') : Flags s s' (s.pc a.agent) := by
  obtain ⟨q, x, rfl, ht⟩ := turn_of_step hs
  generalize s.pc a.agent = p at ht
  cases ht with
  | revive i e k => exact .revive e k rfl rfl rfl rfl rfl
  | mark i e => exact .mark e rfl rfl rfl rfl rfl
  | unlink i e link n => cases link <;> exact .unlink e _ n rfl rfl rfl rfl rfl
  | allKeep i c n | allDrop i c n => exact .call c (.inl ⟨n, rfl⟩) rfl rfl rfl rfl
  | oneKeep i f | oneDrop i f => exact .call f (.inr rfl) rfl rfl rfl rfl
  | _ => exact .same rfl rfl rfl rfl rfl

end FlagsOfStep

end Makaos.WaitQueue
