import Makaos.Lib.Transition

/-!
The completion ring of an io_uring: `io_uring_post_cqe` with its overflow list, the user who takes
the completions, and the callers of `io_uring_enter` who wait for them (io/io_uring.c) with `WAIT_EVENT`
(wait.h) on a queue whose unlink is a plain store (wait.c).

* `cqStep`: the steps; the user may take a completion at any time.
* `Unparked`, `completions_delivered`: **when completions come in the order in which they were posted,
  and nobody sleeps while enough of them are there.**
* `overtaken_and_parked`: a completion that overtakes another one, and a caller who sleeps while one
  is on the overflow list of an empty ring.
-/

namespace Makaos.UringCq

open Function Transition Option List

variable {ι : Type*}

/-- Where a caller who waits for `m` completions is. -/
inductive Pc (ι : Type*) where
  | idle
  /-- `WAIT_EVENT` tests the condition, adds its entry to the queue and tests again. -/
  | test (m : ℕ) | add (m : ℕ) | retest (m : ℕ)
  /-- Calls `sched_sleep`. -/
  | sleep (m : ℕ)
  | asleep (m : ℕ)
  /-- `wq_remove` marks the entry, looks for it, and stores what followed it. -/
  | remove (m : ℕ) | find (m : ℕ) | unlink (m : ℕ) (atHead : Bool) (rest : List ι)
  deriving DecidableEq

/-- The completion ring, its posters and its callers. -/
structure Sys (ι : Type*) where
  ring : List ℕ
  overflow : List ℕ
  /-- For the specification only: the completions taken, and all that were posted. -/
  taken : List ℕ
  posted : List ℕ
  /-- The completion being posted, and whether the loop that empties the overflow list is over. -/
  posting : Option (ℕ × Bool)
  /-- The posters that have still to call `wait_queue_wake_all`. -/
  unwoken : ℕ
  queue : List ι
  /-- The entries that a wake has taken out of the queue and not yet called. -/
  detached : List ι
  dead : ι → Bool
  /-- `wake_pending`. -/
  pending : ι → Bool
  remover : Option ι
  pc : ι → Pc ι

inductive Act (ι : Type*) where
  /-- A poster takes `cq_lock`. -/
  | lock (q : ℕ)
  /-- It moves an entry of the overflow list into the ring, or leaves the loop. -/
  | drain | leave
  /-- It stores its own completion and gives the lock back, and then takes the list of waiters. -/
  | store | exchange
  /-- A wake calls an entry; `stir`: `sched_wake` from elsewhere. -/
  | call (t : ι) | stir (t : ι)
  /-- The user takes a completion. -/
  | take
  | enter (t : ι) (m : ℕ)
  /-- The next step of a caller. -/
  | run (t : ι)

/-- The completions that are there, with those on the overflow list while the ring has room. -/
def present (n ring overflow : ℕ) : ℕ := if ring < n then ring + overflow else ring

variable [DecidableEq ι]

namespace Sys

/-- `sched_wake`. -/
def wake (s : Sys ι) (t : ι) : Sys ι :=
  match s.pc t with
  | .asleep m => { s with pc := update s.pc t (.remove m) }
  | _ => { s with pending := update s.pending t true }

/-- The next step of a caller. -/
def run (s : Sys ι) (t : ι) : Option (Sys ι) :=
  match s.pc t with
  | .idle | .asleep _ => none
  | .test m => some { s with pc := update s.pc t (if m ≤ s.ring.length then .idle else .add m) }
  | .add m =>
    some { s with
      queue := t :: s.queue
      dead := update s.dead t false
      pc := update s.pc t (.retest m) }
  | .retest m =>
    some { s with pc := update s.pc t (if m ≤ s.ring.length then .remove m else .sleep m) }
  | .sleep m =>
    if s.pending t then
      some { s with pending := update s.pending t false, pc := update s.pc t (.remove m) }
    else some { s with pc := update s.pc t (.asleep m) }
  | .remove m => some { s with dead := update s.dead t true, pc := update s.pc t (.find m) }
  | .find m =>
    if s.remover ≠ none then none
    else if t ∈ s.queue then
      let rest := s.queue.drop (s.queue.idxOf t + 1)
      some { s with
        remover := some t
        pc := update s.pc t (.unlink m (s.queue.head? = some t) rest) }
    else some { s with pc := update s.pc t (.test m) }
  | .unlink m atHead rest =>
    -- what was added or taken since is not seen by a store to the head
    some { s with
      queue := if atHead then rest else s.queue.erase t
      remover := none
      pc := update s.pc t (.test m) }

end Sys

/-- One step, for a ring of `n` entries. -/
def cqStep (n : ℕ) (s : Sys ι) : Act ι → Option (Sys ι)
  | .lock q =>
    if s.posting = none then some { s with posting := some (q, false), posted := s.posted ++ [q] }
    else none
  | .drain =>
    match s.posting, s.overflow with
    | some (_, false), e :: l =>
      if s.ring.length < n then some { s with ring := s.ring ++ [e], overflow := l } else none
    | _, _ => none
  | .leave =>
    match s.posting with
    | some (q, false) =>
      if s.overflow = [] ∨ n ≤ s.ring.length then some { s with posting := some (q, true) } else none
    | _ => none
  | .store =>
    match s.posting with
    | some (q, true) =>
      if s.ring.length < n then
        some { s with ring := s.ring ++ [q], posting := none, unwoken := s.unwoken + 1 }
      else some { s with overflow := s.overflow ++ [q], posting := none, unwoken := s.unwoken + 1 }
    | _ => none
  | .exchange =>
    if s.unwoken = 0 then none
    else
      some { s with
        unwoken := s.unwoken - 1
        detached := s.detached ++ s.queue
        queue := [] }
  | .call t =>
    if t ∈ s.detached then
      let s' := { s with detached := s.detached.erase t }
      some (if s.dead t then s' else s'.wake t)
    else none
  | .stir t => some (s.wake t)
  | .take =>
    match s.ring with
    | [] => none
    | e :: l => some { s with ring := l, taken := s.taken ++ [e] }
  | .enter t m => if s.pc t = .idle then some { s with pc := update s.pc t (.test m) } else none
  | .run t => s.run t

/-- The caller sleeps, or will. -/
def Pc.waits : Pc ι → Option ℕ
  | .sleep m | .asleep m => some m
  | _ => none

/-- What a caller relies on: it goes to sleep only if nothing is parked or the ring is full, its
entry is added only when no wake has it, and an unlink at the head finds the list that it has read. -/
def Sys.Undisturbed (n : ℕ) (s : Sys ι) (t : ι) : Pc ι → Prop
  | .retest m => s.ring.length < m → s.overflow = [] ∨ n ≤ s.ring.length
  | .add _ => t ∉ s.detached
  | .unlink _ true rest => s.queue = t :: rest
  | _ => True

instance (n : ℕ) (s : Sys ι) (t : ι) : DecidablePred (s.Undisturbed n t)
  | .retest _ => inferInstanceAs (Decidable (_ → _))
  | .add _ => inferInstanceAs (Decidable (_ ∉ _))
  | .unlink _ true _ => inferInstanceAs (Decidable (_ = _))
  | .unlink _ false _ | .idle | .test _ | .sleep _ | .asleep _ | .remove _ | .find _ =>
    isTrue trivial

/-- Besides, while completions are parked, the user takes none with a poster between its two tests or
with a caller asleep. -/
def Unparked (n : ℕ) (s : Sys ι) : Act ι → Prop
  | .take => s.overflow ≠ [] → (∀ p ∈ s.posting, p.2 = false) ∧ ∀ t, (s.pc t).waits = none
  | .run t => s.Undisturbed n t (s.pc t)
  | _ => True

instance [Fintype ι] (n : ℕ) : DecidableRel (Unparked (ι := ι) n)
  | _, .take => inferInstanceAs (Decidable (_ → _))
  | s, .run t => inferInstanceAs (Decidable (s.Undisturbed n t _))
  | _, .lock _ | _, .drain | _, .leave | _, .store | _, .exchange | _, .call _ | _, .stir _
  | _, .enter .. => isTrue trivial

/-! ### The invariant -/

variable {n : ℕ} {s s' : Sys ι} {t u : ι} {m : ℕ} {a : Act ι} {A : List (Act ι)}

/-- The entry of the caller has been added. -/
def Pc.added : Pc ι → Bool
  | .retest _ | .sleep _ | .asleep _ => true
  | _ => false

/-- A caller who has added its entry is in reach of a wake, and one who sleeps for what is there has
been woken, or will be. -/
structure Reached (n : ℕ) (s : Sys ι) (t : ι) : Prop where
  live : (s.pc t).added = true → s.dead t = false
  listed : (s.pc t).added = true → s.pending t = true ∨ t ∈ s.detached ∨ t ∈ s.queue
  asleep : ∀ m, s.pc t = .asleep m → s.pending t = false
  few : ∀ m, (s.pc t).waits = some m → s.pending t = true ∨ t ∈ s.detached ∨
    (s.unwoken = 0 → present n s.ring.length s.overflow.length < m)

/-- The completions are in order, and no caller sleeps for what is there. -/
structure Inv (n : ℕ) (s : Sys ι) : Prop where
  order : s.taken ++ s.ring ++ s.overflow ++ s.posting.toList.map Prod.fst = s.posted
  /-- A poster behind the loop that stores into the ring finds nothing parked. -/
  emptied : ∀ p ∈ s.posting, p.2 = true → s.overflow = [] ∨ n ≤ s.ring.length
  reached : ∀ t, Reached n s t

omit [DecidableEq ι] in
lemma Pc.added_of_waits {p : Pc ι} (h : p.waits = some m) : p.added = true := by
  cases p <;> simp_all [Pc.waits, Pc.added]

omit [DecidableEq ι] in
/-- What a caller keeps while it does not move: its entry stays in reach, and there is no more for it
than there was. -/
lemma Reached.frame (h : Reached n s u) (hpc : s'.pc u = s.pc u := by rfl)
    (hdead : s'.dead u = s.dead u := by rfl) (w : s'.pending u = s.pending u := by rfl)
    (x : u ∈ s.detached → u ∈ s'.detached := by exact id)
    (q : u ∈ s.queue → u ∈ s'.queue := by exact id)
    (f : ∀ m, (s.pc u).waits = some m →
      (s.unwoken = 0 → present n s.ring.length s.overflow.length < m) →
      s'.unwoken = 0 → present n s'.ring.length s'.overflow.length < m := by
        exact fun _ _ h => h) : Reached n s' u := by
  obtain ⟨hlive, hlisted, hasleep, hwas⟩ := h
  refine ⟨?_, ?_, ?_, ?_⟩ <;> rw [hpc]
  · rwa [hdead]
  · intro hadded
    rw [w]
    exact (hlisted hadded).imp_right (Or.imp x q)
  · rwa [w]
  · intro m hm
    rw [w]
    exact (hwas m hm).imp_right (Or.imp x (f m hm))

omit [DecidableEq ι] in
/-- A caller that has not added its entry, or is about to take it out. -/
lemma reached_of_not_added (h : (s.pc t).added = false) : Reached n s t := by
  refine ⟨fun hadded => ?_, fun hadded => ?_, fun m hm => ?_, fun m hm => ?_⟩
  · exact absurd (h.symm.trans hadded) Bool.false_ne_true
  · exact absurd (h.symm.trans hadded) Bool.false_ne_true
  · rw [hm] at h
    cases h
  · exact absurd (h.symm.trans (Pc.added_of_waits hm)) Bool.false_ne_true

/-! ### The steps -/

/-- **A caller is woken**: it goes on, or finds `wake_pending` when it is about to sleep. -/
lemma reached_wake (h : ∀ u, u ≠ t → Reached n s u)
    (hlive : (s.pc t).added = true → s.dead t = false) (u : ι) : Reached n (s.wake t) u := by
  unfold Sys.wake
  split
  next m hpc =>
    by_cases hu : u = t
    · exact reached_of_not_added (by simp [hu, Pc.added])
    · exact (h u hu).frame (update_of_ne hu _ _)
  next hpc =>
    by_cases hu : u = t
    · subst hu
      exact ⟨hlive, fun _ => .inl (update_self ..), fun m hm => absurd hm (hpc m),
        fun _ _ => .inl (update_self ..)⟩
    · exact (h u hu).frame (w := update_of_ne hu _ _)

lemma Inv.wake {l : List ι} (h : Inv n s) (hl : ∀ u, u ≠ t → u ∈ s.detached → u ∈ l) :
    Inv n (Sys.wake { s with detached := l } t) := by
  have hothers (u : ι) (hu : u ≠ t) : Reached n { s with detached := l } u :=
    (h.reached u).frame (x := hl u hu)
  refine ⟨?_, ?_, reached_wake hothers (h.reached t).live⟩ <;> unfold Sys.wake <;> split
  · exact h.order
  · exact h.order
  · exact h.emptied
  · exact h.emptied

/-- A caller takes a step after which it has no entry in the queue, and nobody else notices. -/
lemma Inv.leave {p : Pc ι} (h : Inv n s) (hp : p.added = false) (q : List ι) (r : Option ι)
    (hq : ∀ u, u ≠ t → u ∈ s.queue → u ∈ q) :
    Inv n { s with queue := q, remover := r, pc := update s.pc t p } := by
  refine ⟨h.order, h.emptied, fun u => ?_⟩
  by_cases hu : u = t
  · exact reached_of_not_added (by simpa [hu] using hp)
  · exact (h.reached u).frame (update_of_ne hu _ _) (q := hq u hu)

/-- **A step of a caller.** -/
lemma Inv.run (h : Inv n s) (hok : s.Undisturbed n t (s.pc t)) (hs : s.run t = some s') :
    Inv n s' := by
  have hmine := h.reached t
  rw [Sys.run] at hs
  cases hpc : s.pc t <;> simp only [hpc] at hs hok
  case idle | asleep => cases hs
  case test m =>
    obtain rfl := some.inj hs
    exact h.leave (by split_ifs <;> rfl) s.queue s.remover fun _ _ => id
  case add m =>
    obtain rfl := some.inj hs
    refine ⟨h.order, h.emptied, fun u => ?_⟩
    by_cases hu : u = t
    · subst hu
      refine ⟨fun _ => update_self .., fun _ => .inr (.inr mem_cons_self), ?_, ?_⟩
      · simp
      · simp [Pc.waits]
    · exact (h.reached u).frame (update_of_ne hu _ _) (update_of_ne hu _ _)
        (q := mem_cons_of_mem t)
  case retest m =>
    obtain rfl := some.inj hs
    split_ifs with hm
    · exact h.leave rfl s.queue s.remover fun _ _ => id
    · refine ⟨h.order, h.emptied, fun u => ?_⟩
      by_cases hu : u = t
      · subst hu
        have hadded : (s.pc u).added = true := by rw [hpc]; rfl
        refine ⟨fun _ => hmine.live hadded, fun _ => hmine.listed hadded, by simp, fun k hk => ?_⟩
        obtain rfl : m = k := by simpa [Pc.waits] using hk
        refine .inr (.inr fun _ => ?_)
        obtain hnil | hfull := hok (not_le.mp hm)
        · simp only [present, hnil, length_nil]
          split_ifs <;> omega
        · simp only [present]
          split_ifs <;> omega
      · exact (h.reached u).frame (update_of_ne hu _ _)
  case sleep m =>
    split_ifs at hs with hpend <;> obtain rfl := some.inj hs
    · refine ⟨h.order, h.emptied, fun u => ?_⟩
      by_cases hu : u = t
      · exact reached_of_not_added (by simp [hu, Pc.added])
      · exact (h.reached u).frame (update_of_ne hu _ _) (w := update_of_ne hu _ _)
    · refine ⟨h.order, h.emptied, fun u => ?_⟩
      by_cases hu : u = t
      · subst hu
        have hadded : (s.pc u).added = true := by rw [hpc]; rfl
        refine ⟨fun _ => hmine.live hadded, fun _ => hmine.listed hadded,
          fun _ _ => Bool.eq_false_iff.mpr hpend, fun k hk => hmine.few k ?_⟩
        rw [hpc]
        simpa [Pc.waits] using hk
      · exact (h.reached u).frame (update_of_ne hu _ _)
  case remove m =>
    obtain rfl := some.inj hs
    refine ⟨h.order, h.emptied, fun u => ?_⟩
    by_cases hu : u = t
    · exact reached_of_not_added (by simp [hu, Pc.added])
    · exact (h.reached u).frame (update_of_ne hu _ _) (update_of_ne hu _ _)
  case find m =>
    split_ifs at hs with hfree hmem <;> obtain rfl := some.inj hs
    · exact h.leave rfl s.queue (some t) fun _ _ => id
    · exact h.leave rfl s.queue s.remover fun _ _ => id
  case unlink m atHead rest =>
    obtain rfl := some.inj hs
    refine h.leave rfl _ none fun u hu hmem => ?_
    cases atHead with
    | true =>
      have hlist : s.queue = t :: rest := hok
      rw [hlist] at hmem
      exact (mem_cons.mp hmem).resolve_left hu
    | false => exact (mem_erase_of_ne hu).mpr hmem

/-- **One step.** -/
lemma Inv.step (h : Inv n s) (hok : Unparked n s a) (hs : cqStep n s a = some s') : Inv n s' := by
  obtain ⟨horder, hemptied, hreached⟩ := h
  cases a with
  | lock q =>
    obtain ⟨hfree, rfl⟩ := ite_some_none_eq_some.mp hs
    exact ⟨by rw [← horder, hfree]; simp, by simp, fun u => (hreached u).frame⟩
  | drain =>
    simp only [cqStep] at hs
    split at hs
    next q e l hposting hover =>
      obtain ⟨hroom, rfl⟩ := ite_some_none_eq_some.mp hs
      refine ⟨by rw [← horder, hover]; simp, by simp [hposting], fun u => ?_⟩
      refine (hreached u).frame (f := fun m _ hwas hnone => lt_of_le_of_lt ?_ (hwas hnone))
      simp only [present, hover, length_append, length_cons, length_nil, if_pos hroom]
      split_ifs <;> omega
    · cases hs
  | leave =>
    simp only [cqStep] at hs
    split at hs
    next q hposting =>
      obtain ⟨hdone, rfl⟩ := ite_some_none_eq_some.mp hs
      exact ⟨by rw [← horder, hposting]; rfl, fun _ _ _ => hdone, fun u => (hreached u).frame⟩
    · cases hs
  | store =>
    simp only [cqStep] at hs
    split at hs
    next q hposting =>
      split_ifs at hs with hroom <;> obtain rfl := some.inj hs
      · have hnil := (hemptied _ hposting rfl).resolve_right (by omega)
        exact ⟨by rw [← horder, hposting, hnil]; simp, by simp,
          fun u => (hreached u).frame (f := by simp)⟩
      · exact ⟨by rw [← horder, hposting]; simp, by simp,
          fun u => (hreached u).frame (f := by simp)⟩
    · cases hs
  | exchange =>
    obtain ⟨-, hs⟩ := ite_none_left_eq_some.mp hs
    obtain rfl := some.inj hs
    refine ⟨horder, hemptied, fun u => ?_⟩
    obtain ⟨hlive, hlisted, hasleep, -⟩ := hreached u
    -- whoever was in the queue is in the hands of the wake now
    have hheld (hadded : (s.pc u).added = true) :
        s.pending u = true ∨ u ∈ s.detached ++ s.queue :=
      (hlisted hadded).imp_right mem_append.mpr
    exact ⟨hlive, fun hadded => (hheld hadded).imp_right .inl, hasleep,
      fun m hm => (hheld (Pc.added_of_waits hm)).imp_right .inl⟩
  | call t =>
    obtain ⟨-, hs⟩ := ite_some_none_eq_some.mp hs
    have hl (u : ι) (hu : u ≠ t) : u ∈ s.detached → u ∈ s.detached.erase t :=
      (mem_erase_of_ne hu).mpr
    cases hdead : s.dead t with
    | true =>
      rw [hdead, if_pos rfl] at hs
      obtain rfl := hs
      refine ⟨horder, hemptied, fun u => ?_⟩
      by_cases hu : u = t
      · subst hu
        refine reached_of_not_added (Bool.eq_false_iff.mpr fun hadded => ?_)
        exact Bool.false_ne_true (((hreached u).live hadded).symm.trans hdead)
      · exact (hreached u).frame (x := hl u hu)
    | false =>
      rw [hdead, if_neg Bool.false_ne_true] at hs
      obtain rfl := hs
      exact Inv.wake ⟨horder, hemptied, hreached⟩ hl
  | stir t =>
    obtain rfl := some.inj hs
    exact Inv.wake ⟨horder, hemptied, hreached⟩ fun _ _ => id
  | take =>
    simp only [cqStep] at hs
    split at hs
    · cases hs
    next e l hring =>
      obtain rfl := some.inj hs
      refine ⟨by rw [← horder, hring]; simp, fun p hp hlate => ?_, fun u => ?_⟩
      · by_cases hnil : s.overflow = []
        · exact .inl hnil
        · exact absurd (((hok hnil).1 p hp).symm.trans hlate) Bool.false_ne_true
      · refine (hreached u).frame (f := fun m hm hwas hnone => ?_)
        have hnil : s.overflow = [] := by
          by_contra hne
          rw [(hok hne).2 u] at hm
          cases hm
        have hlt := hwas hnone
        simp only [present, hnil, hring, length_cons, length_nil] at hlt ⊢
        split_ifs at hlt ⊢ <;> omega
  | enter t m =>
    obtain ⟨-, rfl⟩ := ite_some_none_eq_some.mp hs
    refine ⟨horder, hemptied, fun u => ?_⟩
    by_cases hu : u = t
    · exact reached_of_not_added (by simp [hu, Pc.added])
    · exact (hreached u).frame (update_of_ne hu _ _)
  | run t => exact Inv.run ⟨horder, hemptied, hreached⟩ hok hs

/-- The ring after `io_uring_create`, and callers with any `wake_pending` flags. -/
def created (pending : ι → Bool) : Sys ι where
  ring := []
  overflow := []
  taken := []
  posted := []
  posting := none
  unwoken := 0
  queue := []
  detached := []
  dead _ := false
  pending := pending
  remover := none
  pc _ := .idle

/-- **Completions come in order, without loss or duplication, and wake their waiters**, in every run
that meets the condition. -/
theorem completions_delivered {pending : ι → Bool}
    (hrun : exec (cqStep n) (created pending) A = some s)
    (hok : Meets (cqStep n) (Unparked n) (created pending) A) :
    s.taken ++ s.ring ++ s.overflow ++ s.posting.toList.map Prod.fst = s.posted ∧
      (s.unwoken = 0 → s.detached = [] → ∀ t m, s.pc t = .asleep m →
        present n s.ring.length s.overflow.length < m) := by
  have h : Inv n s := by
    refine exec_invariant Inv.step hrun hok ⟨rfl, by simp [created], fun t => ?_⟩
    exact reached_of_not_added rfl
  refine ⟨h.order, fun hnone hnil t m hpc => ?_⟩
  obtain hpend | hmem | hfew := (h.reached t).few m (by rw [hpc]; rfl)
  · exact absurd (((h.reached t).asleep m hpc).symm.trans hpend) Bool.false_ne_true
  · rw [hnil] at hmem
    exact absurd hmem not_mem_nil
  · exact hfew hnone

/-- A caller sleeps until a completion comes; the ring is full then, and another one is parked. The
next poster finds room again, and the parked one goes before its own. -/
def parkAndDrain : List (Act (Fin 1)) :=
  [.enter 0 1, .run 0, .run 0, .run 0, .run 0, .lock 7, .leave, .store, .exchange, .call 0, .run 0,
    .run 0, .run 0, .lock 8, .leave, .store, .take, .lock 9, .drain, .leave, .store]

theorem completions_delivered_parked :
    ∃ s, exec (cqStep 1) (created fun _ => false) parkAndDrain = some s ∧
      (s.taken = [7] ∧ s.ring = [8] ∧ s.overflow = [9]) ∧
      s.taken ++ s.ring ++ s.overflow ++ s.posting.toList.map Prod.fst = s.posted ∧
      (s.unwoken = 0 → s.detached = [] → ∀ t m, s.pc t = .asleep m →
        present 1 s.ring.length s.overflow.length < m) :=
  exists_run fun _ hrun _ => completions_delivered hrun (by decide)

/-- A ring of two entries is full and the third completion is parked.  The poster of the fourth sees
the ring full, then room, and overtakes it; the user takes the other two, and a caller who waits for
two completions sleeps while one is in the ring and one is parked. -/
theorem overtaken_and_parked : ∃ s : Sys (Fin 1), exec (cqStep 2) (created fun _ => false)
    [.lock 1, .leave, .store, .lock 2, .leave, .store, .lock 3, .leave, .store, .lock 4, .leave,
      .take, .store, .exchange, .exchange, .exchange, .exchange, .take, .enter 0 2, .run 0, .run 0,
      .run 0, .run 0] = some s ∧
    s.taken ++ s.ring = [1, 2, 4] ∧ s.unwoken = 0 ∧ s.detached = [] ∧ s.pc 0 = .asleep 2 ∧
      present 2 s.ring.length s.overflow.length = 2 :=
  exists_of_any _ _ _ _ (by decide)

end Makaos.UringCq
