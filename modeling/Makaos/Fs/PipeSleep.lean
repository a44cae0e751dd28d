import Makaos.Fs.PipeRing

/-!
The sleepers of a pipe, for calls that do not disturb each other.

* `NoneLeft`, `OtherOpen`: the reasons a thread has to wait, or a call that will wake it.
* `SleepInv`, `SleepInv.step`: a thread sleeps only for such reasons, and is in the queue of its side.
-/

namespace Makaos.Pipe

open Function Pipe.Pc Pipe Stage
variable {ι : Type*}

/-! ### Sleep -/

/-- The thread will wake side `σ` before it sleeps or returns. -/
def Pc.Announces (σ : Side) : Pc → Prop
  | .call τ _ _ moved st =>
    τ = σ.other ∧ (st = .wake ∨ moved ≠ [] ∧ (st = .top ∨ st = .refs ∨ st.Moving))
  | _ => False

/-- A thread of side `σ` has no byte, or room, to go on with, or will be told of it. -/
def NoneLeft (s : Sys ι) (σ : Side) : Prop := σ.Blocked s.count ∨ ∃ u, (s.pc u).Announces σ

/-- The other side is open, or a thread of side `σ` will be told that it is not. -/
def OtherOpen (s : Sys ι) (σ : Side) : Prop := 0 < s.refs σ.other ∨ ∃ u, s.pc u = .closing σ.other

/-- What is known of a thread in the waiting loop. -/
def WaitOk (s : Sys ι) (t : ι) (σ : Side) : WaitPc → Prop
  | .recheck => s.wakePending t = true ∨ t ∈ s.queue σ
  | .recheckRefs => s.wakePending t = true ∨ t ∈ s.queue σ ∧ NoneLeft s σ
  | .sleep => s.wakePending t = true ∨ t ∈ s.queue σ ∧ NoneLeft s σ ∧ OtherOpen s σ
  | .asleep => t ∈ s.queue σ ∧ NoneLeft s σ ∧ OtherOpen s σ
  | _ => True

/-- What is known of a thread, for its sleep: also, that a byte has been moved when it has. -/
def PcOk (s : Sys ι) (t : ι) : Pc → Prop
  | .call σ _ _ moved st =>
    (st.Moving → ¬ st.BeforeByte → moved ≠ []) ∧ ∀ w, st = .wait w → WaitOk s t σ w
  | _ => True

/-- **Nobody sleeps without need.** -/
def SleepInv (s : Sys ι) : Prop := ∀ t, PcOk s t (s.pc t)

lemma rouse_eq {σ : Side} {len : ℕ} {src moved : List UInt8} {st : Stage} (h : st ≠ .wait .asleep) :
    (call σ len src moved st).rouse = .call σ len src moved st := by
  unfold rouse
  split
  next heq => exact absurd (call.inj heq).2.2.2.2 h
  · rfl

section Sleep

variable {s s' : Sys ι} {t : ι} {σ : Side} {len : ℕ} {src moved : List UInt8} {old pc : Pc}

/-- What is known of a thread stays, if its wake-up, its place in the queue and the reasons to wait
do. -/
lemma WaitOk.mono {w : WaitPc} (h : WaitOk s t σ w)
    (hwake : s.wakePending t = true → s'.wakePending t = true)
    (hqueue : t ∈ s.queue σ → t ∈ s'.queue σ) (hnone : NoneLeft s σ → NoneLeft s' σ)
    (hopen : OtherOpen s σ → OtherOpen s' σ) : WaitOk s' t σ w := by
  cases w with
  | recheck => exact h.imp hwake hqueue
  | recheckRefs => exact h.imp hwake fun h => ⟨hqueue h.1, hnone h.2⟩
  | sleep => exact h.imp hwake fun h => ⟨hqueue h.1, hnone h.2.1, hopen h.2.2⟩
  | asleep => exact ⟨hqueue h.1, hnone h.2.1, hopen h.2.2⟩
  | _ => trivial

lemma PcOk.mono (h : PcOk s t pc) (hwake : s.wakePending t = true → s'.wakePending t = true)
    (hqueue : ∀ σ, t ∈ s.queue σ → t ∈ s'.queue σ) (hnone : ∀ σ, NoneLeft s σ → NoneLeft s' σ)
    (hopen : ∀ σ, OtherOpen s σ → OtherOpen s' σ) : PcOk s' t pc := by
  cases pc with
  | idle => trivial
  | closing σ => trivial
  | call σ len src moved st =>
    exact ⟨h.1, fun w hw => (h.2 w hw).mono hwake (hqueue σ) (hnone σ) (hopen σ)⟩

variable [DecidableEq ι]

/-- A step of one thread that wakes nobody. -/
lemma SleepInv.keep (h : SleepInv s) (hpc : s'.pc = update s.pc t pc)
    (hnone : ∀ σ, NoneLeft s σ → NoneLeft s' σ) (hopen : ∀ σ, OtherOpen s σ → OtherOpen s' σ)
    (hnew : PcOk s' t pc)
    (hqueue : ∀ u, u ≠ t → ∀ σ, u ∈ s.queue σ → u ∈ s'.queue σ := by exact fun _ _ _ => id)
    (hwake : ∀ u, u ≠ t → s.wakePending u = true → s'.wakePending u = true := by
      exact fun _ _ => id) : SleepInv s' := by
  rw [SleepInv, hpc]
  exact (forall_update_iff s.pc (PcOk s')).mpr ⟨hnew, fun u hut =>
    (h u).mono (hwake u hut) (hqueue u hut) hnone hopen⟩

/-- The reasons to wait stay, if the thread that moves on has the same to announce. -/
lemma NoneLeft.keep (ht : s.pc t = old) (hann : ∀ σ, old.Announces σ → pc.Announces σ)
    (hpc : s'.pc = update s.pc t pc := by rfl) (hcount : s'.count = s.count := by rfl) (σ : Side)
    (h : NoneLeft s σ) : NoneLeft s' σ := by
  subst ht
  rcases h with hblocked | ⟨u, hu⟩
  · exact .inl (hcount ▸ hblocked)
  · refine .inr ⟨u, ?_⟩
    rw [hpc]
    by_cases hut : u = t
    · subst hut
      rw [update_self]
      exact hann σ hu
    · rwa [update_of_ne hut]

lemma OtherOpen.keep (ht : s.pc t = old)
    (hclosing : ∀ σ, old = .closing σ → 0 < s.refs σ := by rintro _ ⟨⟩)
    (hpc : s'.pc = update s.pc t pc := by rfl)
    (hrefs : ∀ σ, s'.refs σ = s.refs σ := by exact fun _ => rfl) (σ : Side) (h : OtherOpen s σ) :
    OtherOpen s' σ := by
  rcases h with hpos | ⟨u, hu⟩
  · exact .inl (by rwa [hrefs])
  · by_cases hut : u = t
    · subst hut
      exact .inl (by rw [hrefs]; exact hclosing _ (ht.symm.trans hu))
    · exact .inr ⟨u, by rw [hpc, update_of_ne hut]; exact hu⟩

section

variable (h : SleepInv s)
include h

lemma SleepInv.goto {p : Pc} (ht : s.pc t = old) (hann : ∀ σ, old.Announces σ → p.Announces σ)
    (hclosing : ∀ σ, old = .closing σ → 0 < s.refs σ) (hnew : PcOk (s.goto t p) t p) :
    SleepInv (s.goto t p) :=
  h.keep rfl (NoneLeft.keep ht hann) (OtherOpen.keep ht hclosing) hnew

/-- **A wake-up**: whoever waited on that side goes on, or will find the wake-up noted. -/
lemma SleepInv.wakeAll (σ : Side) (ht : s.pc t = old) (hann : ¬ old.Announces σ.other)
    (hclosing : old ≠ .closing σ) (hpc : s'.pc = update (wakeAll s σ).pc t .idle)
    (hwake : s'.wakePending = (wakeAll s σ).wakePending) (hqueue : s'.queue = (wakeAll s σ).queue)
    (hcount : s'.count = s.count) (hrefs : ∀ σ, s'.refs σ = s.refs σ) : SleepInv s' := by
  subst ht
  -- what the other side waits for is as it was
  have hpcs : ∀ u, u ≠ t → ∀ pc, pc.rouse = pc → s.pc u = pc → s'.pc u = pc := by
    intro u hut pc hrouse hu
    rw [hpc, update_of_ne hut]
    simp only [wakeAll, hu, hrouse, ite_self]
  have hnone : NoneLeft s σ.other → NoneLeft s' σ.other := by
    rintro (hblocked | ⟨u, hu⟩)
    · exact .inl (hcount ▸ hblocked)
    · have hut : u ≠ t := by
        rintro rfl
        exact hann hu
      refine .inr ⟨u, ?_⟩
      rw [hpcs u hut (s.pc u) ?_ rfl]
      · exact hu
      · unfold rouse
        split
        · rename_i heq
          rw [heq] at hu
          simp [Pc.Announces, Stage.Moving] at hu
        · rfl
  have hopen : OtherOpen s σ.other → OtherOpen s' σ.other := by
    rintro (hpos | ⟨u, hu⟩)
    · exact .inl (by rwa [hrefs])
    · have hut : u ≠ t := by
        rintro rfl
        rw [Side.other_other] at hu
        exact hclosing hu
      exact .inr ⟨u, hpcs u hut _ rfl hu⟩
  intro u
  by_cases hut : u = t
  · subst hut
    rw [hpc, update_self]
    trivial
  rw [hpc, update_of_ne hut]
  have hu := h u
  have hnoted : u ∈ s.queue σ → (s.pc u).rouse = s.pc u → s'.wakePending u = true := by
    intro hq hr
    simp [hwake, wakeAll, hq, hr]
  have hkept : s.wakePending u = true → s'.wakePending u = true := by
    intro hp
    simp [hwake, wakeAll, hp]
  cases hcall : s.pc u with
  | idle | closing τ => simp only [wakeAll, hcall, rouse, ite_self, PcOk]
  | call τ len src moved st =>
    rw [hcall] at hu
    by_cases hst : st = .wait .asleep
    · subst hst
      by_cases hq : u ∈ s.queue σ
      · -- it slept, and goes on
        simp only [wakeAll, hcall, if_pos hq, rouse]
        exact ⟨False.elim, fun w hw => by cases hw; trivial⟩
      · -- it sleeps on the other side
        obtain ⟨hqueueτ, hnoneτ, hopenτ⟩ := hu.2 _ rfl
        have hτ : τ = σ.other := by
          cases τ <;> cases σ <;> first | rfl | exact absurd hqueueτ hq
        subst hτ
        simp only [wakeAll, hcall, if_neg hq]
        refine ⟨False.elim, fun w hw => ?_⟩
        cases hw
        exact ⟨by simpa [hqueue, wakeAll] using hqueueτ, hnone hnoneτ, hopen hopenτ⟩
    · have hr : (s.pc u).rouse = s.pc u := by rw [hcall, rouse_eq hst]
      rw [pc_wakeAll σ hcall (rouse_eq hst)]
      refine ⟨hu.1, fun w hw => ?_⟩
      have hw' := hu.2 w hw
      by_cases hτ : τ = σ
      · -- on the side that is woken the wake-up is noted
        subst hτ
        have hpend : s.wakePending u = true ∨ u ∈ s.queue τ → s'.wakePending u = true :=
          fun h => h.elim hkept fun hq => hnoted hq hr
        cases w with
        | recheck => exact .inl (hpend hw')
        | recheckRefs | sleep => exact .inl (hpend (hw'.imp_right And.left))
        | asleep => exact absurd hw hst
        | _ => trivial
      · have hτ' : τ = σ.other := by
          cases τ <;> cases σ <;> first | rfl | exact absurd rfl hτ
        subst hτ'
        refine hw'.mono hkept (fun hq => ?_) hnone hopen
        simpa [hqueue, wakeAll] using hq

/-- A call goes on with nothing but its place changed. -/
lemma SleepInv.go {st st' : Stage} (ht : s.pc t = .call σ len src moved st)
    (hmay : (call σ len src moved st).MayRun s) (hg : Goes s t σ len moved st st') :
    SleepInv (s.goto t (.call σ len src moved st')) := by
  obtain ⟨hmoved, hwait⟩ : PcOk s t (.call σ len src moved st) := ht ▸ h t
  -- what it announced it still announces: before it waits, it has moved nothing
  have hann : ∀ τ, (call σ len src moved st).Announces τ →
      (call σ len src moved st').Announces τ := by
    rintro τ ⟨hσ, hst⟩
    refine ⟨hσ, ?_⟩
    cases hg with
    | done | eof => exact .inl rfl
    | wait hopen =>
      have hnil : moved = [] := hmay.resolve_right fun ⟨hσ, hzero⟩ => hopen (by rwa [hσ])
      simp [hnil] at hst
    | blocked | free | loadIndex | reloadIndex | loadCount => simpa [Stage.Moving] using hst
    | _ => simp [Stage.Moving] at hst
  have hpc : (s.goto t (.call σ len src moved st')).pc =
      update s.pc t (.call σ len src moved st') := rfl
  have hnone := NoneLeft.keep ht hann hpc rfl σ
  have hopen := OtherOpen.keep ht (by simp) hpc (fun _ => rfl) σ
  refine h.goto ht hann (by simp) ?_
  cases hg with
  | recheck hb =>
    refine ⟨False.elim, fun w hw => ?_⟩
    cases hw
    exact (hwait _ rfl).imp id fun hq => ⟨hq, .inl hb⟩
  | recheckRefs hrefs =>
    refine ⟨False.elim, fun w hw => ?_⟩
    cases hw
    exact (hwait _ rfl).imp id fun hq => ⟨hq.1, hnone hq.2, .inl (Nat.pos_of_ne_zero hrefs)⟩
  | asleep hpend =>
    refine ⟨False.elim, fun w hw => ?_⟩
    cases hw
    obtain ⟨hq, hn, ho⟩ := (hwait _ rfl).resolve_left hpend
    exact ⟨hq, hnone hn, hopen ho⟩
  | wait | cond | condRefs | giveUp | hook => exact ⟨False.elim, fun w hw => by cases hw; trivial⟩
  | free | loadIndex => exact ⟨fun _ hb => absurd trivial hb, by simp⟩
  | reloadIndex | loadCount => exact ⟨fun _ _ => hmoved trivial id, by simp⟩
  | _ => exact ⟨False.elim, by simp⟩

/-- The new `count`: the side that moved the byte was not blocked, and the other will be told. -/
lemma SleepInv.storeCount {x : ℕ} (hring : RingInv s)
    (ht : s.pc t = .call σ len src moved (.storeCount x)) :
    SleepInv { s.goto t (.call σ len src moved .top) with count := σ.recount x } := by
  have hmoved : moved ≠ [] := by
    have := h t
    rw [ht] at this
    exact this.1 trivial id
  have hfree : ¬ σ.Blocked s.count := by
    obtain ⟨y, c, hat⟩ := hring
    have hb := hat.behind (u := t) (by rw [ht]; trivial)
    rw [ht] at hb
    have hle := hat.count_le
    cases σ with
    | reader =>
      obtain ⟨-, -, hcount, -⟩ := hb
      intro hzero
      have : s.count = 0 := hzero
      omega
    | writer =>
      obtain ⟨-, -, hcount, -⟩ := hb
      intro hfull
      have : s.count = pipeBufSize := hfull
      omega
  refine h.keep rfl (fun τ hτ => ?_) (OtherOpen.keep ht)
    ⟨False.elim, nofun⟩
  by_cases hστ : τ = σ
  · subst hστ
    obtain ⟨u, hu⟩ := hτ.resolve_left hfree
    have hut : u ≠ t := by
      rintro rfl
      rw [ht] at hu
      exact absurd hu.1.symm (Side.other_ne τ)
    exact .inr ⟨u, by simpa [Sys.goto, hut] using hu⟩
  · have hother : σ = τ.other := by
      cases τ <;> cases σ <;> first | rfl | exact absurd rfl hστ
    exact .inr ⟨t, by simp [Sys.goto, Announces, hother, hmoved]⟩

/-- A side is closed: whoever waits for it will be told. -/
lemma SleepInv.close (ht : s.pc t = .idle) (σ : Side)
    (hs : s' = (s.goto t (.closing σ)).dropRef σ) : SleepInv s' := by
  have hpc : s'.pc = update s.pc t (.closing σ) := by subst hs; cases σ <;> rfl
  have hcount : s'.count = s.count := by subst hs; cases σ <;> rfl
  have hqueue : s'.queue = s.queue := by subst hs; cases σ <;> rfl
  have hwake : s'.wakePending = s.wakePending := by subst hs; cases σ <;> rfl
  have hrefs : s'.refs σ.other = s.refs σ.other := by subst hs; cases σ <;> rfl
  refine h.keep hpc (NoneLeft.keep ht (fun _ => False.elim) hpc hcount) (fun τ hτ => ?_) trivial
    (fun u _ τ hu => by rw [hqueue]; exact hu) fun u _ hu => by rw [hwake]; exact hu
  by_cases hστ : τ.other = σ
  · exact .inr ⟨t, by rw [hpc, update_self, hστ]⟩
  · have hsame : τ.other = σ.other := by
      cases τ <;> cases σ <;> first | rfl | exact absurd rfl hστ
    rw [OtherOpen, hsame] at hτ ⊢
    rw [hrefs]
    refine hτ.imp_right fun ⟨u, hu⟩ => ⟨u, ?_⟩
    have hut : u ≠ t := by
      rintro rfl
      rw [ht] at hu
      cases hu
    rwa [hpc, update_of_ne hut]

lemma SleepInv.schedWake (t : ι) : SleepInv (schedWake s t) := by
  simp only [Pipe.schedWake]
  split_ifs with hne
  · intro u
    refine (h u).mono (fun hu => ?_) (fun _ => id) (fun _ => id) fun _ => id
    by_cases hut : u = t <;> simp [hut, hu]
  · cases hpc : s.pc t with
    | idle | closing σ => exact absurd (by rw [hpc]; rfl) hne
    | call σ len src moved st =>
      have hst : st = .wait .asleep := by
        by_contra hst
        exact hne (by rw [hpc, rouse_eq hst])
      subst hst
      exact h.goto hpc (by simp [Pc.Announces, Stage.Moving]) (by simp)
        ⟨False.elim, fun w hw => by cases hw; trivial⟩

/-- **Every step keeps the sleepers in order**, for calls that do not disturb each other. -/
lemma SleepInv.step {a : Act ι} (hring : RingInv s) (hok : Undisturbed s a)
    (hstep : pipeStep s a = some s') : SleepInv s' := by
  rcases turn_of_step hok hstep with ⟨t, rfl⟩ | ⟨t, hmay, ht⟩
  · exact h.schedWake t
  generalize hp : s.pc t = p at hmay ht
  have hknown : PcOk s t p := hp ▸ h t
  cases ht with
  | go hg => exact h.go hp hmay hg
  | read | write =>
    exact h.goto hp (fun _ => False.elim) (by simp) ⟨False.elim, by simp⟩
  | close σ => exact h.close hp σ rfl
  | closed σ hopen =>
    exact h.goto hp (fun _ => False.elim)
      (fun τ hτ => closing.inj hτ ▸ Nat.pos_of_ne_zero hopen) trivial
  | closedLast σ =>
    exact h.wakeAll σ.other hp id (by simpa using (Side.other_ne σ).symm) rfl rfl rfl rfl
      fun τ => by cases τ <;> rfl
  | @ret σ len src moved st hst =>
    -- a write that has moved bytes is not given up here
    refine h.goto (p := .idle) hp (fun τ hτ => absurd hτ.2 ?_) (by simp) trivial
    rcases hst with rfl | rfl | ⟨rfl, rfl⟩
    · simp [Stage.Moving]
    · simp [Stage.Moving]
    · simp [show moved = [] from hmay.resolve_right (by simp)]
  | @add σ =>
    refine h.keep rfl (NoneLeft.keep hp (by simp [Pc.Announces, Stage.Moving]))
      (OtherOpen.keep hp) ⟨False.elim, fun w hw => ?_⟩ fun u _ τ hu => ?_
    · cases hw
      exact .inr (by simp)
    · by_cases hτ : τ = σ
      · subst hτ
        simp [hu]
      · simpa [hτ] using hu
  | woken =>
    exact h.keep rfl (NoneLeft.keep hp (by simp [Pc.Announces, Stage.Moving]))
      (OtherOpen.keep hp) ⟨False.elim, fun w hw => by cases hw; trivial⟩
      (fun u _ τ hu => hu) fun u hu hpend => by simpa [hu] using hpend
  | @remove σ =>
    refine h.keep rfl (NoneLeft.keep hp (by simp [Pc.Announces, Stage.Moving]))
      (OtherOpen.keep hp) ⟨False.elim, fun w hw => by cases hw; trivial⟩
      fun u hut τ hu => ?_
    by_cases hτ : τ = σ
    · subst hτ
      simp [hu, hut]
    · simpa [hτ] using hu
  | @byte σ =>
    cases σ <;>
      exact h.goto hp
        (fun τ hτ => ⟨hτ.1, .inr ⟨by simp, .inr (.inr trivial)⟩⟩) (by simp) ⟨by simp, by simp⟩
  | @storeIndex σ =>
    cases σ <;>
      exact h.goto hp
        (fun τ hτ => ⟨hτ.1, by simpa [Stage.Moving] using hτ.2⟩) (by simp)
        ⟨fun _ _ => hknown.1 trivial id, by simp⟩
  | storeCount => exact h.storeCount hring hp
  | @wake σ =>
    refine h.wakeAll σ.other hp ?_ (by simp) rfl rfl rfl rfl fun τ => by cases τ <;> rfl
    rw [Side.other_other]
    exact fun hann => absurd hann.1.symm (Side.other_ne σ)

end

end Sleep

end Makaos.Pipe
