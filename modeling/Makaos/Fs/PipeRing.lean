import Makaos.Fs.Pipe

/-!
The bytes of a pipe, for calls that do not disturb each other.

* `Turn`, `turn_of_step`: **what a step does.**
* `RingInv`, `RingInv.step`: the buffer holds the bytes that went in and have not come out, in order,
  also in the middle of a move.
* `LogInv`, `LogInv.step`: the bytes a thread's calls report are the bytes they moved.
-/

namespace Makaos.Pipe

open Function List Nat
open RingWindow

variable {ι : Type*}
variable {st : Stage} {a : Act ι} {s s' : Sys ι} {t : ι}

lemma pipeBufSize_pos : 0 < pipeBufSize := by decide

/-! ### What a step does -/

/-- Where a call goes on, if nothing else changes. -/
inductive Goes (s : Sys ι) (t : ι) (σ : Side) (len : ℕ) (moved : List UInt8) : Stage → Stage → Prop
  | start : Goes s t σ len moved .start .top
  | blocked : Goes s t σ len moved .top .refs
  | free (hlt : moved.length < len) (hfree : ¬ σ.Blocked s.count) :
      Goes s t σ len moved .top .loadIndex
  | done : Goes s t σ len moved .top .wake
  | eof : Goes s t σ len moved .refs .wake
  | wait (hopen : s.refs σ.other ≠ 0) : Goes s t σ len moved .refs (.wait .cond)
  | cond : Goes s t σ len moved (.wait .cond) (.wait .condRefs)
  | condRefs : Goes s t σ len moved (.wait .condRefs) (.wait .add)
  | leave {w : WaitPc} : Goes s t σ len moved (.wait w) .top
  | recheck (hb : σ.Blocked s.count) : Goes s t σ len moved (.wait .recheck) (.wait .recheckRefs)
  | recheckRefs (hopen : s.refs σ.other ≠ 0) :
      Goes s t σ len moved (.wait .recheckRefs) (.wait .sleep)
  | giveUp {w : WaitPc} : Goes s t σ len moved (.wait w) (.wait .remove)
  | asleep (hpend : ¬ s.wakePending t = true) : Goes s t σ len moved (.wait .sleep) (.wait .asleep)
  | hook : Goes s t σ len moved (.wait .hook) (.wait .cond)
  | loadIndex : Goes s t σ len moved .loadIndex (.byte (s.index σ))
  | reloadIndex : Goes s t σ len moved .reloadIndex (.storeIndex (s.index σ))
  | loadCount : Goes s t σ len moved .loadCount (.storeCount s.count)

/-- **What a step of thread `t`, which is at `p`, does.** -/
inductive Turn [DecidableEq ι] (s : Sys ι) (t : ι) : Pc → Sys ι → Prop
  | go {σ len src moved st st'} (hg : Goes s t σ len moved st st') :
      Turn s t (.call σ len src moved st) (s.goto t (.call σ len src moved st'))
  | read (len) : Turn s t .idle (s.goto t (.call .reader len [] [] .top))
  | write (src) : Turn s t .idle (s.goto t (.call .writer src.length src [] .start))
  | close (σ) : Turn s t .idle ((s.goto t (.closing σ)).dropRef σ)
  | closed (σ) (hopen : s.refs σ ≠ 0) : Turn s t (.closing σ) (s.goto t .idle)
  | closedLast (σ) : Turn s t (.closing σ) ((wakeAll s σ.other).goto t .idle)
  | ret {σ len src moved st} (hst : st = .start ∨ st = .wait .hook ∨ st = .refs ∧ σ = .writer) :
      Turn s t (.call σ len src moved st) (s.ret t σ moved)
  | add {σ len src moved} : Turn s t (.call σ len src moved (.wait .add))
      { s.goto t (.call σ len src moved (.wait .recheck)) with
        queue := update s.queue σ (insert t (s.queue σ)) }
  | woken {σ len src moved} : Turn s t (.call σ len src moved (.wait .sleep))
      { s.goto t (.call σ len src moved (.wait .remove)) with
        wakePending := update s.wakePending t false }
  | remove {σ len src moved} : Turn s t (.call σ len src moved (.wait .remove))
      { s.goto t (.call σ len src moved (.wait .hook)) with
        queue := update s.queue σ ((s.queue σ).erase t) }
  | byte {σ len src moved} (x) :
      Turn s t (.call σ len src moved (.byte x)) (byteStep s t len src moved x σ)
  | storeIndex {σ len src moved} (x) : Turn s t (.call σ len src moved (.storeIndex x))
      ((s.goto t (.call σ len src moved .loadCount)).setIndex ((x + 1) % pipeBufSize) σ)
  | storeCount {σ len src moved} (x) : Turn s t (.call σ len src moved (.storeCount x))
      { s.goto t (.call σ len src moved .top) with count := σ.recount x }
  | wake {σ len src moved} :
      Turn s t (.call σ len src moved .wake) ((wakeAll s σ.other).ret t σ moved)

variable {σ : Side} {len : ℕ} {src moved : List UInt8} {pc : Pc}

section Turns

variable [DecidableEq ι]

lemma turn_wait {w : WaitPc} (hstep : waitStep s t σ len src moved w = some s') :
    Turn s t (.call σ len src moved (.wait w)) s' := by
  cases w with
  | asleep => nomatch hstep
  | add | remove =>
    cases hstep
    constructor
  | hook =>
    cases hstep
    exact .go .hook
  | _ =>
    simp only [waitStep] at hstep
    split at hstep <;> cases hstep
    all_goals first | exact .woken | exact .go (by constructor <;> assumption)

lemma turn_call (hstep : callStep s t σ len src moved st = some s') :
    Turn s t (.call σ len src moved st) s' := by
  cases st with
  | start =>
    simp only [callStep] at hstep
    split at hstep <;> cases hstep
    · exact .ret (.inl rfl)
    · exact .go .start
  | top =>
    simp only [callStep] at hstep
    split_ifs at hstep with hlt hblocked <;> cases hstep
    · exact .go .blocked
    · exact .go (.free hlt hblocked)
    · exact .go .done
  | refs =>
    simp only [callStep] at hstep
    split_ifs at hstep with hopen
    · cases σ <;> cases hstep
      · exact .go .eof
      · exact .ret (.inr (.inr ⟨rfl, rfl⟩))
    · cases hstep
      exact .go (.wait hopen)
  | wait w => exact turn_wait hstep
  | loadIndex | reloadIndex | loadCount =>
    cases hstep
    exact .go (by constructor)
  | _ =>
    cases hstep
    constructor

/-- **Every step is a turn** of a thread, or a wake-up from somewhere else. -/
theorem turn_of_step (hok : Undisturbed s a) (hstep : pipeStep s a = some s') :
    (∃ t, s' = schedWake s t) ∨ ∃ t, (s.pc t).MayRun s ∧ Turn s t (s.pc t) s' := by
  cases a with
  | wake t => exact .inl ⟨t, (Option.some.inj hstep).symm⟩
  | run t =>
    refine .inr ⟨t, hok, ?_⟩
    simp only [pipeStep] at hstep
    split at hstep
    case h_3 => nomatch hstep
    case h_2 hpc =>
      rw [hpc]
      split at hstep <;> cases hstep
      · exact .closedLast _
      · exact .closed _ (by assumption)
    case h_1 hpc =>
      rw [hpc]
      exact turn_call hstep
  | signal t =>
    simp only [pipeStep] at hstep
    split at hstep <;> cases hstep
    case h_1 hpc => exact .inr ⟨t, by rw [hpc]; exact ⟨trivial, .ret (.inr (.inl rfl))⟩⟩
  | read t | write t | close t =>
    simp only [pipeStep] at hstep
    split at hstep <;> cases hstep
    case h_1 hpc => exact .inr ⟨t, by rw [hpc]; exact ⟨trivial, by constructor⟩⟩

end Turns

/-! ### The ring -/

/-- The bytes of a log. -/
def bytes (l : List (ι × UInt8)) : List UInt8 := l.map Prod.snd

/-- The ring from cell `h` on, `c` cells, as the fields have it between two moves. -/
def Still (s : Sys ι) (h c : ℕ) : Prop :=
  s.head = h ∧ s.tail = (h + c) % pipeBufSize ∧ s.count = c

/-- The same in the middle of a move: which fields are behind. -/
def Pc.Behind (s : Sys ι) (h c : ℕ) : Pc → Prop
  | .call .reader _ _ _ .loadIndex => Still s h c ∧ 0 < c
  | .call .reader _ _ _ (.byte x) => Still s h c ∧ 0 < c ∧ x = s.head
  | .call .reader _ _ _ .reloadIndex =>
    (s.head + 1) % pipeBufSize = h ∧ s.tail = (h + c) % pipeBufSize ∧ s.count = c + 1
  | .call .reader _ _ _ (.storeIndex x) =>
    (s.head + 1) % pipeBufSize = h ∧ s.tail = (h + c) % pipeBufSize ∧ s.count = c + 1 ∧ x = s.head
  | .call .reader _ _ _ .loadCount =>
    s.head = h ∧ s.tail = (h + c) % pipeBufSize ∧ s.count = c + 1
  | .call .reader _ _ _ (.storeCount x) =>
    s.head = h ∧ s.tail = (h + c) % pipeBufSize ∧ s.count = c + 1 ∧ x = s.count
  | .call .writer _ _ _ .loadIndex => Still s h c ∧ c < pipeBufSize
  | .call .writer _ _ _ (.byte x) => Still s h c ∧ c < pipeBufSize ∧ x = s.tail
  | .call .writer _ _ _ .reloadIndex =>
    s.head = h ∧ (s.tail + 1) % pipeBufSize = (h + c) % pipeBufSize ∧ s.count + 1 = c
  | .call .writer _ _ _ (.storeIndex x) =>
    s.head = h ∧ (s.tail + 1) % pipeBufSize = (h + c) % pipeBufSize ∧ s.count + 1 = c ∧ x = s.tail
  | .call .writer _ _ _ .loadCount =>
    s.head = h ∧ s.tail = (h + c) % pipeBufSize ∧ s.count + 1 = c
  | .call .writer _ _ _ (.storeCount x) =>
    s.head = h ∧ s.tail = (h + c) % pipeBufSize ∧ s.count + 1 = c ∧ x = s.count
  | _ => True

/-- The ring holds what went in and has not come out; at most one thread is moving a byte. -/
structure RingAt (s : Sys ι) (h c : ℕ) : Prop where
  head_lt : h < pipeBufSize
  count_le : c ≤ pipeBufSize
  bytes : bytes (s.log .writer) = bytes (s.log .reader) ++ window pipeBufSize s.buf h c
  still : (∀ u, ¬ (s.pc u).Moving) → Still s h c
  behind : ∀ {u}, (s.pc u).Moving → (s.pc u).Behind s h c
  alone : ∀ {u v}, (s.pc u).Moving → (s.pc v).Moving → u = v

/-- The ring is in order. -/
def RingInv (s : Sys ι) : Prop := ∃ h c, RingAt s h c

section Ring

/-- Two states have the same ring. -/
structure SameRing (s s' : Sys ι) : Prop where
  buf : s'.buf = s.buf
  head : s'.head = s.head
  tail : s'.tail = s.tail
  count : s'.count = s.count
  log : s'.log = s.log

lemma SameRing.still (h : SameRing s s') (x c : ℕ) : Still s' x c ↔ Still s x c := by
  rw [Still, Still, h.head, h.tail, h.count]

lemma SameRing.behind (h : SameRing s s') (x c : ℕ) (pc : Pc) : pc.Behind s' x c ↔ pc.Behind s x c := by
  cases pc with
  | idle => rfl
  | closing σ => rfl
  | call σ len src moved st =>
    cases σ <;> cases st <;>
      simp only [Pc.Behind, h.still, h.head, h.tail, h.count]

/-- A step that leaves the ring alone and starts or ends no move. -/
lemma RingInv.quiet (hinv : RingInv s) (h : SameRing s s')
    (hpc : ∀ u, (s'.pc u).Moving ∨ (s.pc u).Moving → s'.pc u = s.pc u) : RingInv s' := by
  obtain ⟨x, c, hat⟩ := hinv
  refine ⟨x, c, hat.head_lt, hat.count_le, ?_, fun hnone => ?_, fun {u} hu => ?_, fun {u v} hu hv => ?_⟩
  · rw [h.log, h.buf]
    exact hat.bytes
  · rw [h.still]
    refine hat.still fun u hu => hnone u ?_
    rwa [hpc u (.inr hu)]
  · have hsame := hpc u (.inl hu)
    rw [hsame] at hu ⊢
    exact (h.behind x c _).mpr (hat.behind hu)
  · have hsame := hpc u (.inl hu)
    have hsame' := hpc v (.inl hv)
    exact hat.alone (hsame ▸ hu) (hsame' ▸ hv)

variable [DecidableEq ι] {x c : ℕ}

/-- After a step of the one thread that moves a byte, or that starts to. -/
lemma RingInv.move (hpc : s'.pc = update s.pc t pc)
    (hothers : ∀ u, u ≠ t → ¬ (s.pc u).Moving) (hlt : x < pipeBufSize) (hle : c ≤ pipeBufSize)
    (hbytes : bytes (s'.log .writer) = bytes (s'.log .reader) ++ window pipeBufSize s'.buf x c)
    (hstill : ¬ pc.Moving → Still s' x c) (hbehind : pc.Moving → pc.Behind s' x c) : RingInv s' := by
  have honly : ∀ u, (s'.pc u).Moving → u = t := by
    intro u hu
    by_contra hne
    rw [hpc, update_of_ne hne] at hu
    exact hothers u hne hu
  refine ⟨x, c, hlt, hle, hbytes, fun hnone => hstill ?_, fun {u} hu => ?_, fun hu hv => ?_⟩
  · have := hnone t
    rwa [hpc, update_self] at this
  · obtain rfl := honly u hu
    rw [hpc, update_self] at hu ⊢
    exact hbehind hu
  · exact (honly _ hu).trans (honly _ hv).symm

lemma RingInv.goto {old p : Pc} (hinv : RingInv s) (ht : s.pc t = old)
    (hpc : s'.pc = update s.pc t p := by rfl) (hold : ¬ old.Moving := by exact id)
    (hnew : ¬ p.Moving := by exact id) (h : SameRing s s' := by exact ⟨rfl, rfl, rfl, rfl, rfl⟩) :
    RingInv s' := by
  subst ht
  refine hinv.quiet h fun u hu => ?_
  by_cases hut : u = t
  · subst hut
    rw [hpc, update_self] at hu
    exact absurd hu (by simp [hold, hnew])
  · rw [hpc, update_of_ne hut]

lemma moving_rouse (pc : Pc) : pc.rouse.Moving ↔ pc.Moving := by
  unfold Pc.rouse
  split
  · simp [Pc.Moving, Stage.Moving]
  · rfl

lemma rouse_of_moving (h : pc.Moving) : pc.rouse = pc := by
  unfold Pc.rouse
  split
  · simp [Pc.Moving, Stage.Moving] at h
  · rfl

lemma RingInv.wakeAll (hinv : RingInv s) (σ : Side) : RingInv (wakeAll s σ) := by
  refine hinv.quiet ⟨rfl, rfl, rfl, rfl, rfl⟩ fun u hu => ?_
  simp only [Pipe.wakeAll] at hu ⊢
  split_ifs at hu with hq
  · rw [moving_rouse, or_self] at hu
    rw [if_pos hq, rouse_of_moving hu]
  · rw [if_neg hq]

lemma RingInv.schedWake (hinv : RingInv s) (t : ι) : RingInv (schedWake s t) := by
  simp only [Pipe.schedWake]
  split_ifs with hne
  · exact hinv.quiet ⟨rfl, rfl, rfl, rfl, rfl⟩ fun _ _ => rfl
  · refine hinv.goto rfl rfl (fun hm => hne (rouse_of_moving hm)) fun hm => ?_
    exact hne (rouse_of_moving ((moving_rouse _).mp hm))

lemma pc_wakeAll {p : Pc} (σ : Side) (ht : s.pc t = p) (h : p.rouse = p) :
    (wakeAll s σ).pc t = p := by
  simp only [wakeAll, ht, h, ite_self]

end Ring

section Moves

variable [DecidableEq ι]

/-- The start of a move: the buffer is neither empty for a reader nor full for a writer. -/
lemma RingInv.start (hinv : RingInv s) (hnone : ∀ u, ¬ (s.pc u).Moving) (hfree : ¬ σ.Blocked s.count) :
    RingInv (s.goto t (.call σ len src moved .loadIndex)) := by
  obtain ⟨x, c, hat⟩ := hinv
  have hstill : Still s x c := hat.still hnone
  refine RingInv.move rfl (fun u _ => hnone u) hat.head_lt hat.count_le hat.bytes
    (fun h => absurd trivial h) fun _ => ?_
  obtain ⟨-, -, rfl⟩ := hstill
  cases σ with
  | reader => exact ⟨hat.still hnone, pos_of_ne_zero hfree⟩
  | writer => exact ⟨hat.still hnone, lt_of_le_of_ne hat.count_le hfree⟩

/-- The byte comes out of the first cell, or goes into the first free one. -/
lemma RingInv.byte {x : ℕ} (hinv : RingInv s) (ht : s.pc t = .call σ len src moved (.byte x)) :
    RingInv (byteStep s t len src moved x σ) := by
  obtain ⟨h, c, hat⟩ := hinv
  have hmov : (s.pc t).Moving := by rw [ht]; trivial
  have hothers : ∀ u, u ≠ t → ¬ (s.pc u).Moving := fun u hu hm => hu (hat.alone hm hmov)
  have hbehind := hat.behind hmov
  rw [ht] at hbehind
  cases σ with
  | reader =>
    obtain ⟨⟨rfl, htail, hcount⟩, hpos, rfl⟩ := hbehind
    obtain ⟨c, rfl⟩ := exists_eq_succ_of_ne_zero hpos.ne'
    refine RingInv.move (x := (s.head + 1) % pipeBufSize) (c := c) rfl hothers
      (mod_lt _ pipeBufSize_pos) (le_of_succ_le hat.count_le) ?_ (fun h => absurd trivial h)
      fun _ => ⟨rfl, ?_, hcount⟩
    · have hb := hat.bytes
      rw [window_succ] at hb
      simpa [byteStep, Sys.goto, bytes] using hb
    · rwa [mod_add_mod, add_assoc, add_comm 1 c]
  | writer =>
    obtain ⟨⟨rfl, htail, rfl⟩, hlt, rfl⟩ := hbehind
    refine RingInv.move (x := s.head) (c := s.count + 1) rfl hothers hat.head_lt hlt ?_
      (fun h => absurd trivial h) fun _ => ⟨rfl, ?_, rfl⟩
    · have hb := hat.bytes
      simp only [byteStep, update_self, htail, window_put hat.head_lt hlt]
      simp [bytes] at hb ⊢
      rw [hb, append_assoc]
    · show (s.tail + 1) % pipeBufSize = _
      rw [htail, mod_add_mod, add_assoc]

lemma pipeBufSize_lt : pipeBufSize < 2 ^ 32 := by decide

/-- The loads and the stores of the index and of `count` around the byte. -/
lemma RingInv.advance {p q : Pc} (hinv : RingInv s) (ht : s.pc t = p) (hmov : p.Moving)
    (hpc : s'.pc = update s.pc t q) (hbuf : s'.buf = s.buf) (hlog : s'.log = s.log)
    (hq : ∀ h c, c ≤ pipeBufSize → p.Behind s h c →
      q.Moving ∧ q.Behind s' h c ∨ ¬ q.Moving ∧ Still s' h c) : RingInv s' := by
  obtain ⟨h, c, hat⟩ := hinv
  subst ht
  have hb := hq h c hat.count_le (hat.behind hmov)
  exact RingInv.move hpc (fun u hu hm => hu (hat.alone hm hmov)) hat.head_lt hat.count_le
    (by rw [hlog, hbuf]; exact hat.bytes) (fun hm => (hb.resolve_left fun hr => hm hr.1).2)
    fun hm => (hb.resolve_right fun hr => hr.1 hm).2

/-- **Every step keeps the ring in order**, if bytes are moved one at a time. -/
lemma RingInv.step (hinv : RingInv s) (hok : Undisturbed s a)
    (hstep : pipeStep s a = some s') : RingInv s' := by
  rcases turn_of_step hok hstep with ⟨t, rfl⟩ | ⟨t, hmay, ht⟩
  · exact hinv.schedWake t
  generalize hp : s.pc t = p at hmay ht
  cases ht with
  | @go σ _ _ _ _ _ hg =>
    cases hg with
    | free hlt hfree => exact hinv.start (hmay hlt) hfree
    | loadIndex =>
      exact hinv.advance hp trivial rfl rfl rfl fun _ _ _ hb =>
        .inl ⟨trivial, by cases σ <;> exact ⟨hb.1, hb.2, rfl⟩⟩
    | reloadIndex | loadCount =>
      exact hinv.advance hp trivial rfl rfl rfl fun _ _ _ hb =>
        .inl ⟨trivial, by cases σ <;> exact ⟨hb.1, hb.2.1, hb.2.2, rfl⟩⟩
    | _ => exact hinv.goto hp
  | read | write | closed | add | woken | remove =>
    exact hinv.goto hp
  | close σ => cases σ <;> exact hinv.goto hp
  | closedLast σ | wake =>
    exact (hinv.wakeAll _).goto (p := .idle) (pc_wakeAll _ hp rfl)
  | ret hst =>
    refine hinv.goto (p := .idle) hp rfl ?_
    rcases hst with rfl | rfl | ⟨rfl, -⟩ <;> exact id
  | byte => exact hinv.byte hp
  | @storeIndex σ _ _ _ x =>
    cases σ with
    | reader | writer =>
      refine hinv.advance hp trivial rfl rfl rfl fun _ _ _ hb => .inl ⟨trivial, ?_⟩
      obtain ⟨hh, htail, hcount, rfl⟩ := hb
      exact ⟨hh, htail, hcount⟩
  | @storeCount σ _ _ _ x =>
    have hlt := pipeBufSize_lt
    cases σ with
    | reader | writer =>
      refine hinv.advance hp trivial rfl rfl rfl fun h c hc hb => .inr ⟨id, ?_⟩
      obtain ⟨hh, htail, hcount, rfl⟩ := hb
      refine ⟨hh, htail, ?_⟩
      simp only [Side.recount]
      omega

end Moves

/-! ### What the calls report -/

/-- The bytes a call of side `σ` has moved so far. -/
def Pc.movedBy (σ : Side) : Pc → List UInt8
  | .call σ' _ _ moved _ => if σ' = σ then moved else []
  | _ => []

/-- The byte of this round has still to be moved. -/
def Stage.BeforeByte : Stage → Prop
  | .loadIndex => True
  | .byte _ => True
  | _ => False

/-- A writer takes the bytes of its source in turn, and is not past the end when it moves one. -/
def Pc.SourceOk : Pc → Prop
  | .call .writer len src moved st =>
    len = src.length ∧ moved <+: src ∧ (st.BeforeByte → moved.length < len)
  | _ => True

/-- What a thread's calls have reported, and what the call it is in has moved so far, is what the log
has of it. -/
structure LogInv [DecidableEq ι] (s : Sys ι) : Prop where
  mine : ∀ σ t, bytes ((s.log σ).filter fun e => e.1 = t) = s.past σ t ++ (s.pc t).movedBy σ
  source : ∀ t, (s.pc t).SourceOk

section Logs

variable [DecidableEq ι]

lemma LogInv.goto {old : Pc} (h : LogInv s) (ht : s.pc t = old)
    (hpc : s'.pc = update s.pc t pc := by rfl) (hsource : pc.SourceOk := by trivial)
    (hmoved : ∀ σ, pc.movedBy σ = old.movedBy σ := by rintro ⟨⟩ <;> rfl)
    (hlog : s'.log = s.log := by rfl) (hpast : s'.past = s.past := by rfl) : LogInv s' := by
  subst ht
  refine ⟨fun τ u => ?_, ?_⟩
  · rw [hlog, hpast, h.mine, hpc]
    by_cases hut : u = t
    · rw [hut, update_self, hmoved]
    · rw [update_of_ne hut]
  · rw [hpc]
    exact (forall_update_iff s.pc fun _ p => p.SourceOk).mpr ⟨hsource, fun u _ => h.source u⟩

lemma movedBy_rouse (σ : Side) (pc : Pc) : pc.rouse.movedBy σ = pc.movedBy σ := by
  unfold Pc.rouse
  split <;> rfl

lemma sourceOk_rouse (h : pc.SourceOk) : pc.rouse.SourceOk := by
  unfold Pc.rouse
  split
  next σ len src moved =>
    cases σ with
    | reader => trivial
    | writer => exact ⟨h.1, h.2.1, False.elim⟩
  · exact h

section

variable (h : LogInv s)
include h

lemma LogInv.wakeAll (σ : Side) : LogInv (wakeAll s σ) := by
  refine ⟨fun τ u => ?_, fun u => ?_⟩
  · simp only [Pipe.wakeAll]
    split_ifs
    · rw [movedBy_rouse]
      exact h.mine τ u
    · exact h.mine τ u
  · simp only [Pipe.wakeAll]
    split_ifs
    · exact sourceOk_rouse (h.source u)
    · exact h.source u

lemma LogInv.schedWake (t : ι) : LogInv (schedWake s t) := by
  simp only [Pipe.schedWake]
  split_ifs
  · exact ⟨h.mine, h.source⟩
  · exact h.goto rfl rfl (sourceOk_rouse (h.source t)) fun σ => movedBy_rouse σ _

lemma LogInv.ret (ht : s.pc t = .call σ len src moved st) : LogInv (s.ret t σ moved) := by
  refine ⟨fun τ u => ?_, fun u => ?_⟩
  · have hmine := h.mine τ u
    by_cases hut : u = t
    · subst hut
      rw [ht] at hmine
      by_cases hτ : σ = τ
      · subst hτ
        simpa [Sys.ret, Sys.goto, Pc.movedBy] using hmine
      · simpa [Sys.ret, Sys.goto, Pc.movedBy, hτ, Ne.symm hτ] using hmine
    · by_cases hτ : τ = σ
      · subst hτ
        simpa [Sys.ret, Sys.goto, hut] using hmine
      · simpa [Sys.ret, Sys.goto, hut, hτ] using hmine
  · by_cases hut : u = t
    · simp [Sys.ret, Sys.goto, hut, Pc.SourceOk]
    · simpa [Sys.ret, Sys.goto, hut] using h.source u

/-- One byte more in a log, moved by a thread that counts it. -/
lemma LogInv.byte {x : ℕ} (ht : s.pc t = .call σ len src moved (.byte x)) :
    LogInv (byteStep s t len src moved x σ) := by
  have hput : ∀ (b : UInt8) (τ : Side) (u : ι),
      bytes (((update s.log σ (s.log σ ++ [(t, b)])) τ).filter fun e => e.1 = u) =
        s.past τ u ++ (update s.pc t (.call σ len src (moved ++ [b]) .reloadIndex) u).movedBy τ := by
    intro b τ u
    have hmine := h.mine τ u
    by_cases hut : u = t
    · subst hut
      rw [ht] at hmine
      by_cases hτ : τ = σ
      · subst hτ
        simp [bytes, Pc.movedBy] at hmine ⊢
        rw [hmine, append_assoc]
      · simpa [bytes, Pc.movedBy, hτ, Ne.symm hτ] using hmine
    · by_cases hτ : τ = σ
      · subst hτ
        simpa [bytes, hut, Ne.symm hut] using hmine
      · simpa [bytes, hut, hτ] using hmine
  cases σ with
  | reader =>
    refine ⟨fun τ u => hput (s.buf x) τ u, fun u => ?_⟩
    by_cases hut : u = t
    · simp [byteStep, Sys.goto, hut, Pc.SourceOk]
    · simpa [byteStep, Sys.goto, hut] using h.source u
  | writer =>
    refine ⟨fun τ u => hput (src.getD moved.length 0) τ u, fun u => ?_⟩
    by_cases hut : u = t
    · have hsrc := h.source t
      rw [ht] at hsrc
      obtain ⟨hlen, ⟨rest, rfl⟩, hroom⟩ := hsrc
      -- there is a next byte of the source
      have hlt : moved.length < len := hroom trivial
      rw [hlen, length_append] at hlt
      obtain ⟨b, rest, rfl⟩ := exists_cons_of_length_pos (by omega : 0 < rest.length)
      rw [hut]
      simp only [byteStep, Sys.goto, update_self]
      refine ⟨hlen, ⟨rest, ?_⟩, False.elim⟩
      simp
    · simpa [byteStep, Sys.goto, hut] using h.source u

lemma LogInv.stage {st' : Stage} (ht : s.pc t = .call σ len src moved st)
    (hpc : s'.pc = update s.pc t (.call σ len src moved st') := by rfl)
    (hroom : st'.BeforeByte → st.BeforeByte ∨ moved.length < len := by exact False.elim)
    (hlog : s'.log = s.log := by rfl) (hpast : s'.past = s.past := by rfl) : LogInv s' := by
  refine h.goto ht hpc ?_ (fun τ => rfl) hlog hpast
  have hsrc := h.source t
  rw [ht] at hsrc
  cases σ with
  | reader => trivial
  | writer => exact ⟨hsrc.1, hsrc.2.1, fun hb => (hroom hb).elim hsrc.2.2 id⟩

lemma LogInv.step (hok : Undisturbed s a) (hstep : pipeStep s a = some s') : LogInv s' := by
  rcases turn_of_step hok hstep with ⟨t, rfl⟩ | ⟨t, -, ht⟩
  · exact h.schedWake t
  generalize hp : s.pc t = p at ht
  cases ht with
  | go hg =>
    cases hg with
    | free hlt => exact h.stage hp rfl fun _ => .inr hlt
    | loadIndex => exact h.stage hp rfl fun _ => .inl trivial
    | _ => exact h.stage hp
  | add | woken | remove | storeCount => exact h.stage hp
  | @storeIndex σ => cases σ <;> exact h.stage hp
  | read | closed => exact h.goto hp
  | write => exact h.goto hp rfl ⟨rfl, nil_prefix, False.elim⟩
  | close σ => cases σ <;> exact h.goto hp
  | closedLast => exact (h.wakeAll _).goto (pc_wakeAll _ hp rfl)
  | ret => exact h.ret hp
  | byte => exact h.byte hp
  | wake => exact (h.wakeAll _).ret (pc_wakeAll _ hp rfl)

end

end Logs

end Makaos.Pipe
