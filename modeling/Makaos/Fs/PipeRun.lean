import Makaos.Fs.PipeSleep

/-!
What the pipe guarantees to calls that do not disturb each other.

* `pipe_good`: **integrity and progress of the pipe**, for runs of such calls.
* `pipe_stuck`: a write longer than the buffer and a reader that waits for it, both asleep; and a byte
  that is lost because both sides update `count`.
-/

namespace Makaos.Pipe

open Function Transition List Sys Option
open RingWindow

variable {ι : Type*}
variable {s : Sys (Fin 2)}

/-! ### Runs -/

/-- What the pipe guarantees. -/
structure PipeGood [DecidableEq ι] (s : Sys ι) : Prop where
  /-- A byte that went in has come out once, or is in the buffer; and the bytes come out in order. -/
  kept : ∃ h c, bytes (s.log .writer) = bytes (s.log .reader) ++ window pipeBufSize s.buf h c ∧
    ((∀ u, ¬ (s.pc u).Moving) → Still s h c)
  /-- The bytes of the log are those that the calls report, and that writers were given. -/
  reported : ∀ σ t, bytes ((s.log σ).filter fun e => e.1 = t) = s.past σ t ++ (s.pc t).movedBy σ
  source : ∀ {t len src moved st}, s.pc t = .call .writer len src moved st → moved <+: src
  /-- A sleeper has nothing to go on with, or a call will wake it; the other side is open, or a close
  will wake it. -/
  sleepers : ∀ {σ t}, (s.pc t).Asleep σ → NoneLeft s σ ∧ OtherOpen s σ
  /-- A reader and a writer do not sleep with nobody to wake one of them. -/
  progress : ∀ {t u}, (s.pc t).Asleep .reader → (s.pc u).Asleep .writer →
    ∃ v, (s.pc v).Announces .reader ∨ (s.pc v).Announces .writer

section Runs

variable [DecidableEq ι] {s : Sys ι}

/-- The three invariants. -/
structure PipeInv (s : Sys ι) : Prop where
  ring : RingInv s
  logs : LogInv s
  sleep : SleepInv s

lemma PipeInv.sleepers (h : PipeInv s) {σ : Side} {t : ι} (ht : (s.pc t).Asleep σ) :
    NoneLeft s σ ∧ OtherOpen s σ := by
  have hok := h.sleep t
  unfold Pc.Asleep at ht
  split at ht
  next τ len src moved hpc =>
    subst ht
    rw [hpc] at hok
    exact (hok.2 _ rfl).2
  · exact absurd ht id

lemma PipeInv.good (h : PipeInv s) : PipeGood s where
  kept := by
    obtain ⟨x, c, hat⟩ := h.ring
    exact ⟨x, c, hat.bytes, hat.still⟩
  reported := h.logs.mine
  source {t len src moved st} ht := by
    have hsrc := h.logs.source t
    rw [ht] at hsrc
    exact hsrc.2.1
  sleepers := h.sleepers
  progress {t u} ht hu := by
    -- the buffer is not empty and full at once
    rcases (h.sleepers ht).1 with hempty | ⟨v, hv⟩
    · rcases (h.sleepers hu).1 with hfull | ⟨v, hv⟩
      · have hzero : s.count = 0 := hempty
        have hn : s.count = pipeBufSize := hfull
        exact absurd (hzero.symm.trans hn) pipeBufSize_pos.ne
      · exact ⟨v, .inr hv⟩
    · exact ⟨v, .inl hv⟩

omit [DecidableEq ι] in
lemma ringInv_create : RingInv (create : Sys ι) :=
  ⟨0, 0, pipeBufSize_pos, Nat.zero_le _, rfl, fun _ => ⟨rfl, rfl, rfl⟩, fun hu => absurd hu id,
    fun hu => absurd hu id⟩

lemma pipeInv_create : PipeInv (create : Sys ι) :=
  ⟨ringInv_create, ⟨fun _ _ => rfl, fun _ => trivial⟩, fun _ => trivial⟩

/-- **Integrity and progress of the pipe**, in every run of calls that do not disturb each other: a
call looks at `count` for its next byte only while no other call is moving one, and goes to sleep only
before it has moved a byte. -/
theorem pipe_good (acts : List (Act ι)) (s : Sys ι) (hrun : exec pipeStep create acts = some s)
    (hok : Meets pipeStep Undisturbed create acts) : PipeGood s :=
  (exec_invariant (I := PipeInv)
    (fun h hok hstep =>
      ⟨h.ring.step hok hstep, h.logs.step hok hstep, h.sleep.step h.ring hok hstep⟩)
    hrun hok pipeInv_create).good

end Runs

/-- A read that waits for a byte, and a write of one. -/
def oneByte : { acts : List (Act (Fin 2)) // Meets pipeStep Undisturbed create acts } :=
  ⟨.read 0 1 :: replicate 8 (.run 0) ++ .write 1 [7] :: replicate 10 (.run 1) ++
    replicate 12 (.run 0), by decide +kernel⟩

/-- The byte arrives. -/
theorem pipe_good_oneByte :
    ∃ s : Sys (Fin 2), exec pipeStep create oneByte.1 = some s ∧ s.past .reader 0 = [7] ∧
      PipeGood s := by
  exact exists_run fun s hs _ => pipe_good _ s hs oneByte.2

/-! ### Calls that disturb each other -/

/-- A write of one byte more than the buffer holds. -/
def longSource : List UInt8 := replicate (pipeBufSize + 1) 7

/-- A read waits for a byte, the long write fills the buffer and waits for room. -/
def longWrite : List (Act (Fin 2)) :=
  .read 0 1 :: replicate 8 (.run 0) ++ [.write 1 longSource, .run 1] ++
    (replicate pipeBufSize (replicate 7 (.run 1))).flatten ++ replicate 8 (.run 1)

/-- The reader sleeps and the writer has filled `k` cells. -/
structure Filled (k : ℕ) (s : Sys (Fin 2)) : Prop where
  reader : s.pc 0 = .call .reader 1 [] [] (.wait .asleep)
  writer : ∃ moved, s.pc 1 = .call .writer (pipeBufSize + 1) longSource moved .top ∧ moved.length = k
  count : s.count = k
  refs : s.readerRefs = 1
  pending : s.wakePending 1 = false

lemma run_call [DecidableEq ι] {s : Sys ι} {t : ι} {σ : Side} {len : ℕ}
    {src moved : List UInt8} {st : Stage} (h : s.pc t = .call σ len src moved st) :
    pipeStep s (.run t) = callStep s t σ len src moved st := by
  simp only [pipeStep, h]

lemma Filled.next {k : ℕ} (h : Filled k s) (hk : k < pipeBufSize) :
    ∃ s', exec pipeStep s (replicate 7 (.run 1)) = some s' ∧ Filled (k + 1) s' := by
  obtain ⟨moved, hpc, hlen⟩ := h.writer
  have htop : pipeStep s (.run 1) =
      some (s.goto 1 (.call .writer (pipeBufSize + 1) longSource moved .loadIndex)) := by
    have hfree : ¬ Side.writer.Blocked s.count := by
      rw [h.count]
      exact hk.ne
    rw [run_call hpc, callStep, if_pos (by omega), if_neg hfree]
  have hlt := pipeBufSize_lt
  set b := longSource.getD moved.length 0 with hb
  refine ⟨{ s with
    buf := update s.buf s.tail b
    tail := (s.tail + 1) % pipeBufSize
    count := Side.writer.recount s.count
    pc := update s.pc 1 (.call .writer (pipeBufSize + 1) longSource (moved ++ [b]) .top)
    log := update s.log .writer (s.log .writer ++ [(1, b)]) }, ?_, ?_⟩
  · simp only [replicate]
    rw [exec_of_step htop]
    simp [exec, pipeStep, callStep, byteStep, goto, setIndex, index, hb]
  · refine ⟨by simpa using h.reader, ⟨moved ++ [b], by simp, by simp [hlen]⟩, ?_, h.refs, h.pending⟩
    simp only [Side.recount, h.count]
    omega

lemma Filled.all {n k : ℕ} (h : Filled k s) (hn : k + n ≤ pipeBufSize) :
    ∃ s', exec pipeStep s (replicate n (replicate 7 (.run 1))).flatten = some s' ∧
      Filled (k + n) s' := by
  induction n generalizing k s with
  | zero => exact ⟨s, rfl, h⟩
  | succ n ih =>
    obtain ⟨s1, hs1, h1⟩ := h.next (by omega)
    obtain ⟨s2, hs2, h2⟩ := ih h1 (by omega)
    refine ⟨s2, ?_, by rwa [Nat.add_right_comm] at h2⟩
    rw [replicate_succ, flatten_cons, exec_append, hs1, bind_some, hs2]

/-- The writer finds the buffer full and goes to sleep. -/
lemma Filled.sleep (h : Filled pipeBufSize s) :
    ∃ s', exec pipeStep s (replicate 8 (.run 1)) = some s' ∧
      (s'.pc 0).Asleep .reader ∧ (s'.pc 1).Asleep .writer ∧ s'.count = pipeBufSize := by
  obtain ⟨moved, hpc, hlen⟩ := h.writer
  have htop : pipeStep s (.run 1) =
      some (s.goto 1 (.call .writer (pipeBufSize + 1) longSource moved .refs)) := by
    rw [run_call hpc, callStep, if_pos (by omega), if_pos (show Side.writer.Blocked s.count from h.count)]
  refine ⟨{ s with
    queue := update s.queue .writer (insert 1 (s.queue .writer))
    pc := update s.pc 1
      (.call .writer (pipeBufSize + 1) longSource moved (.wait .asleep)) }, ?_, ?_, ?_, h.count⟩
  · simp only [replicate]
    rw [exec_of_step htop]
    simp [exec, pipeStep, callStep, waitStep, Sys.goto, Sys.refs, Side.other, Side.Blocked,
      h.count, h.refs, h.pending]
  · simp [h.reader, Pc.Asleep]
  · simp [Pc.Asleep]

/-- A byte is written while a read of another byte is between its load and its store of `count`. -/
def crossedCount : List (Act (Fin 2)) :=
  .write 1 [7] :: replicate 10 (.run 1) ++ .read 0 1 :: replicate 6 (.run 0) ++
    .write 1 [8] :: replicate 10 (.run 1) ++ replicate 3 (.run 0)

/-- **The pipe gets stuck, and loses bytes.** A reader waits for a byte and a writer for room, the
buffer is full, and nobody is left to wake either; and a byte is gone: it went in, it has not come out,
and the buffer is empty. -/
theorem pipe_stuck : (∃ s : Sys (Fin 2), exec pipeStep create longWrite = some s ∧
      (s.pc 0).Asleep .reader ∧ (s.pc 1).Asleep .writer ∧ s.count = pipeBufSize ∧ ¬ PipeGood s) ∧
    ∃ s : Sys (Fin 2), exec pipeStep create crossedCount = some s ∧
      (∀ t, s.pc t = .idle) ∧ s.count = 0 ∧ bytes (s.log .writer) = [7, 8] ∧
        bytes (s.log .reader) = [7] := by
  constructor
  · obtain ⟨s0, hs0, hreader, hidle, hcount, hrefs, hpending⟩ := exists_of_any pipeStep
      (create : Sys (Fin 2)) (.read 0 1 :: replicate 8 (.run 0))
      (fun s => s.pc 0 = .call .reader 1 [] [] (.wait .asleep) ∧ s.pc 1 = .idle ∧ s.count = 0 ∧
        s.readerRefs = 1 ∧ s.wakePending 1 = false)
    -- the writer starts
    have hs1 : exec pipeStep s0 [.write 1 longSource, .run 1] =
        some (s0.goto 1 (.call .writer (pipeBufSize + 1) longSource [] .top)) := by
      simp [exec, pipeStep, callStep, goto, refs, Side.other, hidle, hrefs, longSource]
    have h1 : Filled 0 (s0.goto 1 (.call .writer (pipeBufSize + 1) longSource [] .top)) :=
      ⟨by simpa [goto] using hreader, ⟨[], by simp [goto], rfl⟩, hcount, hrefs, hpending⟩
    obtain ⟨s2, hs2, h2⟩ := h1.all (n := pipeBufSize) (by omega)
    rw [Nat.zero_add] at h2
    obtain ⟨s, hs, hr, hw, hfull⟩ := h2.sleep
    refine ⟨s, ?_, hr, hw, hfull, fun hgood => ?_⟩
    · rw [longWrite, exec_append, exec_append, exec_append, hs0,
        bind_some, hs1, bind_some, hs2, bind_some, hs]
    · -- both threads sleep, so nobody has anything to announce
      have hquiet : ∀ {σ τ : Side} {pc : Pc}, pc.Asleep σ → ¬ pc.Announces τ := by
        intro σ τ pc hpc
        unfold Pc.Asleep at hpc
        split at hpc
        · simp [Pc.Announces, Stage.Moving]
        · exact absurd hpc id
      obtain ⟨v, hv⟩ := hgood.progress hr hw
      fin_cases v
      · exact hv.elim (hquiet hr) (hquiet hr)
      · exact hv.elim (hquiet hw) (hquiet hw)
  · exact exists_of_any _ _ _ _

end Makaos.Pipe
