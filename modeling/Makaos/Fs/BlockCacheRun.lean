import Makaos.Fs.BlockCache
import Makaos.Lib.History

/-!
What the block cache serves.

A miss, and a write, is a disk transfer followed by `bcache_fill`, and no lock spans the two. If the
transfer and the fill of two calls for one set do not overlap, a set is in order between the calls
and is put in order by the one call at work on it.

* `SetInv`: the state of one set, with the call at work on it.
* `cache_coherent`: **one way for a block, and no reader gets data older than a write that had
  returned before it started**, if the calls of one set do not overlap like that.
* `stale_read`: a miss that read the disk before a write, and fills the cache after it.
-/

namespace Makaos.Bcache

open Transition Sys List History
open Function (update update_apply update_eq_self update_of_ne update_self)
variable {ι α : Type*}
variable {d : α} {who : Caller} {pc : Pc α} {c : Cfg} {s s' : Sys ι α} {t : ι}

/-! ### What is claimed of the cache -/

/-- The call has returned data `d` for block `b`; it started when version `floor` was the last one
whose write had returned. -/
inductive Yields : Pc α → ℕ → ℕ → α → Prop
  | pinned (b floor w : ℕ) (d : α) : Yields (.holding b floor w d) b floor d
  | scratch (b floor : ℕ) (d : α) : Yields (.scratch b floor d) b floor d

/-- The cache is coherent. -/
structure Coherent (c : Cfg) (s : Sys ι α) : Prop where
  one_way : ∀ {k k' b}, (s.way k).tag = some b → (s.way k').tag = some b → k = k'
  pinned : ∀ {t b floor w d}, s.pc t = .holding b floor w d →
    (s.way (c.setOf b, w)).data = d ∧
      ((s.way (c.setOf b, w)).tag = some b ∨ (s.way (c.setOf b, w)).tag = none)
  fresh : ∀ {t b floor d}, Yields (s.pc t) b floor d → Seen (s.log b) floor d

/-- The thread is between the disk transfer and the end of `bcache_fill`, for a block of set `S`. -/
def Filling (c : Cfg) (S : ℕ) : Pc α → Prop
  | .fill b _ _ _ => c.setOf b = S
  | _ => False

/-- The block of the disk transfer a thread is about to make. -/
def Pc.transfer : Pc α → Option ℕ
  | .diskRead b _ => some b
  | .diskWrite b _ => some b
  | _ => none

/-- A disk transfer for a block of a set is made only while no other call is between its transfer and
the end of its fill for that set. -/
def TransferAlone (c : Cfg) (s : Sys ι α) : Act ι α → Prop
  | .run t => ∀ b ∈ (s.pc t).transfer, ∀ u, ¬ Filling c (c.setOf b) (s.pc u)
  | _ => True

instance (c : Cfg) (S : ℕ) : DecidablePred (Filling (α := α) c S)
  | .fill b _ _ _ => inferInstanceAs (Decidable (c.setOf b = S))
  | .idle | .pinNext _ _ _ | .check _ _ _ | .unpin _ _ _ | .diskRead _ _ | .holding _ _ _ _
  | .scratch _ _ _ | .diskWrite _ _ => inferInstanceAs (Decidable False)

instance [Fintype ι] (c : Cfg) (s : Sys ι α) : DecidablePred (TransferAlone c s)
  | .run t =>
    inferInstanceAs (Decidable (∀ b ∈ (s.pc t).transfer, ∀ u, ¬ Filling c (c.setOf b) (s.pc u)))
  | .get _ _ | .write _ _ _ | .put _ | .fail _ => inferInstanceAs (Decidable True)

/-! ### One set -/

/-- No way of the set has the tag of the block. -/
def Clean (c : Cfg) (s : Sys ι α) (b : ℕ) : Prop := ∀ w, (s.way (c.setOf b, w)).tag ≠ some b

/-- The tag a fill may put back is in order: another block of the set, in no other way, and the way
still holds its data. -/
def OldOk (c : Cfg) (s : Sys ι α) (b v : ℕ) (old : Option ℕ) : Prop :=
  ∀ e, old = some e → e ≠ b ∧ c.setOf e = c.setOf b ∧
    Seen (s.log e) (s.done e) (s.way (c.setOf b, v)).data ∧
      ∀ w, w ≠ v → (s.way (c.setOf b, w)).tag ≠ some e

/-- The state of the set at each point of a fill. -/
def StageOk (c : Cfg) (s : Sys ι α) (b : ℕ) (d : α) : FillPc → Prop
  | .inval w => ∀ w' < w, (s.way (c.setOf b, w')).tag ≠ some b
  | .invalStore w => ∀ w' < w, (s.way (c.setOf b, w')).tag ≠ some b
  | .findEmpty _ => Clean c s b
  | .findOld _ _ _ => Clean c s b
  | .tryLock v => v < c.nWays ∧ Clean c s b
  | .pin1 v => v < c.nWays ∧ Clean c s b
  | .saveTag v => v < c.nWays ∧ Clean c s b
  | .poison v old => v < c.nWays ∧ Clean c s b ∧ OldOk c s b v old
  | .pin2 v old => v < c.nWays ∧ Clean c s b ∧ OldOk c s b v old
  | .restore v old => v < c.nWays ∧ Clean c s b ∧ OldOk c s b v old
  | .copy v => v < c.nWays ∧ Clean c s b
  | .publish v => v < c.nWays ∧ Clean c s b ∧ (s.way (c.setOf b, v)).data = d
  | .unlock _ => ∀ w, (s.way (c.setOf b, w)).tag = some b → (s.way (c.setOf b, w)).data = d

/-- The version a writer has put on the disk. -/
def Caller.Wrote (who : Caller) (log : List α) : Prop :=
  ∀ v, who = .write v → v + 1 = log.length

/-- One set: its ways, the blocks that belong to it and the call at work on it. -/
structure SetInv (c : Cfg) (s : Sys ι α) (S : ℕ) : Prop where
  /-- The disk has the last version, and it exists. -/
  disk : ∀ {b}, c.setOf b = S → (s.log b).getLast? = some (s.disk b)
  done : ∀ {b}, c.setOf b = S → s.done b < (s.log b).length
  way : ∀ {w b}, (s.way (S, w)).tag = some b →
    w < c.nWays ∧ c.setOf b = S ∧ Seen (s.log b) (s.done b) (s.way (S, w)).data
  single : ∀ {w w' b}, (s.way (S, w)).tag = some b → (s.way (S, w')).tag = some b → w = w'
  alone : ∀ {t u}, Filling c S (s.pc t) → Filling c S (s.pc u) → t = u
  stage : ∀ {t b d who st}, s.pc t = .fill b d who st → c.setOf b = S →
    s.disk b = d ∧ who.Wrote (s.log b) ∧ StageOk c s b d st

/-! ### Steps elsewhere -/

/-- Two states agree on a set: on the tags and the data of its ways and on its blocks. -/
structure SameSet (c : Cfg) (s s' : Sys ι α) (S : ℕ) : Prop where
  tag : ∀ w, (s'.way (S, w)).tag = (s.way (S, w)).tag
  data : ∀ w, (s'.way (S, w)).data = (s.way (S, w)).data
  disk : ∀ {b}, c.setOf b = S → s'.disk b = s.disk b
  log : ∀ {b}, c.setOf b = S → s'.log b = s.log b
  done : ∀ {b}, c.setOf b = S → s'.done b = s.done b

section Frame

variable {S b v : ℕ}

lemma Clean.frame (h : Clean c s b) (hsame : SameSet c s s' (c.setOf b)) : Clean c s' b := fun w => by
  rw [hsame.tag]
  exact h w

lemma OldOk.frame {old : Option ℕ} (h : OldOk c s b v old) (hsame : SameSet c s s' (c.setOf b)) :
    OldOk c s' b v old := by
  intro e he
  obtain ⟨hne, hset, hnew, hother⟩ := h e he
  refine ⟨hne, hset, ?_, fun w hw => ?_⟩
  · rwa [hsame.log hset, hsame.done hset, hsame.data]
  · rw [hsame.tag]
    exact hother w hw

lemma StageOk.frame {st : FillPc} (h : StageOk c s b d st) (hsame : SameSet c s s' (c.setOf b)) :
    StageOk c s' b d st := by
  cases st with
  | inval w | invalStore w => exact fun w' hw => by rw [hsame.tag]; exact h w' hw
  | findEmpty w | findOld w v o => exact Clean.frame h hsame
  | tryLock v | pin1 v | saveTag v | copy v => exact ⟨h.1, h.2.frame hsame⟩
  | poison v old | pin2 v old | restore v old => exact ⟨h.1, h.2.1.frame hsame, h.2.2.frame hsame⟩
  | publish v => exact ⟨h.1, h.2.1.frame hsame, by rw [hsame.data]; exact h.2.2⟩
  | unlock v =>
    intro w hw
    rw [hsame.tag] at hw
    rw [hsame.data]
    exact h w hw

/-- **A step that leaves a set alone**, and starts no call on it, keeps it in order. -/
lemma SetInv.frame (h : SetInv c s S) (hsame : SameSet c s s' S)
    (hpc : ∀ t, Filling c S (s'.pc t) → s'.pc t = s.pc t) : SetInv c s' S where
  disk hb := by
    rw [hsame.log hb, hsame.disk hb]
    exact h.disk hb
  done hb := by
    rw [hsame.log hb, hsame.done hb]
    exact h.done hb
  way {w b} hw := by
    rw [hsame.tag] at hw
    obtain ⟨hlt, hset, hnew⟩ := h.way hw
    rw [hsame.data, hsame.log hset, hsame.done hset]
    exact ⟨hlt, hset, hnew⟩
  single hw hw' := by
    rw [hsame.tag] at hw hw'
    exact h.single hw hw'
  alone ht hu := h.alone (hpc _ ht ▸ ht) (hpc _ hu ▸ hu)
  stage {t b d who st} ht hb := by
    have hold : s.pc t = .fill b d who st := by
      rwa [← hpc t (by rw [ht]; exact hb)]
    obtain ⟨hdisk, hwho, hst⟩ := h.stage hold hb
    subst hb
    rw [hsame.disk rfl, hsame.log rfl]
    exact ⟨hdisk, hwho, hst.frame hsame⟩

/-- A step that touches no tag, no data and no block. -/
structure Quiet (s s' : Sys ι α) : Prop where
  tag : ∀ k, (s'.way k).tag = (s.way k).tag
  data : ∀ k, (s'.way k).data = (s.way k).data
  disk : s'.disk = s.disk
  log : s'.log = s.log
  done : s'.done = s.done

lemma Quiet.sameSet (h : Quiet s s') (S : ℕ) : SameSet c s s' S :=
  ⟨fun _ => h.tag _, fun _ => h.data _, fun _ => congrFun h.disk _, fun _ => congrFun h.log _,
    fun _ => congrFun h.done _⟩

lemma Quiet.of_way (hway : s'.way = s.way) (hdisk : s'.disk = s.disk) (hlog : s'.log = s.log)
    (hdone : s'.done = s.done) : Quiet s s' :=
  ⟨fun _ => by rw [hway], fun _ => by rw [hway], hdisk, hlog, hdone⟩

/-- A change of a way that keeps its tag and its data. -/
lemma Quiet.of_update {k : ℕ × ℕ} {y : Way α} (hway : s'.way = update s.way k y)
    (htag : y.tag = (s.way k).tag) (hdata : y.data = (s.way k).data) (hdisk : s'.disk = s.disk)
    (hlog : s'.log = s.log) (hdone : s'.done = s.done) : Quiet s s' := by
  refine ⟨fun k' => ?_, fun k' => ?_, hdisk, hlog, hdone⟩ <;>
    by_cases hk : k' = k <;> simp [hway, hk, htag, hdata]

variable [DecidableEq ι]

lemma Quiet.goto (s : Sys ι α) (t : ι) (pc : Pc α) : Quiet s (s.goto t pc) := .of_way rfl rfl rfl rfl

/-- Another thread than the one that moves is where it was. -/
lemma filling_update {f : ι → Pc α} (hpc : ¬ Filling c S pc) (u : ι)
    (hu : Filling c S (update f t pc u)) : update f t pc u = f u := by
  rw [update_apply] at hu ⊢
  split_ifs at hu ⊢
  · exact absurd hu hpc
  · rfl

end Frame

/-! ### The call at work on the set -/

section Advance

variable [DecidableEq ι] {b v : ℕ} {st st' : FillPc}

/-- What a way of the set holds. -/
abbrev WayOk (c : Cfg) (s : Sys ι α) (S w e : ℕ) (d : α) : Prop :=
  w < c.nWays ∧ c.setOf e = S ∧ Seen (s.log e) (s.done e) d

/-- The thread that moves is the only one at work on the set. -/
lemma only_filling (hpc : s'.pc = update s.pc t (.fill b d who st))
    (hothers : ∀ u, u ≠ t → ¬ Filling c (c.setOf b) (s.pc u)) (u : ι)
    (hu : Filling c (c.setOf b) (s'.pc u)) : u = t ∧ s'.pc u = .fill b d who st := by
  by_cases hut : u = t
  · exact ⟨hut, by rw [hpc, hut, update_self]⟩
  · rw [hpc, update_of_ne hut] at hu
    exact absurd hu (hothers u hut)

section

variable (h : SetInv c s (c.setOf b))
include h

section

variable (ht : s.pc t = .fill b d who st)
include ht

/-- The call goes on: the ways are in order and so is the stage it is at. -/
lemma SetInv.advance (hpc : s'.pc = update s.pc t (.fill b d who st')) (hdisk : s'.disk = s.disk)
    (hlog : s'.log = s.log) (hdone : s'.done = s.done)
    (hway : ∀ {w e}, (s'.way (c.setOf b, w)).tag = some e →
      WayOk c s (c.setOf b) w e (s'.way (c.setOf b, w)).data)
    (hsingle : ∀ {w w' e}, (s'.way (c.setOf b, w)).tag = some e →
      (s'.way (c.setOf b, w')).tag = some e → w = w')
    (hst : StageOk c s' b d st') : SetInv c s' (c.setOf b) := by
  have honly := only_filling hpc fun u hne hu => hne (h.alone hu (by rw [ht]; rfl))
  refine ⟨?_, ?_, ?_, hsingle, fun hu hu' => (honly _ hu).1.trans (honly _ hu').1.symm, ?_⟩
  · rw [hlog, hdisk]
    exact h.disk
  · rw [hlog, hdone]
    exact h.done
  · intro w e hw
    rw [hlog, hdone]
    exact hway hw
  · intro u e d' who' st'' hu he
    obtain ⟨rfl, hfill⟩ := honly u (by rw [hu]; exact he)
    cases hu.symm.trans hfill
    rw [hdisk, hlog]
    exact ⟨(h.stage ht rfl).1, (h.stage ht rfl).2.1, hst⟩

/-- The call goes on without a change of tags or data. -/
lemma SetInv.advance_same (hpc : s'.pc = update s.pc t (.fill b d who st')) (hq : Quiet s s')
    (hst : StageOk c s b d st') : SetInv c s' (c.setOf b) := by
  refine h.advance ht hpc hq.disk hq.log hq.done ?_ ?_ (hst.frame (hq.sameSet _))
  · intro w e hw
    rw [hq.tag] at hw
    rw [hq.data]
    exact h.way hw
  · intro w w' e hw hw'
    rw [hq.tag] at hw hw'
    exact h.single hw hw'

omit ht in
omit h in
lemma tag_setTag (s : Sys ι α) (S v w : ℕ) (tag : Option ℕ) (pc : Pc α) :
    (((s.setWay (S, v) { s.way (S, v) with tag := tag }).goto t pc).way (S, w)).tag =
      if w = v then tag else (s.way (S, w)).tag := by
  by_cases hw : w = v <;> simp [setWay, goto, hw]

omit ht in
omit h in
lemma data_setTag (s : Sys ι α) (S v w : ℕ) (tag : Option ℕ) (pc : Pc α) :
    (((s.setWay (S, v) { s.way (S, v) with tag := tag }).goto t pc).way (S, w)).data =
      (s.way (S, w)).data := by
  by_cases hw : w = v <;> simp [setWay, goto, hw]

/-- The tag of a way is changed, to none or to one that no other way has. -/
lemma SetInv.advance_tag (v : ℕ) (tag : Option ℕ)
    (htag : ∀ e, tag = some e → WayOk c s (c.setOf b) v e (s.way (c.setOf b, v)).data ∧
      ∀ w, w ≠ v → (s.way (c.setOf b, w)).tag ≠ some e)
    (hst : StageOk c ((s.setWay (c.setOf b, v) { s.way (c.setOf b, v) with tag := tag }).goto t
      (.fill b d who st')) b d st') :
    SetInv c ((s.setWay (c.setOf b, v) { s.way (c.setOf b, v) with tag := tag }).goto t
      (.fill b d who st')) (c.setOf b) := by
  refine h.advance ht rfl rfl rfl rfl ?_ ?_ hst
  · intro w e hw
    rw [tag_setTag] at hw
    rw [data_setTag]
    split_ifs at hw with hwv
    · exact hwv ▸ (htag e hw).1
    · exact h.way hw
  · intro w w' e hw hw'
    rw [tag_setTag] at hw hw'
    split_ifs at hw with hwv
    · split_ifs at hw' with hwv'
      · rw [hwv, hwv']
      · exact absurd hw' ((htag e hw).2 w' hwv')
    · split_ifs at hw' with hwv'
      · exact absurd hw ((htag e hw').2 w hwv)
      · exact h.single hw hw'

/-- **The call returns**: what is in the cache for its block, if anything, is what is on the disk. -/
lemma SetInv.finish
    (hdone : ∀ w, (s.way (c.setOf b, w)).tag = some b → (s.way (c.setOf b, w)).data = d) :
    SetInv c (s.finish t b d who) (c.setOf b) := by
  obtain ⟨hd, hwho, -⟩ := h.stage ht rfl
  cases who with
  | get floor => exact h.frame ((Quiet.goto s t _).sameSet _) (filling_update id)
  | write v =>
    have hv : v + 1 = (s.log b).length := hwho v rfl
    have hmax : max (s.done b) v < (s.log b).length := by
      have := h.done (b := b) rfl
      omega
    have hframe : SetInv c (s.goto t .idle) (c.setOf b) :=
      h.frame ((Quiet.goto s t _).sameSet _) (filling_update id)
    -- only the last finished version of the block changes
    refine ⟨hframe.disk, ?_, ?_, hframe.single, hframe.alone, ?_⟩
    · intro e he
      by_cases heb : e = b
      · subst heb
        simpa [finish, goto] using hmax
      · simpa [finish, goto, heb] using h.done he
    · intro w e hw
      obtain ⟨hlt, hset, hnew⟩ := h.way (w := w) (b := e) hw
      refine ⟨hlt, hset, ?_⟩
      by_cases heb : e = b
      · subst heb
        have hdata : (s.way (c.setOf e, w)).data = s.disk e := by rw [hdone w hw, hd]
        simp only [finish, goto, update_self, hdata]
        exact seen_last (h.disk rfl) hmax
      · simpa [finish, goto, heb] using hnew
    · intro u e d' who' st'' hu he
      have hnow : update s.pc t .idle u = _ := hu
      have hold := filling_update (c := c) (S := c.setOf b) id u (by rw [hnow]; exact he)
      -- the set has no other call at work on it
      have hut : u = t := h.alone (by rw [← hold, hnow]; exact he) (by rw [ht]; rfl)
      subst hut
      simp [finish, goto] at hu

end

lemma SetInv.fill [Fintype ι] (hways : WaysInv c s)
    (ht : s.pc t = .fill b d who st) : SetInv c (fillStep c s t b d who st) (c.setOf b) := by
  obtain ⟨hd, hwho, hst⟩ := h.stage ht rfl
  have hsame : ∀ {st'}, StageOk c s b d st' → SetInv c (s.goto t (.fill b d who st')) (c.setOf b) :=
    h.advance_same ht rfl (.goto s t _)
  cases st with
  | inval w =>
    simp only [fillStep]
    split_ifs with hw htag
    · exact hsame hst
    · refine hsame fun w' hw' => ?_
      rcases Nat.lt_succ_iff_lt_or_eq.mp hw' with hlt | rfl
      · exact hst w' hlt
      · exact htag
    · -- a way with a tag is one of the set's
      refine hsame fun w' hw' => ?_
      exact hst w' (lt_of_lt_of_le (h.way hw').1 (not_lt.mp hw)) hw'
  | invalStore w =>
    refine h.advance_tag ht w none (by simp) fun w' hw' => ?_
    rw [tag_setTag]
    split_ifs with hww
    · simp
    · exact hst w' (by omega)
  | findEmpty w =>
    simp only [fillStep]
    split_ifs with hw hempty
    · exact hsame ⟨hw, hst⟩
    · exact hsame hst
    · exact hsame hst
  | findOld w victim oldest =>
    simp only [fillStep]
    split_ifs with hw hpin huse hvictim
    · exact hsame hst
    · exact hsame hst
    · exact hsame hst
    · exact h.finish ht fun w hw => absurd hw (hst w)
    · exact hsame ⟨not_le.mp hvictim, hst⟩
  | tryLock v =>
    simp only [fillStep]
    split_ifs with hlock
    · exact h.finish ht fun w hw => absurd hw (hst.2 w)
    · exact h.advance_same ht rfl (.of_update rfl rfl rfl rfl rfl rfl) hst
  | pin1 v =>
    simp only [fillStep]
    split_ifs with hpin
    · exact hsame fun w hw => absurd hw (hst.2 w)
    · exact hsame hst
  | saveTag v =>
    refine hsame ⟨hst.1, hst.2, fun e he => ?_⟩
    obtain ⟨-, hset, hnew⟩ := h.way he
    refine ⟨?_, hset, hnew, fun w hw htag => hw (h.single htag he)⟩
    rintro rfl
    exact hst.2 v he
  | poison v old =>
    obtain ⟨hv, hclean, hold⟩ := hst
    refine h.advance_tag ht v none (by simp) ⟨hv, fun w => ?_, fun e he => ?_⟩
    · rw [tag_setTag]
      split
      · simp
      · exact hclean w
    · obtain ⟨hne, hset, hnew, hother⟩ := hold e he
      refine ⟨hne, hset, by rw [data_setTag]; exact hnew, fun w hw => ?_⟩
      rw [tag_setTag, if_neg hw]
      exact hother w hw
  | pin2 v old =>
    simp only [fillStep]
    split_ifs with hpin
    · exact hsame hst
    · exact hsame ⟨hst.1, hst.2.1⟩
  | restore v old =>
    obtain ⟨hv, hclean, hold⟩ := hst
    refine h.advance_tag ht v old (fun e he => ?_) fun w hw => ?_
    · obtain ⟨-, hset, hnew, hother⟩ := hold e he
      exact ⟨⟨hv, hset, hnew⟩, hother⟩
    · rw [tag_setTag] at hw
      split at hw
      · exact absurd rfl (hold b hw).1
      · exact absurd hw (hclean w)
  | copy v =>
    obtain ⟨hv, hclean⟩ := hst
    have hnone : (s.way (c.setOf b, v)).tag = none := hways.copying ht
    have htag : ∀ w, ((fillStep c s t b d who (.copy v)).way (c.setOf b, w)).tag =
        (s.way (c.setOf b, w)).tag := fun w => by
      by_cases hwv : w = v <;> simp [fillStep, setWay, goto, hwv]
    refine h.advance ht rfl rfl rfl rfl (fun {w e} hw => ?_) (fun {w w' e} hw hw' => ?_)
      ⟨hv, fun w => ?_, by simp [fillStep, setWay, goto]⟩
    · rw [htag] at hw
      have hwv : w ≠ v := by
        rintro rfl
        simp [hnone] at hw
      simpa [fillStep, setWay, goto, hwv] using h.way hw
    · rw [htag] at hw hw'
      exact h.single hw hw'
    · rw [htag]
      exact hclean w
  | publish v =>
    obtain ⟨hv, hclean, hdata⟩ := hst
    have hlast : Seen (s.log b) (s.done b) d := seen_last (hd ▸ h.disk rfl) (h.done rfl)
    refine h.advance_tag ht v (some b) (fun e he => ?_) fun w hw => ?_
    · cases he
      exact ⟨⟨hv, rfl, hdata ▸ hlast⟩, fun w _ => hclean w⟩
    · rw [tag_setTag] at hw
      rw [data_setTag]
      split_ifs at hw with hwv
      · rw [hwv, hdata]
      · exact absurd hw (hclean w)
  | unlock v =>
    have hframe : SetInv c (s.setWay (c.setOf b, v)
        { s.way (c.setOf b, v) with locked := false }) (c.setOf b) := by
      refine h.frame (Quiet.sameSet ?_ _) fun _ _ => rfl
      exact .of_update rfl rfl rfl rfl rfl rfl
    refine hframe.finish ht fun w hw => ?_
    by_cases hwv : w = v
    · subst hwv
      simpa [setWay] using hst w (by simpa [setWay] using hw)
    · simpa [setWay, hwv] using hst w (by simpa [setWay, hwv] using hw)

end

/-- What a step of a fill does: one way of the set may change, and it goes on or returns. -/
lemma fillStep_form (c : Cfg) (s : Sys ι α) (t : ι) (b : ℕ) (d : α) (who : Caller) (st : FillPc) :
    ∃ s1, (s1 = s ∨ ∃ v y, s1 = s.setWay (c.setOf b, v) y) ∧
      (fillStep c s t b d who st = s1.finish t b d who ∨
        ∃ st', fillStep c s t b d who st = s1.goto t (.fill b d who st')) := by
  cases st with
  | inval w | findEmpty w | pin1 v | pin2 v old | findOld w victim oldest =>
    refine ⟨s, .inl rfl, ?_⟩
    simp only [fillStep]
    split_ifs <;> first | exact .inr ⟨_, rfl⟩ | exact .inl rfl
  | tryLock v =>
    simp only [fillStep]
    split_ifs
    · exact ⟨s, .inl rfl, .inl rfl⟩
    · exact ⟨_, .inr ⟨_, _, rfl⟩, .inr ⟨_, rfl⟩⟩
  | saveTag v => exact ⟨s, .inl rfl, .inr ⟨_, rfl⟩⟩
  | unlock v => exact ⟨_, .inr ⟨_, _, rfl⟩, .inl rfl⟩
  | _ => exact ⟨_, .inr ⟨_, _, rfl⟩, .inr ⟨_, rfl⟩⟩

lemma sameSet_fillStep {S : ℕ} (hS : S ≠ c.setOf b) : SameSet c s
    (fillStep c s t b d who st) S := by
  have hk : ∀ w v : ℕ, (S, w) ≠ (c.setOf b, v) := fun w v h => hS (Prod.ext_iff.mp h).1
  obtain ⟨s1, hs1, hform⟩ := fillStep_form c s t b d who st
  have h1 : SameSet c s s1 S := by
    obtain rfl | ⟨v, y, rfl⟩ := hs1
    · exact (Quiet.of_way rfl rfl rfl rfl).sameSet S
    · exact ⟨fun w => by simp [setWay, hk], fun w => by simp [setWay, hk], fun _ => rfl,
        fun _ => rfl, fun _ => rfl⟩
  obtain hform | ⟨st', hform⟩ := hform <;> rw [hform]
  · cases who with
    | get floor => exact { h1 with }
    | write v =>
      refine { h1 with done := fun {e} he => ?_ }
      have heb : e ≠ b := by
        rintro rfl
        exact hS he.symm
      simpa [finish, heb] using h1.done he
  · exact { h1 with }

/-- Where a fill can be after a step: further on, or back in its caller. -/
inductive Next (s : Sys ι α) (t : ι) (b : ℕ) (d : α) (who : Caller) : Sys ι α → Prop
  | on {s' : Sys ι α} (st' : FillPc) (hpc : s'.pc = update s.pc t (.fill b d who st'))
      (hdisk : s'.disk = s.disk) (hlog : s'.log = s.log) (hdone : s'.done = s.done) :
      Next s t b d who s'
  | back {s' : Sys ι α} (hpc : s'.pc = (s.finish t b d who).pc) (hdisk : s'.disk = s.disk)
      (hlog : s'.log = s.log) (hdone : s'.done = (s.finish t b d who).done) : Next s t b d who s'

lemma next_fillStep (c : Cfg) (s : Sys ι α) (t : ι) (b : ℕ) (d : α) (who : Caller) (st : FillPc) :
    Next s t b d who (fillStep c s t b d who st) := by
  obtain ⟨s1, hs1, hform⟩ := fillStep_form c s t b d who st
  obtain hform | ⟨st', hform⟩ := hform <;> rw [hform]
  · obtain rfl | ⟨v, y, rfl⟩ := hs1 <;> cases who <;> exact .back rfl rfl rfl rfl
  · obtain rfl | ⟨v, y, rfl⟩ := hs1 <;> exact .on st' rfl rfl rfl rfl

lemma SetInv.fillStep [Fintype ι] (h : ∀ S, SetInv c s S) (hways : WaysInv c s)
    (ht : s.pc t = .fill b d who st) (S : ℕ) : SetInv c (fillStep c s t b d who st) S := by
  by_cases hS : S = c.setOf b
  · subst hS
    exact (h _).fill hways ht
  refine (h S).frame (sameSet_fillStep hS) fun u hu => ?_
  -- the thread itself is at work on its own set, or on none
  by_cases hut : u = t
  · subst hut
    exfalso
    cases next_fillStep c s u b d who st with
    | on st' hpc =>
      rw [hpc, update_self] at hu
      exact hS hu.symm
    | back hpc =>
      rw [hpc] at hu
      cases who <;> simp [Sys.finish, Sys.goto, Filling] at hu
  · cases next_fillStep c s t b d who st with
    | on st' hpc => rw [hpc, update_of_ne hut]
    | back hpc =>
      rw [hpc]
      cases who <;> simp [Sys.finish, Sys.goto, hut]

end Advance

/-! ### Readers -/

/-- The call is a `bcache_get` of block `b` that has not returned. -/
inductive Started : Pc α → ℕ → ℕ → Prop
  | pinNext (b floor w : ℕ) : Started (.pinNext b floor w) b floor
  | check (b floor w : ℕ) : Started (.check b floor w) b floor
  | unpin (b floor w : ℕ) : Started (.unpin b floor w) b floor
  | diskRead (b floor : ℕ) : Started (.diskRead b floor) b floor
  | fill (b floor : ℕ) (d : α) (st : FillPc) : Started (.fill b d (.get floor) st) b floor

/-- The readers: none expects more than has been finished, and each that has returned has got what it
may expect. -/
structure ReadersInv (s : Sys ι α) : Prop where
  floor : ∀ {t b n}, Started (s.pc t) b n → n ≤ s.done b
  fresh : ∀ {t b n d}, Yields (s.pc t) b n d → Seen (s.log b) n d

section Readers

variable [DecidableEq ι] {p : Pc α}

/-- A step of one thread, after which the versions are the old ones and perhaps more. -/
lemma ReadersInv.move (h : ReadersInv s) (hpc : s'.pc = update s.pc t p)
    (hdone : ∀ b, s.done b ≤ s'.done b) (hlog : ∀ b, ∃ l, s'.log b = s.log b ++ l)
    (hfloor : ∀ b n, Started p b n → n ≤ s.done b)
    (hfresh : ∀ b n d, Yields p b n d → Seen (s.log b) n d) : ReadersInv s' := by
  constructor
  · intro u b n hu
    rw [hpc, update_apply] at hu
    refine le_trans ?_ (hdone b)
    split_ifs at hu
    · exact hfloor b n hu
    · exact h.floor hu
  · intro u b n d hu
    rw [hpc, update_apply] at hu
    obtain ⟨l, hl⟩ := hlog b
    rw [hl]
    refine Seen.append ?_ l
    split_ifs at hu
    · exact hfresh b n d hu
    · exact h.fresh hu

lemma ReadersInv.fillStep {b : ℕ} {st : FillPc} (h : ReadersInv s) (hset : ∀ S, SetInv c s S)
    (ht : s.pc t = .fill b d who st) : ReadersInv (Bcache.fillStep c s t b d who st) := by
  obtain ⟨hd, -, -⟩ := (hset _).stage ht rfl
  cases next_fillStep c s t b d who st with
  | on st' hpc hdisk hlog hdone =>
    refine h.move hpc (fun e => (congrFun hdone e).ge) (fun e => ⟨[], by rw [hlog, append_nil]⟩)
      (fun e n hn => ?_) nofun
    cases hn
    exact h.floor (t := t) (by rw [ht]; exact .fill b n d st)
  | back hpc hdisk hlog hdone =>
    cases who with
    | get floor =>
      refine h.move (p := .scratch b floor d) hpc (fun e => (congrFun hdone e).ge)
        (fun e => ⟨[], by rw [hlog, append_nil]⟩) nofun fun e n d' hy => ?_
      cases hy
      have hfloor : floor ≤ s.done b := h.floor (t := t) (by rw [ht]; exact .fill b floor d st)
      exact seen_last (hd ▸ (hset _).disk rfl) (lt_of_le_of_lt hfloor ((hset _).done rfl))
    | write v =>
      refine h.move (p := .idle) hpc (fun e => ?_)
        (fun e => ⟨[], by rw [hlog, append_nil]⟩) nofun
        nofun
      rw [hdone]
      by_cases he : e = b
      · subst he
        simp [finish]
      · simp [finish, goto, he]

end Readers

/-! ### Runs -/

/-- The invariant of the cache. -/
structure CacheInv [Fintype ι] (c : Cfg) (s : Sys ι α) : Prop where
  ways : WaysInv c s
  sets : ∀ S, SetInv c s S
  readers : ReadersInv s

section Runs

variable [DecidableEq ι] [Fintype ι]

omit [DecidableEq ι] in
lemma CacheInv.coherent (h : CacheInv c s) : Coherent c s where
  one_way {k k' b} hk hk' := by
    obtain ⟨S, w⟩ := k
    obtain ⟨S', w'⟩ := k'
    obtain rfl : S = S' := ((h.sets S).way hk).2.1.symm.trans ((h.sets S').way hk').2.1
    rw [(h.sets S).single hk hk']
  pinned ht := h.ways.pinned ht
  fresh ht := h.readers.fresh ht

/-- A step that touches no tag, no data and no block, of a thread that does not fill after it. -/
lemma CacheInv.quiet (h : CacheInv c s) (hways : WaysInv c s') (hpc : s'.pc = update s.pc t pc)
    (hnot : ∀ S, ¬ Filling c S pc) (hq : Quiet s s')
    (hfloor : ∀ b n, Started pc b n → n ≤ s.done b := by intros; contradiction)
    (hfresh : ∀ b n d, Yields pc b n d → Seen (s.log b) n d := by intros; contradiction) :
    CacheInv c s' where
  ways := hways
  sets S := by
    refine (h.sets S).frame (hq.sameSet S) ?_
    rw [hpc]
    exact filling_update (hnot S)
  readers := h.readers.move hpc (fun b => (congrFun hq.done b).ge)
    (fun b => ⟨[], by rw [hq.log, append_nil]⟩) hfloor hfresh

section

variable {b : ℕ} (halone : ∀ u, ¬ Filling c (c.setOf b) (s.pc u))
  (hpc : s'.pc = update s.pc t (.fill b d who (.inval 0))) (hway : s'.way = s.way)
  (hdone : s'.done = s.done) (hdisk : s'.disk = update s.disk b d)
  (hlog : s'.log = update s.log b (s'.log b)) (hlast : (s'.log b).getLast? = some d)
  (hgrow : ∃ l, s'.log b = s.log b ++ l) (hwho : who.Wrote (s'.log b))
include halone hpc hway hdone hdisk hlog hlast hgrow hwho

omit [Fintype ι] in
/-- **A transfer** starts the fill of a set nobody is at work on. -/
lemma SetInv.transfer (h : SetInv c s (c.setOf b)) :
    SetInv c s' (c.setOf b) := by
  have honly := only_filling hpc fun u _ => halone u
  obtain ⟨l, hl⟩ := hgrow
  have hlogs : ∀ e, ∃ l, s'.log e = s.log e ++ l := by
    intro e
    by_cases he : e = b
    · subst he
      exact ⟨l, hl⟩
    · exact ⟨[], by rw [hlog, update_of_ne he, append_nil]⟩
  refine ⟨?_, ?_, ?_, ?_, ?_, ?_⟩
  · intro e he
    by_cases heb : e = b
    · subst heb
      rw [hdisk, update_self, hlast]
    · rw [hdisk, hlog, update_of_ne heb, update_of_ne heb]
      exact h.disk he
  · intro e he
    obtain ⟨l', hl'⟩ := hlogs e
    rw [hl', hdone, length_append]
    exact Nat.lt_add_right _ (h.done he)
  · intro w e hw
    rw [hway] at hw ⊢
    obtain ⟨hlt, hset, hnew⟩ := h.way hw
    obtain ⟨l', hl'⟩ := hlogs e
    rw [hl', hdone]
    exact ⟨hlt, hset, hnew.append l'⟩
  · rw [hway]
    exact h.single
  · exact fun hu hu' => (honly _ hu).1.trans (honly _ hu').1.symm
  · intro u e d' who' st hu he
    obtain ⟨rfl, hfill⟩ := honly u (by rw [hu]; exact he)
    cases hu.symm.trans hfill
    rw [hdisk, update_self]
    exact ⟨rfl, hwho, fun w hw => absurd hw (Nat.not_lt_zero w)⟩

lemma CacheInv.transfer (h : CacheInv c s) (hways : WaysInv c s')
    (hfloor : ∀ n, who = .get n → n ≤ s.done b) : CacheInv c s' := by
  refine ⟨hways, fun S => ?_, h.readers.move hpc (fun e => (congrFun hdone e).ge) (fun e => ?_)
    (fun e n hn => ?_) nofun⟩
  · by_cases hS : S = c.setOf b
    · subst hS
      exact SetInv.transfer halone hpc hway hdone hdisk hlog hlast hgrow hwho (h.sets _)
    · have hne : ∀ {e}, c.setOf e = S → e ≠ b := by
        rintro e he rfl
        exact hS he.symm
      refine (h.sets S).frame ⟨fun _ => by rw [hway], fun _ => by rw [hway], fun he => ?_,
        fun he => ?_, fun _ => congrFun hdone _⟩ fun u hu => ?_
      · rw [hdisk, update_of_ne (hne he)]
      · rw [hlog, update_of_ne (hne he)]
      · rw [hpc] at hu ⊢
        exact filling_update (show ¬ Filling c S (.fill b d who _) from fun h => hS (Eq.symm h)) u hu
  · by_cases he : e = b
    · subst he
      exact hgrow
    · exact ⟨[], by rw [hlog, update_of_ne he, append_nil]⟩
  · cases hn
    exact hfloor n rfl

end

lemma CacheInv.run (h : CacheInv c s) (hok : TransferAlone c s (.run t))
    (hstep : runStep c s t = some s') : CacheInv c s' := by
  have hways : WaysInv c s' := h.ways.step (a := .run t) hstep
  have hfloor : ∀ {b n}, Started (s.pc t) b n → n ≤ s.done b := h.readers.floor
  cases hpc : s.pc t with
  | pinNext b floor w =>
    have hn : floor ≤ s.done b := hfloor (by rw [hpc]; exact .pinNext b floor w)
    simp only [runStep, hpc] at hstep
    split_ifs at hstep with hw
    · cases hstep
      exact h.quiet hways rfl (fun _ => id) (.of_update rfl rfl rfl rfl rfl rfl)
        (fun e n hs => by cases hs; exact hn)
    · cases hstep
      exact h.quiet hways rfl (fun _ => id) (.of_way rfl rfl rfl rfl)
        (fun e n hs => by cases hs; exact hn)
  | check b floor w =>
    have hn : floor ≤ s.done b := hfloor (by rw [hpc]; exact .check b floor w)
    simp only [runStep, hpc] at hstep
    split_ifs at hstep with htag
    · cases hstep
      refine h.quiet hways rfl (fun _ => id) (.of_update rfl rfl rfl rfl rfl rfl)
        (by intros; contradiction) (fun e n d hy => ?_)
      cases hy
      exact ((h.sets _).way htag).2.2.mono hn
    · cases hstep
      exact h.quiet hways rfl (fun _ => id) (.of_way rfl rfl rfl rfl)
        (fun e n hs => by cases hs; exact hn)
  | unpin b floor w =>
    have hn : floor ≤ s.done b := hfloor (by rw [hpc]; exact .unpin b floor w)
    simp only [runStep, hpc] at hstep
    cases hstep
    exact h.quiet hways rfl (fun _ => id) (.of_update rfl rfl rfl rfl rfl rfl)
      (fun e n hs => by cases hs; exact hn)
  | diskRead b floor =>
    have hn : floor ≤ s.done b := hfloor (by rw [hpc]; exact .diskRead b floor)
    have halone := hok b (by rw [hpc]; rfl)
    simp only [runStep, hpc] at hstep
    cases hstep
    refine CacheInv.transfer halone rfl rfl rfl (update_eq_self _ _).symm
      (update_eq_self _ _).symm ((h.sets _).disk rfl) ⟨[], (append_nil _).symm⟩
      ?_ h hways (fun n hw => by cases hw; exact hn)
    rintro _ ⟨⟩
  | diskWrite b d =>
    have halone := hok b (by rw [hpc]; rfl)
    simp only [runStep, hpc] at hstep
    cases hstep
    refine CacheInv.transfer halone rfl rfl rfl rfl ?_ ?_ ⟨[d], ?_⟩ ?_ h hways (by simp)
    · simp
    · simp
    · simp
    · intro v hv
      cases hv
      simp
  | fill b d who st =>
    simp only [runStep, hpc] at hstep
    cases hstep
    exact ⟨hways, SetInv.fillStep h.sets h.ways hpc, h.readers.fillStep h.sets hpc⟩
  | _ => simp [runStep, hpc] at hstep

/-- **Every step keeps the cache coherent**, if the calls of a set do not overlap. -/
lemma CacheInv.step (h : CacheInv c s) {a : Act ι α} (hok : TransferAlone c s a)
    (hstep : bcacheStep c s a = some s') : CacheInv c s' := by
  have hways : WaysInv c s' := h.ways.step hstep
  cases a with
  | run t => exact h.run hok hstep
  | get t b =>
    simp only [bcacheStep] at hstep
    split at hstep <;> cases hstep
    exact h.quiet hways rfl (fun _ => id) (.of_way rfl rfl rfl rfl)
      (fun e n hs => by cases hs; exact le_rfl)
  | write t b d =>
    simp only [bcacheStep] at hstep
    split at hstep <;> cases hstep
    exact h.quiet hways rfl (fun _ => id) (.of_way rfl rfl rfl rfl)
  | fail t =>
    simp only [bcacheStep] at hstep
    split at hstep <;> cases hstep
    all_goals
      exact h.quiet hways rfl (fun _ => id) (.of_way rfl rfl rfl rfl)
  | put t =>
    simp only [bcacheStep] at hstep
    split at hstep <;> cases hstep
    case h_2 =>
      exact h.quiet hways rfl (fun _ => id) (.of_way rfl rfl rfl rfl)
    case h_1 b floor w d hpc =>
      exact h.quiet hways rfl (fun _ => id) (.of_update rfl rfl rfl rfl rfl rfl)

omit [DecidableEq ι] in
lemma cacheInv_boot (c : Cfg) (disk junk : ℕ → α) : CacheInv c (boot disk junk : Sys ι α) where
  ways := waysInv_boot c disk junk
  sets S :=
    { disk := fun _ => rfl
      done := fun _ => Nat.zero_lt_one
      way := fun hw => by simp [boot] at hw
      single := fun hw => by simp [boot] at hw
      alone := fun ht => by simp [boot, Filling] at ht
      stage := fun ht => by simp [boot] at ht }
  readers := ⟨nofun, nofun⟩

/-- **A pin is a pin, however the calls overlap**: in every run the pin count of a way is the number
of calls that have pinned it, and what `bcache_get` has returned stays until `bcache_put`. -/
theorem pins_respected (c : Cfg) (disk junk : ℕ → α) (acts : List (Act ι α)) (s : Sys ι α)
    (hrun : exec (bcacheStep c) (boot disk junk) acts = some s) :
    (∀ k, (s.way k).pin = (PinnedSlot.readers (view c s k).mode).card) ∧
      ∀ {t b floor w d}, s.pc t = .holding b floor w d → (s.way (c.setOf b, w)).data = d := by
  have h : WaysInv c s := exec_invariant (fun h _ => h.step) hrun (meets_true _ _)
    (waysInv_boot c disk junk)
  exact ⟨fun k => (h k).pins, fun ht => (h.pinned ht).1⟩

/-- **The block cache is coherent** in every run in which each disk transfer is made only while no
other call is between its transfer and the end of its fill for that set: at most one way has a block,
a pinned way keeps its data under the pinner, and a `bcache_get` yields the data of the last
`write_block` that had returned before it started, or of a later one. -/
theorem cache_coherent (c : Cfg) (disk junk : ℕ → α) (acts : List (Act ι α)) (s : Sys ι α)
    (hrun : exec (bcacheStep c) (boot disk junk) acts = some s)
    (hok : Meets (bcacheStep c) (TransferAlone c) (boot disk junk) acts) : Coherent c s :=
  (exec_invariant (I := CacheInv c) (fun h => h.step) hrun hok
    (cacheInv_boot c disk junk)).coherent

end Runs

/-! ### Calls that overlap -/

/-- The sizes of the source. -/
def bcacheCfg : Cfg := ⟨64, 4⟩

/-- Call 0 misses block 7 and reads the disk; call 1 writes the block and returns; call 0 fills the
cache; and call 1 reads the block. -/
def staleFill : List (Act (Fin 2) ℕ) :=
  .get 0 7 :: replicate 14 (.run 0) ++ .write 1 7 1 :: replicate 15 (.run 1) ++
    replicate 15 (.run 0) ++ .get 1 7 :: replicate 2 (.run 1)

/-- Two misses of block 7; call 1 looks for old tags before call 0 has set the new one. -/
def twoFills : List (Act (Fin 2) ℕ) :=
  .get 0 7 :: replicate 14 (.run 0) ++ .get 1 7 :: replicate 19 (.run 1) ++
    replicate 14 (.run 0) ++ replicate 10 (.run 1)

/-- A write, and then a read of the same block. -/
def writeThenRead : List (Act (Fin 2) ℕ) :=
  .write 1 7 1 :: replicate 15 (.run 1) ++ .get 0 7 :: replicate 2 (.run 0)

/-- A read after a write finds what was written. -/
theorem cache_coherent_after_write :
    ∃ s, exec (bcacheStep bcacheCfg) (boot (fun _ => 0) fun _ => 0) writeThenRead = some s ∧
      s.pc 0 = .holding 7 1 0 1 ∧ Coherent bcacheCfg s := by
  have hok : Meets (bcacheStep bcacheCfg) (TransferAlone bcacheCfg)
      (boot (fun _ => 0) fun _ => 0) writeThenRead := by
    decide +kernel
  exact exists_run fun s hs _ =>
    cache_coherent bcacheCfg _ _ writeThenRead s hs hok

/-- A pinned way, in a run in which it has the data of before a write. -/
theorem pins_respected_stale :
    ∃ s, exec (bcacheStep bcacheCfg) (boot (fun _ => 0) fun _ => 0) staleFill = some s ∧
      s.pc 1 = .holding 7 1 0 0 ∧ (s.way (7, 0)).data = 0 :=
  exists_run fun s hs => (pins_respected bcacheCfg _ _ staleFill s hs).2

/-- **The cache is not coherent**: after `write_block` has returned, `bcache_get` yields the data from
before it; and one block can be in two ways. -/
theorem stale_read :
    (∃ s, exec (bcacheStep bcacheCfg) (boot (fun _ => 0) fun _ => 0) staleFill = some s ∧
      (s.log 7 = [0, 1] ∧ s.done 7 = 1 ∧ s.pc 1 = .holding 7 1 0 0) ∧ ¬ Coherent bcacheCfg s) ∧
    ∃ s, exec (bcacheStep bcacheCfg) (boot (fun _ => 0) fun _ => 0) twoFills = some s ∧
      (s.way (7, 0)).tag = some 7 ∧ (s.way (7, 1)).tag = some 7 := by
  constructor
  · obtain ⟨s, hs, hlog, hdone, hpc⟩ := exists_of_any (bcacheStep bcacheCfg)
      (boot (fun _ => 0) fun _ => 0) staleFill
      (fun s => s.log 7 = [0, 1] ∧ s.done 7 = 1 ∧ s.pc 1 = .holding 7 1 0 0)
    refine ⟨s, hs, ⟨hlog, hdone, hpc⟩, fun h => ?_⟩
    -- version 1 is not 0, and there is no later one
    obtain ⟨v, hv, hd⟩ := h.fresh (t := 1) (by rw [hpc]; exact .pinned 7 1 0 0)
    rw [hlog] at hd
    match v, hv with
    | 1, _ => cases hd
    | v + 2, _ => cases hd
  · exact exists_of_any _ _ _ _

end Makaos.Bcache
