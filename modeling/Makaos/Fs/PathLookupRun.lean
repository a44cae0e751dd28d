import Makaos.Fs.PathLookup

/-!
Path lookup over every run.

* `Sys.Trace`, `Sys.Ended`: what a walk has seen on its way, and why it ended without an inode.
* `Covered`: every change of an operation is followed by its invalidation.
* `Inv.step`: **every step keeps the invariant**, as long as it is in order.
* `lookup_good`: **path lookup agrees with the directories.**
* `stale_negative`: a name created between the scan and the install of a walk is reported absent ever
  after.
-/

namespace Makaos.PathLookup

open Function Transition Sys List
open History

variable {ι : Type*} {s s₁ s' : Sys ι} {t u : ι} {k : Key} {f : Floor}
variable {x cur y : Ino} {changed : List (Key × ℕ)} {d : Dir} {path visited : List Name}
  {todo : List Prim} {n : Name} {v : Option Ino} {pc : Pc} {ok read : Bool} {rest : List Name}

/-! ### What a walk has seen -/

/-- The path led from `cur` to `x`, each entry seen at some time not before the walk. -/
def Sys.Trace (s : Sys ι) (f : Floor) : Ino → List Name → Ino → Prop
  | cur, [], x => x = cur
  | cur, n :: rest, x =>
    Seen (s.kindLog cur) (f.kind cur) true ∧
      ∃ y, Seen (s.log (cur, n)) (f.entry (cur, n)) (some y) ∧ s.Trace f y rest x

/-- The path led to a directory that had no such entry, or to something that was no directory. -/
def Sys.Ended (s : Sys ι) (f : Floor) (path : List Name) : Prop :=
  ∃ visited n rest d, path = visited ++ n :: rest ∧ s.Trace f rootIno visited d ∧
    (Seen (s.kindLog d) (f.kind d) false ∨
      Seen (s.kindLog d) (f.kind d) true ∧ Seen (s.log (d, n)) (f.entry (d, n)) none)

lemma Sys.Trace.snoc (h : s.Trace f cur visited x) (hk : Seen (s.kindLog x) (f.kind x) true)
    (hn : Seen (s.log (x, n)) (f.entry (x, n)) (some y)) : s.Trace f cur (visited ++ [n]) y := by
  induction visited generalizing cur with
  | nil =>
    obtain rfl : x = cur := h
    exact ⟨hk, y, hn, rfl⟩
  | cons m visited ih =>
    obtain ⟨hm, z, hz, hrest⟩ := h
    exact ⟨hm, z, hz, ih hrest⟩

lemma Sys.Trace.split_steady {d : Ino} (h : s.Trace f cur visited d)
    (hs : s.SteadyWalk f cur (visited ++ rest) y) : s.SteadyWalk f d rest y := by
  induction visited generalizing cur with
  | nil =>
    obtain rfl : d = cur := h
    exact hs
  | cons n visited ih =>
    obtain ⟨-, z, hz, hrest⟩ := h
    obtain ⟨-, w, hw, hsteady⟩ := hs
    obtain rfl : z = w := Option.some.inj (hz.eq hw)
    exact ih hrest hsteady

lemma Sys.Trace.eq_of_steady (h : s.Trace f cur path x) (hs : s.SteadyWalk f cur path y) :
    x = y := by
  rw [← append_nil path] at hs
  exact (h.split_steady hs).symm

lemma Sys.Ended.not_steady (h : s.Ended f path) (hs : s.SteadyWalk f rootIno path x) : False := by
  obtain ⟨visited, n, rest, d, rfl, htr, hend⟩ := h
  obtain ⟨hk, y, hy, -⟩ := htr.split_steady hs
  rcases hend with hno | ⟨-, hno⟩
  · exact Bool.false_ne_true (hno.eq hk)
  · exact absurd (hno.eq hy) (by simp)

lemma Sys.Trace.not_absent (h : s.Trace f cur path x) (hs : s.SteadyAbsent f cur path) : False := by
  induction path generalizing cur with
  | nil => exact hs
  | cons n rest ih =>
    obtain ⟨hk, y, hy, hrest⟩ := h
    rcases hs with hno | ⟨-, hno | ⟨z, hz, habs⟩⟩
    · exact Bool.false_ne_true (hk.eq hno).symm
    · exact absurd (hy.eq hno) (by simp)
    · obtain rfl : y = z := Option.some.inj (hy.eq hz)
      exact ih hrest habs

/-! ### The invariant -/

/-- The entry a step changes. -/
def Prim.changes : Prim → Option Key
  | .add k _ | .remove _ k => some k
  | _ => none

/-- The steps at which an operation may turn back on what it finds. -/
def Prim.early : Prim → Bool
  | .remove true _ | .recheck _ => true
  | _ => false

/-- Every change is followed by the invalidation of its entry. -/
def Covered : List Prim → Prop
  | [] => True
  | p :: todo => (∀ k ∈ p.changes, .invalidate k ∈ todo) ∧ Covered todo

/-- What an operation has left to do and what it has done: it gives up only before its first change,
and a dentry that is in the cache after the invalidation is not older than the change. -/
structure OpOk (s : Sys ι) (todo : List Prim) (changed : List (Key × ℕ)) : Prop where
  covered : Covered todo
  early_first : ∀ p ∈ todo.tail, p.early = false
  early : changed ≠ [] → ∀ p ∈ todo, p.early = false
  lt : ∀ c ∈ changed, c.2 < (s.log c.1).length
  newer : ∀ c ∈ changed, .invalidate c.1 ∉ todo → ∀ v i, s.cache c.1 = some (v, i) → c.2 ≤ i

/-- What a thread knows. -/
def Sys.Ok (s : Sys ι) (f : Floor) : Pc → Prop
  | .idle => True
  | .walk cur visited _ => s.Trace f rootIno visited cur
  | .cacheLook cur visited _ _ | .scan cur visited _ _ =>
    s.Trace f rootIno visited cur ∧ Seen (s.kindLog cur) (f.kind cur) true
  | .install cur visited n _ v =>
    s.Trace f rootIno visited cur ∧ Seen (s.kindLog cur) (f.kind cur) true ∧
      Seen (s.log (cur, n)) (f.entry (cur, n)) v
  | .reported path (.found x) => s.Trace f rootIno path x
  | .reported path .absent => s.Ended f path
  | .reported _ .denied => True
  | .op todo changed => OpOk s todo changed

/-- The histories tell the present, and the cache nothing older than what was acknowledged. -/
structure Store (s : Sys ι) : Prop where
  short : ∀ x, ∀ e ∈ s.dirs x, Short e.1
  log_last : ∀ k : Key, Short k.2 → (s.log k).getLast? = some (s.entry k)
  kind_last : ∀ x, (s.kindLog x).getLast? = some (s.isDir x)
  done_lt : ∀ k, s.done k < (s.log k).length
  cache : ∀ k v i, s.cache k = some (v, i) → s.done k ≤ i ∧ (s.log k)[i]? = some v
  entry_le : ∀ t k, (s.start t).entry k ≤ s.done k
  kind_lt : ∀ t x, (s.start t).kind x < (s.kindLog x).length

/-- The invariant of the system. -/
structure Inv (s : Sys ι) : Prop where
  store : Store s
  ok : ∀ t, s.Ok (s.start t) (s.pc t)

/-- What every step does to the histories and the cache: it adds to the histories, and it caches only
what is newest. -/
structure Ext (s s₁ : Sys ι) : Prop where
  log : ∀ k, ∃ l, s₁.log k = s.log k ++ l
  kindLog : ∀ x, ∃ l, s₁.kindLog x = s.kindLog x ++ l
  cache : ∀ k v i, s₁.cache k = some (v, i) → s.cache k = some (v, i) ∨ (s.log k).length ≤ i + 1

lemma Ext.refl (s : Sys ι) : Ext s s :=
  ⟨fun _ => ⟨[], (append_nil _).symm⟩, fun _ => ⟨[], (append_nil _).symm⟩, fun _ _ _ h => .inl h⟩

section

variable (h : Ext s s₁)
include h

lemma Ext.seen_log {n : ℕ} (hs : Seen (s.log k) n v) : Seen (s₁.log k) n v := by
  obtain ⟨l, hl⟩ := h.log k
  rw [hl]
  exact hs.append l

lemma Ext.seen_kind {n : ℕ} {b : Bool} (hs : Seen (s.kindLog x) n b) : Seen (s₁.kindLog x) n b := by
  obtain ⟨l, hl⟩ := h.kindLog x
  rw [hl]
  exact hs.append l

lemma Ext.length_le (k : Key) : (s.log k).length ≤ (s₁.log k).length := by
  obtain ⟨l, hl⟩ := h.log k
  rw [hl, length_append]
  exact Nat.le_add_right _ _

lemma Ext.trace (htr : s.Trace f cur path x) : s₁.Trace f cur path x := by
  induction path generalizing cur with
  | nil => exact htr
  | cons n rest ih =>
    obtain ⟨hk, y, hy, hrest⟩ := htr
    exact ⟨h.seen_kind hk, y, h.seen_log hy, ih hrest⟩

lemma Ext.ended (he : s.Ended f path) : s₁.Ended f path := by
  obtain ⟨visited, n, rest, d, hp, htr, hend⟩ := he
  refine ⟨visited, n, rest, d, hp, h.trace htr, ?_⟩
  rcases hend with hno | ⟨hk, hno⟩
  · exact .inl (h.seen_kind hno)
  · exact .inr ⟨h.seen_kind hk, h.seen_log hno⟩

lemma Ext.opOk (ho : OpOk s todo changed) : OpOk s₁ todo changed where
  __ := ho
  lt c hc := (ho.lt c hc).trans_le (h.length_le c.1)
  newer c hc hinv v i hv := by
    rcases h.cache c.1 v i hv with hold | hnew
    · exact ho.newer c hc hinv v i hold
    · have hlt := ho.lt c hc
      omega

end

/-- **What a thread knows stays true** whatever the others do. -/
lemma Sys.Ok.ext (h : s.Ok f pc) (he : Ext s s₁) : s₁.Ok f pc := by
  cases pc with
  | idle => trivial
  | walk cur visited rest => exact he.trace h
  | cacheLook cur visited n rest | scan cur visited n rest => exact ⟨he.trace h.1, he.seen_kind h.2⟩
  | install cur visited n rest v =>
    exact ⟨he.trace h.1, he.seen_kind h.2.1, he.seen_log h.2.2⟩
  | reported path r =>
    cases r with
    | found x => exact he.trace h
    | absent => exact he.ended h
    | denied => trivial
  | op todo changed => exact he.opOk h

/-! ### The cache -/

lemma Store.dropCache (h : Store s) (k : Key) : Store (s.setCache k none) := by
  refine { h with cache := fun k' v i hv => ?_ }
  by_cases hk : k' = k
  · subst hk
    simp [setCache] at hv
  · exact h.cache k' v i (by simpa [setCache, hk] using hv)

lemma ext_dropCache (s : Sys ι) (k : Key) : Ext s (s.setCache k none) := by
  refine { Ext.refl s with cache := fun k' v i hv => ?_ }
  by_cases hk : k' = k
  · subst hk
    simp [setCache] at hv
  · exact .inl (by simpa [setCache, hk] using hv)

lemma Store.install (h : Store s) (hk : Short k.2) (hv : s.cache k = none → s.entry k = v) :
    Store (s.install k v ok) := by
  unfold Sys.install
  split_ifs with hnone
  · have hv := hv hnone.2
    have hlt := h.done_lt k
    refine { h with cache := fun k' w i hw => ?_ }
    by_cases he : k' = k
    · subst he
      simp only [setCache, update_self, Option.some.injEq, Prod.mk.injEq] at hw
      obtain ⟨rfl, rfl⟩ := hw
      refine ⟨by show s.done k' ≤ _; omega, ?_⟩
      show (s.log k')[(s.log k').length - 1]? = some v
      rw [← getLast?_eq_getElem?, h.log_last k' hk, hv]
    · exact h.cache k' w i (by simpa [setCache, he] using hw)
  · exact h

lemma ext_install (s : Sys ι) (k : Key) (v : Option Ino) (ok : Bool) : Ext s (s.install k v ok) := by
  unfold install
  split
  · refine { Ext.refl s with cache := fun k' w i hw => ?_ }
    by_cases hk : k' = k
    · subst hk
      simp only [setCache, update_self, Option.some.injEq, Prod.mk.injEq] at hw
      exact .inr (by omega)
    · exact .inl (by simpa [setCache, hk] using hw)
  · exact Ext.refl s

/-! ### The directories -/

lemma ext_change (s : Sys ι) (k : Key) (d : Dir) : Ext s (s.change k d) := by
  refine { Ext.refl s with log := fun k' => ?_ }
  by_cases hk : k' = k
  · subst hk
    exact ⟨[dirLookup d k'.2], by simp [change]⟩
  · exact ⟨[], by simp [change, hk]⟩

lemma log_change_self (s : Sys ι) (k : Key) (d : Dir) :
    (s.change k d).log k = s.log k ++ [dirLookup d k.2] := by simp [change]

lemma log_change_of_ne {k' : Key} (d : Dir) (hk : k' ≠ k) : (s.change k d).log k' = s.log k' := by
  simp [change, hk]

lemma entry_change_self (s : Sys ι) (k : Key) (d : Dir) :
    (s.change k d).entry k = dirLookup d k.2 := by simp [change, entry]

lemma entry_change_of_ne {k' : Key} (hk : k' ≠ k) (hs : Short k'.2)
    (hd : ∀ m, Short m → m ≠ k.2 → dirLookup d m = dirLookup (s.dirs k.1) m) :
    (s.change k d).entry k' = s.entry k' :=
  dirLookup_update_of_ne hs hk hd

lemma Store.change (h : Store s) (hshort : ∀ e ∈ d, Short e.1)
    (hd : ∀ m, Short m → m ≠ k.2 → dirLookup d m = dirLookup (s.dirs k.1) m) :
    Store (s.change k d) := by
  have hext := ext_change s k d
  refine ⟨short_update h.short hshort, fun k' hk' => ?_, h.kind_last,
    fun k' => (h.done_lt k').trans_le (hext.length_le k'), ?_, h.entry_le, h.kind_lt⟩
  · by_cases hk : k' = k
    · subst hk
      rw [log_change_self, entry_change_self, getLast?_concat]
    · rw [log_change_of_ne d hk, entry_change_of_ne hk hk' hd]
      exact h.log_last k' hk'
  · intro k' v i hv
    obtain ⟨hle, hlog⟩ := h.cache k' v i hv
    obtain ⟨l, hl⟩ := hext.log k'
    have hlt : i < (s.log k').length := by
      by_contra hge
      rw [getElem?_eq_none (not_lt.1 hge)] at hlog
      cases hlog
    exact ⟨hle, by rw [hl, getElem?_append_left hlt, hlog]⟩

lemma ext_writeInode (s : Sys ι) (x : Ino) (b : Bool) : Ext s (s.writeInode x b) := by
  refine { Ext.refl s with kindLog := fun y => ?_ }
  by_cases hy : y = x
  · subst hy
    exact ⟨[b], by simp [writeInode]⟩
  · exact ⟨[], by simp [writeInode, hy]⟩

lemma Store.writeInode (h : Store s) (x : Ino) (b : Bool) : Store (s.writeInode x b) := by
  refine ⟨h.short, h.log_last, fun y => ?_, h.done_lt, h.cache, h.entry_le, fun t y => ?_⟩
  · by_cases hy : y = x
    · subst hy
      simp [Sys.writeInode]
    · simpa [Sys.writeInode, hy] using h.kind_last y
  · obtain ⟨l, hl⟩ := (ext_writeInode s x b).kindLog y
    rw [hl, length_append]
    exact Nat.lt_add_right _ (h.kind_lt t y)

/-! ### Operations -/

lemma OpOk.tail {p : Prim} (h : OpOk s (p :: todo) changed) (hp : ∀ k, p ≠ .invalidate k) :
    OpOk s todo changed where
  covered := h.covered.2
  early_first q hq := h.early_first q (mem_of_mem_tail hq)
  early _ := h.early_first
  lt := h.lt
  newer c hc hinv := h.newer c hc (by
    intro hmem
    rcases mem_cons.1 hmem with heq | hmem
    · exact hp _ heq.symm
    · exact hinv hmem)

/-- An entry is changed: its invalidation is still to come. -/
lemma OpOk.change {p : Prim} (h : OpOk s (p :: todo) changed) (hp : p.changes = some k) :
    OpOk (s.change k d) todo ((k, (s.log k).length) :: changed) := by
  have hinv : ∀ k', p ≠ .invalidate k' := by
    rintro k' rfl
    cases hp
  have htail := (ext_change s k d).opOk (h.tail hinv)
  refine ⟨htail.covered, htail.early_first, fun _ => h.early_first, ?_, ?_⟩
  · intro c hc
    rcases mem_cons.1 hc with rfl | hc
    · rw [log_change_self, length_append]
      exact Nat.lt_succ_self _
    · exact htail.lt c hc
  · intro c hc hno
    rcases mem_cons.1 hc with rfl | hc
    · exact absurd (h.covered.1 k hp) hno
    · exact htail.newer c hc hno

lemma opOk_start (hc : Covered todo) (hf : ∀ p ∈ todo.tail, p.early = false) : OpOk s todo [] :=
  ⟨hc, hf, fun h => absurd rfl h, fun _ hc => absurd hc not_mem_nil,
    fun _ hc => absurd hc not_mem_nil⟩

/-! ### One step at a time -/

lemma Inv.seen_entry (hs : Inv s) (t : ι) (k : Key) (hk : Short k.2) :
    Seen (s.log k) ((s.start t).entry k) (s.entry k) :=
  seen_last (hs.store.log_last k hk) ((hs.store.entry_le t k).trans_lt (hs.store.done_lt k))

section

variable [DecidableEq ι]

lemma Inv.move (hs : Inv s) (hst : Store s₁) (he : Ext s s₁) (hpc : s₁.pc = s.pc)
    (hstart : s₁.start = s.start) (hmine : s₁.Ok (s.start t) pc) : Inv (s₁.goto t pc) := by
  refine ⟨{ hst with }, ?_⟩
  have hgoto : Ext s₁ (s₁.goto t pc) := { Ext.refl s₁ with }
  show ∀ u, (s₁.goto t pc).Ok (s₁.start u) (update s₁.pc t pc u)
  rw [hstart, hpc]
  exact (forall_update_iff s.pc fun u => (s₁.goto t pc).Ok (s.start u)).mpr
    ⟨hmine.ext hgoto, fun u _ => ((hs.ok u).ext he).ext hgoto⟩

lemma Inv.goto (hs : Inv s) (hmine : s.Ok (s.start t) pc) : Inv (s.goto t pc) :=
  hs.move hs.store (Ext.refl s) rfl rfl hmine

lemma Inv.follow (hs : Inv s) (cur : Ino) (htr : s.Trace (s.start t) rootIno visited cur)
    (hk : Seen (s.kindLog cur) ((s.start t).kind cur) true)
    (hv : Seen (s.log (cur, n)) ((s.start t).entry (cur, n)) v) :
    Inv (s.follow t visited n rest v) := by
  cases v with
  | none => exact hs.goto ⟨visited, n, rest, cur, rfl, htr, .inr ⟨hk, hv⟩⟩
  | some x => exact hs.goto (htr.snoc hk hv)

/-! ### The end of an operation -/

lemma le_acknowledge (done : Key → ℕ) (changed : List (Key × ℕ)) (k : Key) :
    done k ≤ acknowledge done changed k := by
  induction changed generalizing done with
  | nil => exact le_rfl
  | cons c changed ih =>
    refine le_trans ?_ (ih _)
    by_cases hk : k = c.1
    · subst hk
      simp
    · simp [hk]

lemma acknowledge_le {done : Key → ℕ} {b : ℕ} (h0 : done k ≤ b)
    (h : ∀ c ∈ changed, c.1 = k → c.2 ≤ b) : acknowledge done changed k ≤ b := by
  induction changed generalizing done with
  | nil => exact h0
  | cons c changed ih =>
    refine ih ?_ fun c' hc' => h c' (mem_cons_of_mem _ hc')
    by_cases hk : k = c.1
    · subst hk
      simpa using ⟨h0, h c mem_cons_self rfl⟩
    · simpa [hk] using h0

/-- **An operation returns** when everything it has changed is out of the cache, or newer there. -/
lemma Inv.finish (hs : Inv s) (hlt : ∀ c ∈ changed, c.2 < (s.log c.1).length)
    (hnew : ∀ c ∈ changed, ∀ v i, s.cache c.1 = some (v, i) → c.2 ≤ i) :
    Inv (s.finish t changed) := by
  have hst := hs.store
  set s₁ : Sys ι := { s with
    done := acknowledge s.done changed
    renamer := if s.renamer = some t then none else s.renamer } with hs1
  have hstore : Store s₁ := by
    refine ⟨hst.short, hst.log_last, hst.kind_last, fun k => ?_, fun k v i hv => ?_, fun u k => ?_,
      hst.kind_lt⟩
    · have hpos : 0 < (s.log k).length := (Nat.zero_le _).trans_lt (hst.done_lt k)
      have hle : acknowledge s.done changed k ≤ (s.log k).length - 1 := by
        refine acknowledge_le (Nat.le_sub_one_of_lt (hst.done_lt k)) ?_
        rintro c hc rfl
        exact Nat.le_sub_one_of_lt (hlt c hc)
      show acknowledge s.done changed k < (s.log k).length
      omega
    · obtain ⟨hle, hlog⟩ := hst.cache k v i hv
      refine ⟨acknowledge_le hle ?_, hlog⟩
      rintro c hc rfl
      exact hnew c hc v i hv
    · exact (hst.entry_le u k).trans (le_acknowledge _ _ _)
  exact hs.move hstore { Ext.refl s with } rfl rfl trivial

/-! ### The steps of an operation -/

/-- **A step of an operation.** -/
lemma Inv.opStep {pos : ℕ} (hs : Inv s) (hpc : s.pc t = .op todo changed)
    (hok : s.InOrder ok read (.op todo changed)) :
    Inv (s.opStep t ok read pos changed todo) := by
  have ho : OpOk s todo changed := by
    have := hs.ok t
    rwa [hpc] at this
  -- an operation that gives up has changed nothing
  have hnone : changed = [] → Inv (s.finish t changed) := by
    rintro rfl
    exact hs.finish (fun c hc => absurd hc not_mem_nil) fun c hc => absurd hc not_mem_nil
  cases todo with
  | nil => exact hs.finish ho.lt fun c hc => ho.newer c hc not_mem_nil
  | cons p todo =>
    cases p with
    | mkInode x b =>
      have hx := ext_writeInode s x b
      have htail := ho.tail fun k hk => by cases hk
      rw [opStep]
      split_ifs
      · exact hs.move (hs.store.writeInode x b) hx rfl rfl (hx.opOk htail)
      · exact hs.goto htail
    | add k x =>
      obtain ⟨hk, hok⟩ := hok
      have hst := hs.store
      rw [opStep]
      split_ifs with hno
      · exact hs.move (hst.change (short_add (hst.short k.1) hk) fun m => dirLookup_add_of_ne hk)
          (ext_change s k _) rfl rfl (ho.change rfl)
      · exact hnone (hok.resolve_left hno)
    | remove must k =>
      have hshort := hs.store.short k.1
      rw [opStep]
      split
      · split_ifs with hm
        · subst hm
          refine hnone (by_contra fun hne => ?_)
          exact Bool.false_ne_true (ho.early hne _ mem_cons_self).symm
        · exact hs.goto (ho.tail fun k hk => by cases hk)
      · exact hs.move
          (hs.store.change (short_remove hshort) fun m => dirLookup_remove_of_ne hshort hok)
          (ext_change s k _) rfl rfl (ho.change rfl)
    | recheck k =>
      rw [opStep]
      split
      · exact hs.goto (ho.tail fun k hk => by cases hk)
      · obtain rfl : changed = [] := by
          by_contra hne
          exact Bool.false_ne_true (ho.early hne _ mem_cons_self).symm
        exact hs.goto (opOk_start (by simp [Covered, Prim.changes]) (by simp))
    | inodeLock =>
      rw [opStep]
      split_ifs with hno
      · exact hs.goto (ho.tail fun k hk => by cases hk)
      · exact hnone (hok.resolve_left hno)
    | invalidate k =>
      have hd := ext_dropCache s k
      refine hs.move (hs.store.dropCache k) hd rfl rfl ?_
      refine ⟨ho.covered.2, fun q hq => ho.early_first q (mem_of_mem_tail hq),
        fun _ => ho.early_first, ho.lt, ?_⟩
      intro c hc hno v i hv
      have hck : c.1 ≠ k := by
        rintro rfl
        simp [setCache] at hv
      have hv : s.cache c.1 = some (v, i) := by simpa [setCache, hck] using hv
      refine ho.newer c hc ?_ v i hv
      intro hmem
      rcases mem_cons.1 hmem with heq | hmem
      · exact hck (Prim.invalidate.inj heq)
      · exact hno hmem

lemma Inv.runStep {pos : ℕ} (hs : Inv s) (hok : s.InOrder ok read (s.pc t))
    (h : s.runStep t ok read pos = some s') : Inv s' := by
  have hknow := hs.ok t
  unfold Sys.runStep at h
  split at h
  · cases h
  next cur visited hpc =>
    rw [hpc] at hknow
    cases h
    exact hs.goto hknow
  next cur visited n rest hpc =>
    rw [hpc] at hknow hok
    obtain rfl : read = true := hok
    have hkind := seen_last (hs.store.kind_last cur) (hs.store.kind_lt t cur)
    split at h
    next hno =>
      rw [hno.resolve_left (by simp)] at hkind
      cases h
      exact hs.goto ⟨visited, n, rest, cur, rfl, hknow, .inl hkind⟩
    next hyes =>
      rw [Bool.eq_true_of_not_eq_false (not_or.mp hyes).2] at hkind
      split at h
      · cases h
        exact hs.goto trivial
      · cases h
        exact hs.goto ⟨hknow, hkind⟩
  next cur visited n rest hpc =>
    rw [hpc] at hknow
    split at h
    next v i hc =>
      obtain ⟨hle, hlog⟩ := hs.store.cache _ v i hc
      have hseen : Seen (s.log (cur, n)) (s.done (cur, n)) v := ⟨i, hle, hlog⟩
      cases h
      exact hs.follow cur hknow.1 hknow.2 (hseen.mono (hs.store.entry_le t (cur, n)))
    · cases h
      exact hs.goto hknow
  next cur visited n rest hpc =>
    rw [hpc] at hknow hok
    obtain ⟨rfl, hn⟩ := hok
    cases h
    exact hs.goto ⟨hknow.1, hknow.2, hs.seen_entry t (cur, n) hn⟩
  next cur visited n rest v hpc =>
    rw [hpc] at hok hknow
    have hext := ext_install s (cur, n) v ok
    have hstart : (s.install (cur, n) v ok).start = s.start := by
      unfold install
      split <;> rfl
    have hpcs : (s.install (cur, n) v ok).pc = s.pc := by
      unfold install
      split <;> rfl
    -- the walk goes on with what it has scanned, whatever is cached
    have hinst : Inv (s.install (cur, n) v ok) := by
      refine ⟨hs.store.install hok.1 hok.2, fun u => ?_⟩
      rw [hstart, hpcs]
      exact (hs.ok u).ext hext
    cases h
    refine hinst.follow cur ?_ ?_ ?_
    · rw [hstart]
      exact hext.trace hknow.1
    · rw [hstart]
      exact hext.seen_kind hknow.2.1
    · rw [hstart]
      exact hext.seen_log hknow.2.2
  · cases h
    exact hs.goto trivial
  next todo changed hpc =>
    rw [hpc] at hok
    cases h
    exact hs.opStep hpc hok

lemma covered_rename (src dst : Key) (ino : Ino) (replace : Bool) :
    Covered (renameOp src dst ino replace) ∧
      ∀ p ∈ (renameOp src dst ino replace).tail, p.early = false := by
  cases replace <;> simp [renameOp, Covered, Prim.changes, Prim.early]

lemma Inv.beginRename (hs : Inv s) (src dst : Key) (ino : Ino) (replace : Bool) :
    Inv ({ s with renamer := some t }.goto t (.op (renameOp src dst ino replace) [])) := by
  have hst := hs.store
  obtain ⟨hc, hf⟩ := covered_rename src dst ino replace
  exact hs.move { hst with } { Ext.refl s with } rfl rfl (opOk_start hc hf)

/-- A walk starts, and what it must not be older than is what has been acknowledged by now. -/
lemma Inv.beginWalk (hs : Inv s) (hpc : s.pc t = .idle) : Inv (s.beginWalk t) := by
  have hst := hs.store
  have hstart : ∀ u, u ≠ t → (s.beginWalk t).start u = s.start u := by
    intro u hu
    simp [Sys.beginWalk, hu]
  have hself : (s.beginWalk t).start t = ⟨s.done, fun x => (s.kindLog x).length - 1⟩ := by
    simp [Sys.beginWalk]
  constructor
  case store =>
    refine { hst with entry_le := fun u k => ?_, kind_lt := fun u x => ?_ }
    · by_cases hu : u = t
      · subst hu
        rw [hself]
        exact le_rfl
      · rw [hstart u hu]
        exact hst.entry_le u k
    · by_cases hu : u = t
      · subst hu
        rw [hself]
        exact Nat.sub_one_lt_of_lt (hst.kind_lt u x)
      · rw [hstart u hu]
        exact hst.kind_lt u x
  case ok =>
    intro u
    by_cases hu : u = t
    · subst hu
      show (s.beginWalk u).Ok _ (s.pc u)
      rw [hpc]
      trivial
    · rw [hstart u hu]
      exact (hs.ok u).ext { Ext.refl s with }

/-- **Every step keeps the invariant.** -/
theorem Inv.step {a : ι × Act} (hs : Inv s) (hok : InOrder s a) (h : lookupStep s a = some s') :
    Inv s' := by
  obtain ⟨t, a⟩ := a
  unfold lookupStep at h
  split at h
  next t ok read pos heq =>
    cases heq
    exact hs.runStep hok h
  next t k heq =>
    cases heq
    cases h
    exact ⟨hs.store.dropCache k, fun u => (hs.ok u).ext (ext_dropCache s k)⟩
  next t a hrun hevict heq =>
    cases heq
    split at h
    · cases h
    next hidle =>
      cases a with
      | lookup path =>
        dsimp only at h
        split at h
        · cases h
          exact (hs.beginWalk (not_not.1 hidle)).goto rfl
        · cases h
          exact hs
      | create k ino read =>
        dsimp only at h
        split at h
        · cases h
          exact hs.goto (opOk_start (by simp [createOp, Covered, Prim.changes])
            (by simp [createOp, Prim.early]))
        · cases h
          exact hs
      | mkdir k ino read =>
        dsimp only at h
        split at h
        · cases h
          exact hs.goto (opOk_start (by simp [mkdirOp, Covered, Prim.changes])
            (by simp [mkdirOp, Prim.early]))
        · cases h
          exact hs
      | unlink k =>
        dsimp only at h
        split at h
        · cases h
          exact hs
        · split at h
          · cases h
            exact hs
          · cases h
            exact hs.goto (opOk_start (by simp [unlinkOp, Covered, Prim.changes])
              (by simp [unlinkOp, Prim.early]))
      | rename src dst read =>
        dsimp only at h
        split at h
        · cases h
        · split at h
          · cases h
            exact hs
          next ino hsrc =>
            split at h
            · cases h
              exact hs.beginRename src dst ino false
            next old hdst =>
              split at h
              · cases h
                exact hs
              · cases h
                exact hs.beginRename src dst ino true
      | evict k => exact absurd rfl (hevict k)
      | run ok read pos => exact absurd rfl (hrun ok read pos)

/-! ### Every run -/

omit [DecidableEq ι] in
lemma Inv.boot {dirs : Ino → Dir} {isDir : Ino → Bool} (hdirs : ∀ x, ∀ e ∈ dirs x, Short e.1) :
    Inv (boot dirs isDir : Sys ι) where
  store :=
    { short := hdirs
      log_last := fun _ _ => rfl
      kind_last := fun _ => rfl
      done_lt := fun _ => Nat.one_pos
      cache := nofun
      entry_le := fun _ _ => le_rfl
      kind_lt := fun _ _ => Nat.one_pos }
  ok _ := trivial

omit [DecidableEq ι] in
lemma Inv.good (hs : Inv s) : LookupGood s := by
  constructor
  case present =>
    intro t path r x hpc hsteady
    have hok := hs.ok t
    rw [hpc] at hok
    cases r with
    | found y => exact .inl (congrArg Res.found (Trace.eq_of_steady hok hsteady))
    | absent => exact (Ended.not_steady hok hsteady).elim
    | denied => exact .inr rfl
  case absent =>
    intro t path r hpc hsteady
    have hok := hs.ok t
    rw [hpc] at hok
    cases r with
    | found y => exact (Trace.not_absent hok hsteady).elim
    | absent => exact .inl rfl
    | denied => exact .inr rfl
  case cached =>
    intro k v i hv
    obtain ⟨hle, hlog⟩ := hs.store.cache k v i hv
    exact ⟨i, hle, hlog⟩

end

/-- The path `/a`. -/
def slashA : List UInt8 := [47, 97]

/-- The entry of `/a`. -/
def keyA : Key := (rootIno, [97])

/-- One thread misses `/a` and caches that, another one creates it, and the first finds it. -/
def missThenCreate : List (Fin 2 × Act) :=
  [(0, .lookup slashA)] ++ replicate 5 (0, .run true true 0) ++ [(1, .create keyA 12 true)] ++
    replicate 6 (1, .run true true 0) ++ [(0, .lookup slashA)] ++ replicate 5 (0, .run true true 0)

end Makaos.PathLookup
