import Makaos.Security.Rights

/-!
What a task may do and see, and how it is passed on: the ids of `kernel/security/cred.h`, the pledge
mask and the unveil table, along `task_fork`, `sys_thread`, `sys_exec` and `sys_spawn`.

* `Task.call`, `forked`, `spawned`: the calls that change these data, and the tasks that are created.
* `Confined`: a task has no id, no pledge group and sees no path beyond those of another one.
* `Kept`: **the table is copied, an unveiled view is not widened, and a spawned program is given a
  mask and ids its parent could have.**
* `restrictions_kept`: then every descendant of a task with no id of root is confined.
* `spawn_escapes`: a task in a locked view spawns a program that is root and may do anything.
-/

namespace Makaos.Confine

open Transition Option List
open Rights (Mask Within)

/-! ### Ids -/

abbrev Id := BitVec 32

/-- The three user ids, or the three group ids. -/
structure Ids where
  real : Id
  eff : Id
  saved : Id
  deriving DecidableEq

namespace Ids

/-- The id is one of the three. -/
def Has (i : Ids) (x : Id) : Prop := x = i.real ∨ x = i.eff ∨ x = i.saved

instance (i : Ids) (x : Id) : Decidable (i.Has x) := inferInstanceAs (Decidable (_ ∨ _))

/-- All three are among those of the other. -/
def Among (i j : Ids) : Prop := j.Has i.real ∧ j.Has i.eff ∧ j.Has i.saved

/-- `cred_setuid` and `cred_setgid`. -/
def set (i : Ids) (root : Bool) (x : Id) : Ids :=
  if root then ⟨x, x, x⟩
  else if x = i.real ∨ x = i.saved then { i with eff := x }
  else i

/-- `cred_seteuid` and `cred_setegid`. -/
def setEff (i : Ids) (root : Bool) (x : Id) : Ids :=
  if root then { i with eff := x }
  else if x = i.real ∨ x = i.saved ∨ x = i.eff then { i with eff := x }
  else i

/-- `sys_setreuid` and `sys_setregid`; `none` for an argument that leaves an id as it is. -/
def setRe (i : Ids) (root : Bool) (r e : Option Id) : Ids :=
  let r := r.getD i.real
  let e := e.getD i.eff
  if !root ∧ ¬ ((r = i.real ∨ r = i.eff) ∧ (e = i.real ∨ e = i.eff ∨ e = i.saved)) then i
  else ⟨r, e, if r ≠ i.real ∨ e ≠ i.real then e else i.saved⟩

end Ids

/-! ### The view of the file system -/

/-- `unveil_entry_t`. -/
structure Entry where
  path : List Char
  perms : BitVec 8
  deriving DecidableEq

/-- `unveil_table_t`. -/
structure Table where
  entries : List Entry
  locked : Bool
  deriving DecidableEq

namespace Table

/-- The entry is the path or a directory above it. -/
def covers (path : List Char) (e : Entry) : Bool :=
  e.path.isPrefixOf path && (path.length == e.path.length || path[e.path.length]? == some '/')

/-- `unveil_check`: the first entry that covers the path decides. -/
def check (t : Table) (path : List Char) (need : BitVec 8) : Bool :=
  if t.entries = [] then true
  else
    match t.entries.find? (covers path) with
    | some e => e.perms &&& need = need
    | none => false

/-- The permissions of an entry for the path are extended, if there is one. -/
def merge (path : List Char) (perms : BitVec 8) : List Entry → Option (List Entry)
  | [] => none
  | e :: es =>
    if e.path = path then some ({ e with perms := e.perms ||| perms } :: es)
    else (merge path perms es).map (e :: ·)

/-- `unveil_add`; `alloc` tells whether the array can grow when it has to. -/
def add (t : Table) (e : Entry) (alloc : Bool) : Table :=
  if t.locked then t
  else if e.path.head? ≠ some '/' then t
  else if 256 ≤ e.path.length then t
  else
    match merge e.path e.perms t.entries with
    | some es => { t with entries := es }
    | none => if alloc then { t with entries := t.entries ++ [e] } else t

/-- `unveil_copy`, whose result no caller looks at. -/
def copy (t : Table) (alloc : Bool) : Table := if alloc then t else { t with entries := [] }

end Table

/-! ### Tasks -/

structure Task where
  uids : Ids
  gids : Ids
  pledge : Mask
  unveil : Table
  deriving DecidableEq

/-- `PLEDGE_ALL`. -/
def pledgeAll : Mask := ~~~ 0

/-- A call by which a task changes its own data. -/
inductive Call where
  | setuid (uid : Id)
  | seteuid (euid : Id)
  | setreuid (ruid euid : Option Id)
  | setgid (gid : Id)
  | setegid (egid : Id)
  | setregid (rgid egid : Option Id)
  | pledge (mask : Mask)
  | unveil (e : Entry) (alloc : Bool)
  | unveilLock
  | exec

/-- `spawn_attr_t`, as far as its flags and pointers are good; with every entry of the view, whether
the table can grow for it. -/
structure SpawnAttr where
  cred : Option (Id × Id)
  pledge : Option Mask
  unveil : Option (List (Entry × Bool))

namespace Task

/-- `cred_is_root`. -/
def isRoot (t : Task) : Bool := t.uids.eff = 0

/-- The calls, when the policy agent grants nothing. -/
def call (t : Task) : Call → Task
  | .setuid uid => { t with uids := t.uids.set t.isRoot uid }
  | .seteuid euid => { t with uids := t.uids.setEff t.isRoot euid }
  | .setreuid ruid euid => { t with uids := t.uids.setRe t.isRoot ruid euid }
  | .setgid gid => { t with gids := t.gids.set t.isRoot gid }
  | .setegid egid => { t with gids := t.gids.setEff t.isRoot egid }
  | .setregid rgid egid => { t with gids := t.gids.setRe t.isRoot rgid egid }
  | .pledge mask => { t with pledge := t.pledge &&& mask }
  | .unveil e alloc => { t with unveil := t.unveil.add e alloc }
  | .unveilLock => { t with unveil := { t.unveil with locked := true } }
  | .exec => t

/-- The new task of `task_fork` and of `sys_thread`. -/
def forked (t : Task) (alloc : Bool) : Task := { t with unveil := t.unveil.copy alloc }

/-- The new task of `sys_spawn`: `elf_load_with_argv` copies the ids only, then come the
attributes. -/
def spawned (t : Task) (a : SpawnAttr) : Task where
  uids := a.cred.elim t.uids fun c => ⟨c.1, c.1, c.1⟩
  gids := a.cred.elim t.gids fun c => ⟨c.2, c.2, c.2⟩
  pledge := a.pledge.elim pledgeAll fun mask => t.pledge &&& mask
  unveil := a.unveil.elim ⟨[], false⟩ fun es =>
    { es.foldl (fun (u : Table) e => u.add e.1 e.2) ⟨[], false⟩ with locked := true }

end Task

/-- A step of the task with a number. -/
inductive Act where
  | call (i : ℕ) (c : Call)
  | fork (i : ℕ) (alloc : Bool)
  | thread (i : ℕ) (alloc : Bool)
  | spawn (i : ℕ) (a : SpawnAttr)

/-- **All steps** of a task and its descendants. -/
def confineStep (ts : List Task) : Act → Option (List Task)
  | .call i c => ts[i]?.map fun t => ts.set i (t.call c)
  | .fork i alloc | .thread i alloc => ts[i]?.map fun t => ts ++ [t.forked alloc]
  | .spawn i a => ts[i]?.map fun t => ts ++ [t.spawned a]

/-! ### What is asked for -/

/-- **The task `d` has nothing that `t` has not.** -/
structure Confined (t d : Task) : Prop where
  pledge : Within d.pledge t.pledge
  sees : ∀ path need, d.unveil.check path need = true → t.unveil.check path need = true
  uids : d.uids.Among t.uids
  gids : d.gids.Among t.gids

/-- What the steps must not do: lose the table to a failed allocation, widen a view that is not
locked, or spawn a program with more than its parent has. Views do not matter below a task that sees
everything. -/
def Kept (t₀ : Task) (ts : List Task) : Act → Prop
  | .fork _ alloc | .thread _ alloc => t₀.unveil.entries = [] ∨ alloc = true
  | .call i (.unveil _ _) => t₀.unveil.entries = [] ∨
      ∀ t ∈ ts[i]?, t.unveil.entries = [] ∨ t.unveil.locked = true
  | .spawn i a => t₀.unveil.entries = [] ∧ (t₀.pledge = pledgeAll ∨ a.pledge.isSome) ∧
      ∀ t ∈ ts[i]?, ∀ c ∈ a.cred, t.uids.Has c.1 ∧ t.gids.Has c.2
  | _ => True

/-! ### The calls -/

variable {i j k : Ids} {x : Id} {t₀ t d : Task} {ts ts' : List Task}

namespace Ids

lemma Among.has (h : i.Among j) (hx : i.Has x) : j.Has x := by
  rcases hx with rfl | rfl | rfl
  exacts [h.1, h.2.1, h.2.2]

lemma Among.refl (i : Ids) : i.Among i := ⟨.inl rfl, .inr (.inl rfl), .inr (.inr rfl)⟩

lemma Among.trans (h : i.Among j) (h' : j.Among k) : i.Among k :=
  ⟨h'.has h.1, h'.has h.2.1, h'.has h.2.2⟩

lemma Among.withEff (h : i.Has x) : Ids.Among { i with eff := x } i :=
  ⟨(refl i).1, h, (refl i).2.2⟩

lemma set_among : (i.set false x).Among i := by
  rw [set, if_neg Bool.false_ne_true]
  split_ifs with h
  · exact .withEff (h.imp_right .inr)
  · exact .refl i

lemma setEff_among : (i.setEff false x).Among i := by
  rw [setEff, if_neg Bool.false_ne_true]
  split_ifs with h
  · exact .withEff (h.imp_right .symm)
  · exact .refl i

lemma setRe_among {r e : Option Id} : (i.setRe false r e).Among i := by
  rw [setRe]
  split
  · exact .refl i
  next h =>
    simp only [Bool.not_false, true_and, not_not] at h
    refine ⟨h.1.imp_right .inl, h.2, ?_⟩
    dsimp only
    split
    · exact h.2
    · exact (Among.refl i).2.2

end Ids

lemma check_open (h : t.unveil.entries = []) (path : List Char) (need : BitVec 8) :
    t.unveil.check path need = true := by
  rw [Table.check, if_pos h]

namespace Confined

lemma refl (t : Task) : Confined t t := ⟨fun _ => id, fun _ _ => id, .refl _, .refl _⟩

section

variable (h : Confined t d)
include h

lemma not_root (h0 : ¬ t.uids.Has 0) : d.isRoot = false := by
  rw [Task.isRoot, decide_eq_false_iff_not]
  exact fun heff => h0 (heff ▸ h.uids.2.1)

lemma withView {u : Table}
    (hsees : ∀ path need, u.check path need = true → t.unveil.check path need = true) :
    Confined t { d with unveil := u } :=
  ⟨h.pledge, hsees, h.uids, h.gids⟩

lemma withUids (hi : i.Among d.uids) : Confined t { d with uids := i } :=
  ⟨h.pledge, h.sees, hi.trans h.uids, h.gids⟩

lemma withGids (hi : i.Among d.gids) : Confined t { d with gids := i } :=
  ⟨h.pledge, h.sees, h.uids, hi.trans h.gids⟩

lemma pledge_and (mask : Mask) : Within (d.pledge &&& mask) t.pledge := by
  intro n hn
  rw [BitVec.getLsbD_and, Bool.and_eq_true] at hn
  exact h.pledge n hn.1

end

lemma call (h : Confined t₀ t) (h0 : ¬ t₀.uids.Has 0) {c : Call} {n : ℕ} (ht : ts[n]? = some t)
    (hok : Kept t₀ ts (.call n c)) : Confined t₀ (t.call c) := by
  have hroot := h.not_root h0
  cases c with
  | setuid uid => exact h.withUids (hroot ▸ Ids.set_among)
  | seteuid euid => exact h.withUids (hroot ▸ Ids.setEff_among)
  | setreuid ruid euid => exact h.withUids (hroot ▸ Ids.setRe_among)
  | setgid gid => exact h.withGids (hroot ▸ Ids.set_among)
  | setegid egid => exact h.withGids (hroot ▸ Ids.setEff_among)
  | setregid rgid egid => exact h.withGids (hroot ▸ Ids.setRe_among)
  | pledge mask => exact ⟨h.pledge_and mask, h.sees, h.uids, h.gids⟩
  | unveil e alloc =>
    refine h.withView fun path need hsee => ?_
    rcases hok with hopen | hok
    · exact check_open hopen path need
    · rcases hok t ht with hopen | hlocked
      · exact h.sees path need (check_open hopen path need)
      · rw [Table.add, if_pos hlocked] at hsee
        exact h.sees path need hsee
  | unveilLock => exact h.withView h.sees
  | exec => exact h

lemma forked (h : Confined t₀ t) {alloc : Bool} (hok : t₀.unveil.entries = [] ∨ alloc = true) :
    Confined t₀ (t.forked alloc) := by
  refine h.withView fun path need hsee => ?_
  rcases hok with hopen | rfl
  · exact check_open hopen path need
  · exact h.sees path need hsee

lemma spawned (h : Confined t₀ t) {a : SpawnAttr} {n : ℕ} (ht : ts[n]? = some t)
    (hok : Kept t₀ ts (.spawn n a)) : Confined t₀ (t.spawned a) := by
  obtain ⟨hopen, hpledge, hcred⟩ := hok
  have hids := hcred t ht
  obtain ⟨cred, pledge, unveil⟩ := a
  refine ⟨?_, fun path need _ => check_open hopen path need, ?_, ?_⟩
  · cases pledge with
    | none =>
      obtain hall | hsome := hpledge
      · exact hall ▸ fun _ => id
      · nomatch hsome
    | some mask => exact h.pledge_and mask
  · cases cred with
    | none => exact h.uids
    | some c =>
      have hu := h.uids.has (hids c rfl).1
      exact ⟨hu, hu, hu⟩
  · cases cred with
    | none => exact h.gids
    | some c =>
      have hg := h.gids.has (hids c rfl).2
      exact ⟨hg, hg, hg⟩

end Confined

/-! ### Runs -/

/-- **Every step keeps the descendants confined.** -/
lemma confined_step {a : Act} (h0 : ¬ t₀.uids.Has 0) (h : ∀ d ∈ ts, Confined t₀ d)
    (hok : Kept t₀ ts a) (hs : confineStep ts a = some ts') : ∀ d ∈ ts', Confined t₀ d := by
  -- a new task is appended
  have happ : ∀ {d}, Confined t₀ d → ∀ d' ∈ ts ++ [d], Confined t₀ d' := by
    intro d hd d' hd'
    rcases mem_append.mp hd' with hold | hnew
    · exact h d' hold
    · exact mem_singleton.mp hnew ▸ hd
  cases a with
  | call n c =>
    obtain ⟨t, ht, rfl⟩ := map_eq_some_iff.mp hs
    intro d hd
    rcases mem_or_eq_of_mem_set hd with hold | rfl
    · exact h d hold
    · exact (h t (mem_of_getElem? ht)).call h0 ht hok
  | fork n alloc | thread n alloc =>
    obtain ⟨t, ht, rfl⟩ := map_eq_some_iff.mp hs
    exact happ ((h t (mem_of_getElem? ht)).forked hok)
  | spawn n a =>
    obtain ⟨t, ht, rfl⟩ := map_eq_some_iff.mp hs
    exact happ ((h t (mem_of_getElem? ht)).spawned ht hok)

/-- **If its user ids are not root's, every descendant of a task is confined**, as long as the steps
are those of `Kept`. -/
theorem restrictions_kept {acts : List Act} (h₀ : ¬ t₀.uids.Has 0)
    (hrun : exec confineStep [t₀] acts = some ts) (hok : Meets confineStep (Kept t₀) [t₀] acts) :
    ∀ d ∈ ts, Confined t₀ d :=
  exec_invariant (confined_step h₀) hrun hok
    fun _ hd => mem_singleton.mp hd ▸ Confined.refl t₀

/-- A user who may read below `/home`, fork and spawn. -/
def jailed : Task := ⟨⟨1000, 1000, 1000⟩, ⟨1000, 1000, 1000⟩, 0x30, ⟨[⟨"/home".toList, 1⟩], true⟩⟩

/-- It forks, and its child tries to see more and to become root. -/
def tries : List Act :=
  [.fork 0 true, .call 1 (.unveil ⟨"/etc".toList, 3⟩ true), .call 1 (.setuid 0)]

theorem restrictions_kept_fork : ∃ ts, exec confineStep [jailed] tries = some ts ∧
    ts.length = 2 ∧ ∀ d ∈ ts, Confined jailed d := by
  refine exists_run (fun ts hrun _ => restrictions_kept (by decide) hrun ?_) (by decide)
  exact ⟨.inr rfl, .inr fun _ h => .inr (some.inj h ▸ rfl), trivial, trivial⟩

/-- **A spawned program is root, may call everything and sees everything.** -/
theorem spawn_escapes : exec confineStep [jailed] [.spawn 0 ⟨some (0, 0), none, none⟩] =
      some [jailed, ⟨⟨0, 0, 0⟩, ⟨0, 0, 0⟩, pledgeAll, ⟨[], false⟩⟩] ∧
    ¬ jailed.uids.Has 0 ∧ ¬ Confined jailed ⟨⟨0, 0, 0⟩, ⟨0, 0, 0⟩, pledgeAll, ⟨[], false⟩⟩ := by
  refine ⟨rfl, by decide, fun h => ?_⟩
  exact absurd h.uids.1 (by decide)

end Makaos.Confine
