import Makaos.Fs.PathLookup

/-!
What a descriptor of a regular file means to `sys_ftruncate`, `sys_fstat` and a private file mapping
of `sys_mmap` (syscall/syscall.c). Reads and writes use the inode of the descriptor, but these calls
resolve its path again, `sys_mmap` for the size only, and the calls that change directories (fs/ext2.c)
may come in between.

* `fdStep`: the calls, with a book of the inodes acted on.
* `Settled`, `calls_act_on_opened`: **when every later call acts on the inode that was opened.**
* `ftruncate_other_file`: a file that has been renamed, and a new one under its name.
-/

namespace Makaos.FdPath

open Function Transition List Option
open PathLookup

/-- The bytes of a path after its leading `/`. -/
abbrev Path := List UInt8

/-- The directories, and for every inode that was given out whether it is one. A number that is given
out again counts as another inode. -/
structure Fs where
  dirs : Ino → Dir
  dir : Ino → Option Bool

/-- The open files: the inode and the field `path`. For the specification only: `acted`, for each
later call the inode that was opened and those acted on. -/
structure Sys extends Fs where
  files : List (Ino × Path)
  acted : List (Ino × List (Option Ino))

/-- The calls. `new` is what `alloc_inode` finds, `pos` where a new entry finds room, and `read` tells
whether the inodes and directories can be read. -/
inductive Act where
  | opens (path : Path)
  /-- `ext2_create` or `ext2_mkdir`. -/
  | make (isDir : Bool) (path : Path) (new : Ino) (pos : ℕ) (read : Bool)
  | unlink (path : Path)
  /-- `room`: the new entry can be added. -/
  | rename (src dst : Path) (pos : ℕ) (room read : Bool)
  /-- `zero`: the new length is 0; `same`: it is the present one. -/
  | ftruncate (f : ℕ) (zero same : Bool) (new : Ino) (pos : ℕ) (read : Bool)
  | fstat (f : ℕ) (read : Bool)
  | mmap (f : ℕ) (read : Bool)

/-- The base name of `path_split`. -/
def base (path : Path) : Name := (path.splitOn 47).getLastD []

/-- A component of a path, in `normalize_path`: `.` goes, and `..` takes the one before it with it. -/
def normalStep (names : List Name) (n : Name) : List Name :=
  if n = [46] then names else if n = [46, 46] then names.dropLast else names ++ [n]

/-- `normalize_path`, which `fs_lookup` applies to the path that `sys_open` then stores. -/
def normalizePath (path : Path) : Path := [47].intercalate ((components path).foldl normalStep [])

namespace Fs

def entry (s : Fs) (k : Key) : Option Ino := dirLookup (s.dirs k.1) k.2

/-- `path_to_inode`, from an inode on. -/
def walk (s : Fs) : Ino → List Name → Option Ino
  | i, [] => some i
  | i, n :: ns => if s.dir i = some true then (s.entry (i, n)).bind fun j => s.walk j ns else none

/-- The entries that are read on the way. -/
def trail (s : Fs) : Ino → List Name → List Key
  | _, [] => []
  | i, n :: ns => (i, n) :: (s.entry (i, n)).elim [] fun j => s.trail j ns

def lookup (s : Fs) (path : Path) : Option Ino := s.walk rootIno (components path)

/-- `path_split` and the lookup of the parent; an empty base name is refused. -/
def slot (s : Fs) (path : Path) : Option Key :=
  if base path = [] then none
  else (s.walk rootIno ((path.splitOn 47).dropLast.filter (· ≠ []))).map fun d => (d, base path)

/-- A new inode under a name, if the parent is a directory; a new directory gets `.` and `..`. -/
def add (s : Fs) (k : Key) (new : Ino) (pos : ℕ) (isDir : Bool) : Option Fs :=
  if s.dir new = none ∧ s.dir k.1 = some true then
    let d := update s.dirs k.1 (dirAddEntry (s.dirs k.1) k.2 new pos)
    some
      { dirs := if isDir then update d new [([46], new), ([46, 46], k.1)] else d
        dir := update s.dir new (some isDir) }
  else none

/-- `ext2_write_file` and the inode it writes: a regular file from then on, and a new one if the
name is not there or cannot be read. -/
def writeFile (s : Fs) (path : Path) (new : Ino) (pos : ℕ) (read : Bool) : Fs × Option Ino :=
  match s.slot path with
  | none => (s, none)
  | some k =>
    match if read then s.entry k else none with
    | some i => ({ s with dir := update s.dir i (some false) }, some i)
    | none => (s.add k new pos false).elim (s, none) fun t => (t, some new)

/-- `ext2_truncate_to`. -/
def truncateTo (s : Fs) (path : Path) (zero same : Bool) (new : Ino) (pos : ℕ) (read : Bool) :
    Fs × Option Ino :=
  if zero then s.writeFile path new pos read
  else
    match if read then s.lookup path else none with
    | none => (s, none)
    | some i =>
      if same then (s, some i)
      else if s.dir i = some false then s.writeFile path new pos read
      else (s, none)

end Fs

/-- A later call, given what it does to the file. -/
def Sys.call (s : Sys) (f : ℕ) (does : Ino × Path → Fs × List (Option Ino)) : Option Sys :=
  s.files[f]?.map fun x => { s with toFs := (does x).1, acted := (x.1, (does x).2) :: s.acted }

/-- **The calls**; of those that change directories, one that fails at once is no step. -/
def fdStep (s : Sys) : Act → Option Sys
  | .opens path => do
    let i ← s.lookup (normalizePath path)
    -- `ext2_open_by_ino` keeps 255 bytes of the path
    if s.dir i = some false then
      some { s with files := (i, (normalizePath path).take 254) :: s.files }
    else none
  | .make isDir path new pos read => do
    let k ← s.slot path
    if read = true ∧ (if isDir then s.lookup path else s.entry k) ≠ none then none
    else (s.add k new pos isDir).map fun t => { s with toFs := t }
  | .unlink path => do
    let i ← s.lookup path
    let k ← s.slot path
    if s.dir i = some true then none
    else some { s with dirs := update s.dirs k.1 (dirRemoveEntry (s.dirs k.1) k.2) }
  | .rename src dst pos room read => do
    let i ← s.lookup src
    let k ← s.slot src
    let l ← s.slot dst
    let old := if read then s.lookup dst else none
    if old.any fun j => s.dir j = some true then none
    else
      -- an old `dst` is removed, then `dst` is added and `src` removed
      let d :=
        if old.isSome then update s.dirs l.1 (dirRemoveEntry (s.dirs l.1) l.2) else s.dirs
      if room = true ∧ s.dir l.1 = some true then
        let d := update d l.1 (dirAddEntry (d l.1) l.2 i pos)
        some { s with dirs := update d k.1 (dirRemoveEntry (d k.1) k.2) }
      else some { s with dirs := d }
  | .ftruncate f zero same new pos read =>
    s.call f fun x => (s.truncateTo x.2 zero same new pos read).map id ([·])
  | .fstat f read => s.call f fun x => (s.toFs, [if read then s.lookup x.2 else none])
  -- the pages are those of the open file, and the size is that of what the path names
  | .mmap f read => s.call f fun x => (s.toFs, [some x.1, if read then s.lookup x.2 else none])

/-- A path that fits in the buffers, whose entry is not on the way to an open file. -/
def Sys.Spares (s : Sys) (path : Path) : Prop :=
  path.length ≤ 254 ∧ ∀ k ∈ s.slot path, ∀ x ∈ s.files, k ∉ s.trail rootIno (components x.2)

instance (s : Sys) (path : Path) : Decidable (s.Spares path) :=
  inferInstanceAs (Decidable (_ ∧ ∀ _ ∈ _, _))

/-- Paths fit in the descriptor and in the buffers, no entry is removed or replaced on the way to an
open file, and what says that a name is not there, or is a later call, can read the disk. -/
def Settled (s : Sys) : Act → Prop
  | .opens path => (normalizePath path).length ≤ 254
  | .make _ path _ _ read => path.length ≤ 254 ∧ read = true
  | .unlink path => s.Spares path
  | .rename src dst _ _ _ => s.Spares src ∧ s.Spares dst
  | .ftruncate _ _ _ _ _ read | .fstat _ read | .mmap _ read => read = true

instance : DecidableRel Settled
  | _, .opens _ => inferInstanceAs (Decidable (_ ≤ _))
  | _, .make .. => inferInstanceAs (Decidable (_ ∧ _))
  | _, .unlink _ => inferInstanceAs (Decidable (Sys.Spares _ _))
  | _, .rename .. => inferInstanceAs (Decidable (_ ∧ _))
  | _, .ftruncate .. | _, .fstat .. | _, .mmap .. => inferInstanceAs (Decidable (_ = _))

/-- Every later call acted on the inode that was opened, and on that alone. -/
def Good (s : Sys) : Prop := ∀ r ∈ s.acted, ∀ i ∈ r.2, i = some r.1

instance : DecidablePred Good := fun s => inferInstanceAs (Decidable (∀ r ∈ s.acted, _))

/-- A mounted volume: the root is a directory, and the length of a name is what its entry says. -/
structure Fs.Sound (s : Fs) : Prop where
  root : s.dir rootIno = some true
  short : ∀ i, ∀ e ∈ s.dirs i, Short e.1

/-! ### Paths -/

section

variable {path : Path} {n : Name}

lemma mem_splitOn (hn : n ∈ path.splitOn 47) : 47 ∉ n ∧ n.length ≤ path.length := by
  induction path generalizing n with
  | nil =>
    obtain rfl : n = [] := by simpa using hn
    exact ⟨not_mem_nil, le_rfl⟩
  | cons b path ih =>
    rw [splitOn, splitOnP_cons_eq_if_modifyHead] at hn
    split_ifs at hn with hb
    · rcases mem_cons.mp hn with rfl | hn
      · exact ⟨not_mem_nil, Nat.zero_le _⟩
      · exact (ih hn).imp_right Nat.le_succ_of_le
    · -- the byte goes to the first part
      cases hsplit : splitOnP (· == 47) path with
      | nil => exact absurd hsplit (splitOnP_ne_nil _ _)
      | cons m parts =>
        rw [splitOn, hsplit] at ih
        rw [hsplit, modifyHead_cons] at hn
        rcases mem_cons.mp hn with rfl | hn
        · obtain ⟨hm, hlen⟩ := ih mem_cons_self
          refine ⟨fun h47 => ?_, Nat.succ_le_succ hlen⟩
          rcases mem_cons.mp h47 with h | h
          · exact hb (beq_iff_eq.mpr h.symm)
          · exact hm h
        · exact (ih (mem_cons_of_mem _ hn)).imp_right Nat.le_succ_of_le

lemma short_of_mem (hp : path.length ≤ 254) (hn : n ∈ path.splitOn 47) : Short n :=
  (mem_splitOn hn).2.trans (hp.trans (by decide))

lemma short_components (hp : path.length ≤ 254) : ∀ n ∈ components path, Short n :=
  fun _ hn => short_of_mem hp (mem_of_mem_filter hn)

lemma splitOn_eq_concat (path : Path) :
    path.splitOn 47 = (path.splitOn 47).dropLast ++ [base path] := by
  have hne : path.splitOn 47 ≠ [] := splitOnP_ne_nil _ _
  rw [base, getLastD_eq_getLast?, getLast?_eq_getLast_of_ne_nil hne, getD_some,
    dropLast_concat_getLast]

lemma short_base (hp : path.length ≤ 254) : Short (base path) :=
  short_of_mem hp (by rw [splitOn_eq_concat]; exact mem_append_right _ mem_cons_self)

lemma normalStep_proper {names : List Name} (h : ∀ m ∈ names, m ≠ [] ∧ 47 ∉ m)
    (hn : n ≠ [] ∧ 47 ∉ n) : ∀ m ∈ normalStep names n, m ≠ [] ∧ 47 ∉ m := by
  unfold normalStep
  split_ifs
  · exact h
  · exact fun m hm => h m (mem_of_mem_dropLast hm)
  · exact forall_mem_append.mpr ⟨h, forall_mem_singleton.mpr hn⟩

/-- What is stored has no empty base name, unless it is the root. -/
lemma base_normalizePath (h : components (normalizePath path) ≠ []) :
    base (normalizePath path) ≠ [] := by
  have hproper : ∀ m ∈ (components path).foldl normalStep [], m ≠ [] ∧ 47 ∉ m := by
    refine foldlRecOn (motive := fun names => ∀ m ∈ names, m ≠ [] ∧ 47 ∉ m) _ _ (by simp)
      fun names hnames n hn => normalStep_proper hnames ?_
    obtain ⟨hmem, hne⟩ := mem_filter.mp hn
    exact ⟨of_decide_eq_true hne, (mem_splitOn hmem).1⟩
  have hnil : (components path).foldl normalStep [] ≠ [] := by
    intro hnil
    rw [normalizePath, hnil] at h
    exact h rfl
  rw [base, normalizePath, splitOn_intercalate 47 (fun m hm => (hproper m hm).2) hnil,
    getLastD_eq_getLast?, getLast?_eq_getLast_of_ne_nil hnil]
  exact (hproper _ (getLast_mem hnil)).1

end

/-! ### Walks -/

namespace Fs

variable {s t : Fs} {i j : Ino} {n : Name} {ns : List Name} {k : Key} {path : Path}

/-- The inodes of `s` are as they were, and nothing has gone from its directories. -/
structure Grows (s t : Fs) : Prop where
  dir : ∀ i b, s.dir i = some b → t.dir i = some b
  entry : ∀ k i, Short k.2 → s.dir k.1 = some true → s.entry k = some i → t.entry k = some i

lemma Grows.walk (h : s.Grows t) (hns : ∀ n ∈ ns, Short n) (hw : s.walk i ns = some j) :
    t.walk i ns = some j := by
  induction ns generalizing i with
  | nil => exact hw
  | cons n ns ih =>
    obtain ⟨hn, hns⟩ := forall_mem_cons.mp hns
    rw [Fs.walk, ite_none_right_eq_some] at hw
    obtain ⟨hdir, hw⟩ := hw
    obtain ⟨d, hd, hw⟩ := bind_eq_some_iff.mp hw
    rw [Fs.walk, if_pos (h.dir i _ hdir), h.entry _ d hn hdir hd]
    exact ih hns hw

lemma walk_congr {d : Ino → Dir} (hns : ∀ n ∈ ns, Short n)
    (h : ∀ k ∈ s.trail i ns, Short k.2 → dirLookup (d k.1) k.2 = s.entry k) :
    walk { s with dirs := d } i ns = s.walk i ns := by
  induction ns generalizing i with
  | nil => rfl
  | cons n ns ih =>
    obtain ⟨hn, hns⟩ := forall_mem_cons.mp hns
    obtain ⟨hk, hrest⟩ := forall_mem_cons.mp h
    have hk : entry { s with dirs := d } (i, n) = s.entry (i, n) := hk hn
    simp only [walk, hk]
    cases hj : s.entry (i, n) with
    | none => rfl
    | some j =>
      rw [hj] at hrest
      rw [bind_some, bind_some, ih hns hrest]

lemma walk_concat : s.walk i (ns ++ [n]) =
    (s.walk i ns).bind fun d => if s.dir d = some true then s.entry (d, n) else none := by
  induction ns generalizing i with
  | nil => simp [walk]
  | cons m ns ih =>
    simp only [cons_append, walk]
    split_ifs
    · cases s.entry (i, m) with
      | none => rfl
      | some d => exact ih
    · rfl

/-- The last component is looked up in the parent. -/
lemma lookup_of_base (hb : base path ≠ []) : s.lookup path =
    (s.slot path).bind fun k => if s.dir k.1 = some true then s.entry k else none := by
  rw [lookup, components, splitOn_eq_concat, filter_append, filter_singleton,
    decide_eq_true hb, Bool.cond_true, walk_concat, slot, if_neg hb, bind_map]
  rfl

lemma base_of_slot (hk : s.slot path = some k) : base path ≠ [] ∧ k.2 = base path := by
  obtain ⟨hb, hk⟩ := ite_none_left_eq_some.mp hk
  obtain ⟨d, -, rfl⟩ := map_eq_some_iff.mp hk
  exact ⟨hb, rfl⟩

/-- What `mkdir` checks: a directory does not have the name. -/
lemma entry_eq_none (hk : s.slot path = some k) (h : s.lookup path = none)
    (hdir : s.dir k.1 = some true) : s.entry k = none := by
  rwa [lookup_of_base (base_of_slot hk).1, hk, bind_some, if_pos hdir] at h

/-- A file that is where its path says is what `ext2_write_file` writes. -/
lemma writeFile_found (h : s.lookup path = some i) (hreg : s.dir i = some false)
    (hb : base path ≠ []) (new : Ino) (pos : ℕ) : s.writeFile path new pos true = (s, some i) := by
  rw [lookup_of_base hb, bind_eq_some_iff] at h
  obtain ⟨k, hk, hi⟩ := h
  rw [ite_none_right_eq_some] at hi
  simp only [writeFile, hk, hi.2, ← hreg, update_eq_self, if_true]

lemma grows_add {new : Ino} {pos : ℕ} {isDir : Bool} (hk : Short k.2) (hnone : s.entry k = none)
    (ht : s.add k new pos isDir = some t) : s.Grows t := by
  obtain ⟨⟨hnew, -⟩, rfl⟩ := ite_some_none_eq_some.mp ht
  have hne {i : Ino} {b : Bool} (hi : s.dir i = some b) : i ≠ new := by
    rintro rfl
    rw [hnew] at hi
    cases hi
  refine ⟨fun i b hi => (update_of_ne (hne hi) _ _).trans hi, fun l i hl hdir hi => ?_⟩
  have hlk : l ≠ k := by
    rintro rfl
    rw [hnone] at hi
    cases hi
  rw [← hi]
  simp only [entry]
  split_ifs
  · rw [update_of_ne (hne hdir)]
    exact dirLookup_update_of_ne hl hlk fun _ => dirLookup_add_of_ne hk
  · exact dirLookup_update_of_ne hl hlk fun _ => dirLookup_add_of_ne hk

lemma Sound.add {new : Ino} {pos : ℕ} {isDir : Bool} (h : s.Sound) (hk : Short k.2)
    (ht : s.add k new pos isDir = some t) : t.Sound := by
  obtain ⟨⟨hnew, -⟩, rfl⟩ := ite_some_none_eq_some.mp ht
  have hroot : rootIno ≠ new := by
    rintro rfl
    rw [h.root] at hnew
    cases hnew
  refine ⟨(update_of_ne hroot _ _).trans h.root, fun i => ?_⟩
  dsimp only
  split_ifs
  · exact short_update (short_update h.short (short_add (h.short k.1) hk)) (by simp [Short]) i
  · exact short_update h.short (short_add (h.short k.1) hk) i

end Fs

/-! ### The run -/

/-- The path of every open file names its inode, a regular file. -/
structure Inv (s : Sys) : Prop where
  sound : s.Sound
  opened : ∀ x ∈ s.files, s.lookup x.2 = some x.1 ∧ s.dir x.1 = some false
  path : ∀ x ∈ s.files, base x.2 ≠ [] ∧ x.2.length ≤ 254
  good : Good s

/-- The directories have changed, and not on the way to an open file. -/
structure Keeps (s : Sys) (d : Ino → Dir) : Prop where
  short : ∀ i, ∀ e ∈ d i, Short e.1
  trail : ∀ x ∈ s.files, ∀ k ∈ s.trail rootIno (components x.2), Short k.2 →
    dirLookup (d k.1) k.2 = s.entry k

section

variable {s : Sys} {d : Ino → Dir} {k : Key}

lemma Keeps.update {d' : Dir} (h : Keeps s d) (hd : ∀ e ∈ d', Short e.1)
    (hk : ∀ x ∈ s.files, k ∉ s.trail rootIno (components x.2))
    (hother : ∀ m, Short m → m ≠ k.2 → dirLookup d' m = dirLookup (d k.1) m) :
    Keeps s (update d k.1 d') where
  short := short_update h.short hd
  trail x hx l hl hshort := by
    have hne : l ≠ k := fun e => hk x hx (e ▸ hl)
    rw [dirLookup_update_of_ne hshort hne hother, h.trail x hx l hl hshort]

lemma Keeps.remove (h : Keeps s d) (hshort : Short k.2)
    (hk : ∀ x ∈ s.files, k ∉ s.trail rootIno (components x.2)) :
    Keeps s (Function.update d k.1 (dirRemoveEntry (d k.1) k.2)) :=
  h.update (short_remove (h.short _)) hk fun _ => dirLookup_remove_of_ne (h.short _) hshort

lemma Keeps.add {i : Ino} {pos : ℕ} (h : Keeps s d) (hshort : Short k.2)
    (hk : ∀ x ∈ s.files, k ∉ s.trail rootIno (components x.2)) :
    Keeps s (Function.update d k.1 (dirAddEntry (d k.1) k.2 i pos)) :=
  h.update (short_add (h.short _) hshort) hk fun _ => dirLookup_add_of_ne hshort

end

lemma Sys.Spares.short {s : Sys} {path : Path} {k : Key} (h : s.Spares path)
    (hk : s.slot path = some k) : Short k.2 := by
  rw [(Fs.base_of_slot hk).2]
  exact short_base h.1

namespace Inv

variable {s s' : Sys} {t : Fs}

lemma keeps (h : Inv s) : Keeps s s.dirs := ⟨h.sound.short, fun _ _ _ _ _ => rfl⟩

lemma grow (h : Inv s) (ht : s.Grows t) (hsound : t.Sound) : Inv { s with toFs := t } :=
  ⟨hsound, fun x hx => (h.opened x hx).imp (ht.walk (short_components (h.path x hx).2)) (ht.dir _ _),
    h.path, h.good⟩

/-- A later call that finds the file of its descriptor. -/
lemma call {f : ℕ} {does : Ino × Path → Fs × List (Option Ino)} (h : Inv s)
    (hdoes : ∀ x ∈ s.files, (does x).1 = s.toFs ∧ ∀ i ∈ (does x).2, i = some x.1)
    (hs : s.call f does = some s') : Inv s' := by
  obtain ⟨x, hx, rfl⟩ := map_eq_some_iff.mp hs
  obtain ⟨hfs, hacted⟩ := hdoes x (mem_of_getElem? hx)
  rw [hfs]
  exact ⟨h.sound, h.opened, h.path, forall_mem_cons.mpr ⟨hacted, h.good⟩⟩

/-- Only directory entries change, and none on the way to an open file. -/
lemma entries {d : Ino → Dir} (h : Inv s) (hd : Keeps s d) : Inv { s with dirs := d } :=
  ⟨⟨h.sound.root, hd.short⟩, fun x hx => (h.opened x hx).imp_left
    (Fs.walk_congr (short_components (h.path x hx).2) (hd.trail x hx)).trans, h.path, h.good⟩

lemma step {a : Act} (h : Inv s) (hok : Settled s a) (hs : fdStep s a = some s') : Inv s' := by
  cases a with
  | opens path =>
    obtain ⟨i, hi, hs⟩ := bind_eq_some_iff.mp hs
    obtain ⟨hreg, rfl⟩ := ite_some_none_eq_some.mp hs
    have hbase : base (normalizePath path) ≠ [] := by
      refine base_normalizePath fun hnil => ?_
      rw [Fs.lookup, hnil, Fs.walk, some.injEq] at hi
      rw [← hi, h.sound.root] at hreg
      cases hreg
    rw [take_of_length_le hok]
    exact ⟨h.sound, forall_mem_cons.mpr ⟨⟨hi, hreg⟩, h.opened⟩,
      forall_mem_cons.mpr ⟨⟨hbase, hok⟩, h.path⟩, h.good⟩
  | make isDir path new pos read =>
    obtain ⟨hlen, rfl⟩ := hok
    obtain ⟨k, hk, hs⟩ := bind_eq_some_iff.mp hs
    obtain ⟨hnone, hs⟩ := ite_none_left_eq_some.mp hs
    obtain ⟨t, ht, rfl⟩ := map_eq_some_iff.mp hs
    have hshort : Short k.2 := by
      rw [(Fs.base_of_slot hk).2]
      exact short_base hlen
    have hnone := not_not.mp fun hne => hnone ⟨rfl, hne⟩
    refine h.grow (Fs.grows_add hshort ?_ ht) (h.sound.add hshort ht)
    cases isDir with
    | false => exact hnone
    | true =>
      obtain ⟨⟨-, hdir⟩, -⟩ := ite_some_none_eq_some.mp ht
      exact Fs.entry_eq_none hk hnone hdir
  | unlink path =>
    obtain ⟨i, -, hs⟩ := bind_eq_some_iff.mp hs
    obtain ⟨k, hk, hs⟩ := bind_eq_some_iff.mp hs
    obtain ⟨-, ⟨⟩⟩ := ite_none_left_eq_some.mp hs
    exact h.entries (h.keeps.remove (hok.short hk) (hok.2 k hk))
  | rename src dst pos room read =>
    obtain ⟨i, -, hs⟩ := bind_eq_some_iff.mp hs
    obtain ⟨k, hk, hs⟩ := bind_eq_some_iff.mp hs
    obtain ⟨l, hl, hs⟩ := bind_eq_some_iff.mp hs
    obtain ⟨-, hs⟩ := ite_none_left_eq_some.mp hs
    generalize (if read then s.lookup dst else none) = old at hs
    have hold : Keeps s (if old.isSome = true then
        update s.dirs l.1 (dirRemoveEntry (s.dirs l.1) l.2) else s.dirs) := by
      split_ifs
      · exact h.keeps.remove (hok.2.short hl) (hok.2.2 l hl)
      · exact h.keeps
    generalize (if old.isSome = true then _ else s.dirs) = d at hs hold
    dsimp only at hs
    split_ifs at hs <;> obtain rfl := some.inj hs
    · exact h.entries ((hold.add (hok.2.short hl) (hok.2.2 l hl)).remove (hok.1.short hk)
        (hok.1.2 k hk))
    · exact h.entries hold
  | ftruncate f zero same new pos read =>
    obtain rfl : read = true := hok
    simp only [fdStep] at hs
    refine h.call (fun x hx => ?_) hs
    obtain ⟨hw, hreg⟩ := h.opened x hx
    have hwrite := Fs.writeFile_found hw hreg (h.path x hx).1 new pos
    simp only [Fs.truncateTo, hwrite, hw, if_true, hreg, ite_self, Prod.map_apply, id,
      forall_mem_singleton, and_self]
  | fstat f read =>
    obtain rfl : read = true := hok
    simp only [fdStep] at hs
    exact h.call (fun x hx => ⟨rfl, by simp [(h.opened x hx).1]⟩) hs
  | mmap f read =>
    obtain rfl : read = true := hok
    simp only [fdStep] at hs
    exact h.call (fun x hx => ⟨rfl, by simp [(h.opened x hx).1]⟩) hs

end Inv

/-- The root directory and nothing in it. -/
def bare : Fs := ⟨fun _ => [], fun i => if i = rootIno then some true else none⟩

end Makaos.FdPath
