import Makaos.Lib.History
import Makaos.Lib.Transition

/-!
`ext2_lookup_path` and the operations that change directories: `ext2_create`, `ext2_mkdir`,
`ext2_unlink` and `ext2_rename`.

A directory is the list of its live entries in the order `dir_lookup` meets them; where a new entry
goes is left open. The entries `.` and `..` are left out, as `normalize_path` takes both out of a
path. The directory-entry cache is a partial function of directory and name. A walk takes the inode
read, the dcache lookup, the directory scan and the dcache install as steps of their own; an operation
is a list of steps, each the change of a directory or an invalidation.

* `lookupStep`: the steps of all of them, of any number of threads.
* `LookupGood`: **a walk that starts after an operation has returned sees what the operation left, or
  something later.**
* `InOrder`: what is installed is still what the directory says, no read of a walk fails, no operation
  fails halfway, and names have at most 255 bytes.
-/

namespace Makaos.PathLookup

open Function List
open History

/-- A name in a directory. -/
abbrev Name := List UInt8

/-- A name whose length fits in the field `name_len` of an entry. -/
abbrev Short (n : Name) : Prop := n.length ≤ 255

/-- An inode number. The inode cache has 65536 leaves and takes a number modulo that, so on a volume
with more inodes two of them are mistaken for each other. -/
abbrev Ino := Fin 65536

/-- The live entries of a directory, in the order of the scan, with all the bytes of their names. -/
abbrev Dir := List (Name × Ino)

/-- A directory and a name. -/
abbrev Key := Ino × Name

/-- How an entry is compared with the name looked for: the lengths as 8-bit numbers, then as many
bytes as the latter has. -/
def nameEq (stored n : Name) : Bool := stored.length % 256 = n.length % 256 ∧ n <+: stored

/-- `dir_lookup`: the first entry of that name. -/
def dirLookup (d : Dir) (n : Name) : Option Ino := (d.find? fun e => nameEq e.1 n).map Prod.snd

/-- `dir_add_entry`: it does not look for the name, and the place depends on the free room. -/
def dirAddEntry (d : Dir) (n : Name) (ino : Ino) (pos : ℕ) : Dir :=
  d.take pos ++ (n, ino) :: d.drop pos

/-- `dir_remove_entry`: the first entry of that name. -/
def dirRemoveEntry (d : Dir) (n : Name) : Dir := d.eraseP fun e => nameEq e.1 n

section

variable {d : Dir} {n m stored : Name} {ino : Ino} {pos : ℕ}

lemma nameEq_iff (hs : Short stored) (hn : Short n) : nameEq stored n = true ↔ stored = n := by
  rw [nameEq, decide_eq_true_iff]
  constructor
  · rintro ⟨hlen, hpre⟩
    exact (hpre.eq_of_length (by omega)).symm
  · rintro rfl
    exact ⟨rfl, prefix_rfl⟩

lemma dirLookup_add_of_ne (hn : Short n) (hm : Short m) (h : m ≠ n) :
    dirLookup (dirAddEntry d n ino pos) m = dirLookup d m := by
  have hne : nameEq n m = false := Bool.eq_false_iff.mpr fun he => h ((nameEq_iff hn hm).mp he).symm
  conv_rhs => rw [← d.take_append_drop pos]
  simp only [dirLookup, dirAddEntry, find?_append, find?_cons, hne]

lemma dirLookup_remove_of_ne (hd : ∀ e ∈ d, Short e.1) (hn : Short n) (hm : Short m) (h : m ≠ n) :
    dirLookup (dirRemoveEntry d n) m = dirLookup d m := by
  unfold dirLookup dirRemoveEntry
  congr 1
  induction d with
  | nil => rfl
  | cons e d ih =>
    obtain ⟨he, hd⟩ := forall_mem_cons.mp hd
    by_cases hen : nameEq e.1 n = true
    · have hem : nameEq e.1 m = false := Bool.eq_false_iff.mpr fun hem =>
        h (((nameEq_iff he hm).mp hem).symm.trans ((nameEq_iff he hn).mp hen))
      simp only [eraseP_cons, hen, find?_cons, hem, cond_true]
    · simp only [eraseP_cons, Bool.eq_false_iff.mpr hen, find?_cons, ih hd, cond_false]

lemma short_add (hd : ∀ e ∈ d, Short e.1) (hn : Short n) :
    ∀ e ∈ dirAddEntry d n ino pos, Short e.1 := by
  intro e he
  rcases mem_append.mp he with he | he
  · exact hd e (mem_of_mem_take he)
  · rcases mem_cons.mp he with rfl | he
    · exact hn
    · exact hd e (mem_of_mem_drop he)

lemma short_update {dirs : Ino → Dir} (h : ∀ x, ∀ e ∈ dirs x, Short e.1) (hd : ∀ e ∈ d, Short e.1) :
    ∀ x, ∀ e ∈ update dirs ino d x, Short e.1 :=
  (forall_update_iff dirs fun _ d => ∀ e ∈ d, Short e.1).mpr ⟨hd, fun x _ => h x⟩

/-- A directory changes in one name. -/
lemma dirLookup_update_of_ne {dirs : Ino → Dir} {k l : Key} (hl : Short l.2) (hne : l ≠ k)
    (hd : ∀ m, Short m → m ≠ k.2 → dirLookup d m = dirLookup (dirs k.1) m) :
    dirLookup (update dirs k.1 d l.1) l.2 = dirLookup (dirs l.1) l.2 := by
  by_cases h1 : l.1 = k.1
  · rw [h1, update_self]
    exact hd l.2 hl fun h2 => hne (Prod.ext h1 h2)
  · rw [update_of_ne h1]

lemma short_remove (hd : ∀ e ∈ d, Short e.1) : ∀ e ∈ dirRemoveEntry d n, Short e.1 :=
  fun e he => hd e (mem_of_mem_eraseP he)

end

/-- The components of a path: `/` separates them, and empty ones are skipped. -/
def components (path : List UInt8) : List Name := (path.splitOn 47).filter (· ≠ [])

/-- `EXT2_ROOT_INO`. -/
def rootIno : Ino := ⟨2, by decide +kernel⟩

/-! ### The state -/

/-- A step of an operation. -/
inductive Prim where
  /-- The new inode is written. -/
  | mkInode (ino : Ino) (isDir : Bool)
  | add (k : Key) (ino : Ino)
  /-- `must`: the operation fails if there is no such entry. -/
  | remove (must : Bool) (k : Key)
  /-- `ext2_write_file` looks for the name again, and overwrites what it finds. -/
  | recheck (k : Key)
  /-- `inode_lock`, which fails if memory or the disk fails. -/
  | inodeLock
  | invalidate (k : Key)
  deriving DecidableEq

/-- What `ext2_lookup_path` returns: an inode, `-ENOENT` or `-EACCES`. -/
inductive Res where
  | found (ino : Ino)
  | absent
  | denied
  deriving DecidableEq

/-- Where a thread is. Of a walk, `visited` are the components done, for the specification only; of
an operation, `changed` are the entries it has changed and the numbers of the changes, likewise. -/
inductive Pc where
  | idle
  /-- Reads the inode of the directory it is in. -/
  | walk (cur : Ino) (visited rest : List Name)
  | cacheLook (cur : Ino) (visited : List Name) (n : Name) (rest : List Name)
  | scan (cur : Ino) (visited : List Name) (n : Name) (rest : List Name)
  /-- The scan gave `v`. -/
  | install (cur : Ino) (visited : List Name) (n : Name) (rest : List Name) (v : Option Ino)
  | reported (path : List Name) (r : Res)
  | op (todo : List Prim) (changed : List (Key × ℕ))
  deriving DecidableEq

/-- What had been acknowledged when a walk started: for an entry, the number of its last change by an
operation that had returned, and for an inode, the number of times it had been written. -/
structure Floor where
  entry : Key → ℕ
  kind : Ino → ℕ

/-- The directories, the cache and the threads. The cache holds an inode number or, for a negative
dentry, `none`. For the specification only: with it the number of the change it describes; `log` and
`kindLog`, the values of every entry and the kinds of every inode so far; `done`, the number of the
last change by an operation that has returned; `start`. -/
structure Sys (ι : Type*) where
  dirs : Ino → Dir
  isDir : Ino → Bool
  cache : Key → Option (Option Ino × ℕ)
  renamer : Option ι
  pc : ι → Pc
  log : Key → List (Option Ino)
  kindLog : Ino → List Bool
  done : Key → ℕ
  start : ι → Floor

/-- What a thread does next. -/
inductive Act where
  | lookup (path : List UInt8)
  /-- `read`: the name, or that of the destination, is looked for without an error. -/
  | create (k : Key) (ino : Ino) (read : Bool)
  | mkdir (k : Key) (ino : Ino) (read : Bool)
  | unlink (k : Key)
  | rename (src dst : Key) (read : Bool)
  /-- `dcache_shrink` takes an entry. -/
  | evict (k : Key)
  /-- The next step of the call; `ok` tells whether it is permitted or succeeds, `read` whether the
  inode or the directory can be read, `pos` where a new entry finds room. -/
  | run (ok read : Bool) (pos : ℕ)
  deriving DecidableEq

variable {ι : Type*} [DecidableEq ι]

namespace Sys

/-- A thread moves on. -/
def goto (s : Sys ι) (t : ι) (pc : Pc) : Sys ι := { s with pc := update s.pc t pc }

/-- The entry as the directory has it. -/
def entry (s : Sys ι) (k : Key) : Option Ino := dirLookup (s.dirs k.1) k.2

/-- The entry as a scan finds it: when memory or the disk fails, there is none. -/
def scanned (s : Sys ι) (k : Key) (read : Bool) : Option Ino := if read then s.entry k else none

/-- A directory changes in one name. -/
def change (s : Sys ι) (k : Key) (d : Dir) : Sys ι :=
  { s with
    dirs := update s.dirs k.1 d
    log := update s.log k (s.log k ++ [dirLookup d k.2]) }

/-- The cache changes. -/
def setCache (s : Sys ι) (k : Key) (x : Option (Option Ino × ℕ)) : Sys ι :=
  { s with cache := update s.cache k x }

/-- The new inode is written. -/
def writeInode (s : Sys ι) (ino : Ino) (isDir : Bool) : Sys ι :=
  { s with
    isDir := update s.isDir ino isDir
    kindLog := update s.kindLog ino (s.kindLog ino ++ [isDir]) }

/-- The numbers of the changes are acknowledged. -/
def acknowledge (done : Key → ℕ) (changed : List (Key × ℕ)) : Key → ℕ :=
  changed.foldl (fun done c => update done c.1 (max (done c.1) c.2)) done

/-- An operation returns. -/
def finish (s : Sys ι) (t : ι) (changed : List (Key × ℕ)) : Sys ι :=
  { s with
    done := acknowledge s.done changed
    renamer := if s.renamer = some t then none else s.renamer
    pc := update s.pc t .idle }

/-- The next step of an operation. -/
def opStep (s : Sys ι) (t : ι) (ok read : Bool) (pos : ℕ) (changed : List (Key × ℕ)) :
    List Prim → Sys ι
  | [] => s.finish t changed
  | .mkInode ino isDir :: todo =>
    -- an inode that cannot be locked is not written, and the operation goes on
    (if ok then s.writeInode ino isDir else s).goto t (.op todo changed)
  | .add k ino :: todo =>
    if ok then
      (s.change k (dirAddEntry (s.dirs k.1) k.2 ino pos)).goto t
        (.op todo ((k, (s.log k).length) :: changed))
    else s.finish t changed
  | .remove must k :: todo =>
    if s.scanned k read = none then
      if must then s.finish t changed else s.goto t (.op todo changed)
    else
      (s.change k (dirRemoveEntry (s.dirs k.1) k.2)).goto t
        (.op todo ((k, (s.log k).length) :: changed))
  | .recheck k :: todo =>
    -- the overwritten file keeps its entry; `ext2_create` still invalidates
    if s.scanned k read = none then s.goto t (.op todo changed)
    else s.goto t (.op [.invalidate k] changed)
  | .inodeLock :: todo => if ok then s.goto t (.op todo changed) else s.finish t changed
  | .invalidate k :: todo => (s.setCache k none).goto t (.op todo changed)

/-- The steps of `ext2_create` after the check that the name is free: `ext2_write_file` with no data,
which invalidates as well. -/
def createOp (k : Key) (ino : Ino) : List Prim :=
  [.recheck k, .mkInode ino false, .add k ino, .invalidate k, .invalidate k]

/-- The steps of `ext2_mkdir`. -/
def mkdirOp (k : Key) (ino : Ino) : List Prim := [.mkInode ino true, .add k ino, .invalidate k]

/-- The steps of `ext2_unlink`. -/
def unlinkOp (k : Key) : List Prim := [.remove true k, .inodeLock, .invalidate k]

/-- The steps of `ext2_rename`; `replace`: there is a file at the destination. -/
def renameOp (src dst : Key) (ino : Ino) (replace : Bool) : List Prim :=
  (if replace then [.remove false dst] else []) ++
    [.add dst ino, .remove false src, .invalidate src, .invalidate dst]

/-- A walk starts: what has been acknowledged is written down. -/
def beginWalk (s : Sys ι) (t : ι) : Sys ι :=
  { s with start := update s.start t ⟨s.done, fun ino => (s.kindLog ino).length - 1⟩ }

/-- A walk goes on with what it has found, or ends. -/
def follow (s : Sys ι) (t : ι) (visited : List Name) (n : Name) (rest : List Name) :
    Option Ino → Sys ι
  | some ino => s.goto t (.walk ino (visited ++ [n]) rest)
  | none => s.goto t (.reported (visited ++ n :: rest) .absent)

/-- `dcache_install`: an entry that is there stays. -/
def install (s : Sys ι) (k : Key) (v : Option Ino) (ok : Bool) : Sys ι :=
  if ok ∧ s.cache k = none then s.setCache k (some (v, (s.log k).length - 1)) else s

/-- The next step of the call a thread is in. -/
def runStep (s : Sys ι) (t : ι) (ok read : Bool) (pos : ℕ) : Option (Sys ι) :=
  match s.pc t with
  | .idle => none
  | .walk cur visited [] => some (s.goto t (.reported visited (.found cur)))
  | .walk cur visited (n :: rest) =>
    -- an inode that cannot be read counts as absent
    if read = false ∨ s.isDir cur = false then
      some (s.goto t (.reported (visited ++ n :: rest) .absent))
    else if ok = false then some (s.goto t (.reported (visited ++ n :: rest) .denied))
    else some (s.goto t (.cacheLook cur visited n rest))
  | .cacheLook cur visited n rest =>
    match s.cache (cur, n) with
    | some (v, _) => some (s.follow t visited n rest v)
    | none => some (s.goto t (.scan cur visited n rest))
  | .scan cur visited n rest =>
    some (s.goto t (.install cur visited n rest (s.scanned (cur, n) read)))
  | .install cur visited n rest v => some ((s.install (cur, n) v ok).follow t visited n rest v)
  | .reported _ _ => some (s.goto t .idle)
  | .op todo changed => some (s.opStep t ok read pos changed todo)

end Sys

/-- **The steps.** An operation starts with the checks it makes in the directories. -/
def lookupStep (s : Sys ι) : ι × Act → Option (Sys ι)
  | (t, .run ok read pos) => s.runStep t ok read pos
  | (_, .evict k) => some (s.setCache k none)
  | (t, a) =>
    if s.pc t ≠ .idle then none
    else
      match a with
      | .lookup path =>
        if path.head? = some 47 then
          some ((s.beginWalk t).goto t (.walk rootIno [] (components path)))
        else some s
      | .create k ino read =>
        if s.scanned k read = none then some (s.goto t (.op (Sys.createOp k ino) [])) else some s
      | .mkdir k ino read =>
        if s.scanned k read = none then some (s.goto t (.op (Sys.mkdirOp k ino) [])) else some s
      | .unlink k =>
        match s.entry k with
        | none => some s
        | some ino =>
          if s.isDir ino then some s else some (s.goto t (.op (Sys.unlinkOp k) []))
      | .rename src dst read =>
        if s.renamer ≠ none then none
        else
          match s.entry src with
          | none => some s
          | some ino =>
            match s.scanned dst read with
            | none =>
              some ({ s with renamer := some t }.goto t (.op (Sys.renameOp src dst ino false) []))
            | some old =>
              if s.isDir old then some s
              else
                some ({ s with renamer := some t }.goto t (.op (Sys.renameOp src dst ino true) []))
      | .evict _ | .run _ _ _ => none

/-- A mounted volume and an empty cache. -/
def boot (dirs : Ino → Dir) (isDir : Ino → Bool) : Sys ι where
  dirs := dirs
  isDir := isDir
  cache _ := none
  renamer := none
  pc _ := .idle
  log k := [dirLookup (dirs k.1) k.2]
  kindLog ino := [isDir ino]
  done _ := 0
  start _ := ⟨fun _ => 0, fun _ => 0⟩

/-! ### What is asked -/

/-- The path has led from directory `cur` to `x` all the time: every entry on it has been what it is
now ever since the last change that was acknowledged, and every directory on it a directory. -/
def Sys.SteadyWalk (s : Sys ι) (f : Floor) : Ino → List Name → Ino → Prop
  | cur, [], x => x = cur
  | cur, n :: rest, x =>
    Steady (s.kindLog cur) (f.kind cur) true ∧
      ∃ y, Steady (s.log (cur, n)) (f.entry (cur, n)) (some y) ∧ s.SteadyWalk f y rest x

/-- The path has led nowhere all the time: up to some entry that is not there, or is below something
that is not a directory. -/
def Sys.SteadyAbsent (s : Sys ι) (f : Floor) : Ino → List Name → Prop
  | _, [] => False
  | cur, n :: rest =>
    Steady (s.kindLog cur) (f.kind cur) false ∨
      (Steady (s.kindLog cur) (f.kind cur) true ∧ (Steady (s.log (cur, n)) (f.entry (cur, n)) none ∨
          ∃ y, Steady (s.log (cur, n)) (f.entry (cur, n)) (some y) ∧ s.SteadyAbsent f y rest))

/-- **Path lookup agrees with the directories.** -/
structure LookupGood (s : Sys ι) : Prop where
  /-- What has been there all the time is found, unless the caller may not look. -/
  present : ∀ t path r x, s.pc t = .reported path r → s.SteadyWalk (s.start t) rootIno path x →
    r = .found x ∨ r = .denied
  /-- What has been absent all the time is not. -/
  absent : ∀ t path r, s.pc t = .reported path r → s.SteadyAbsent (s.start t) rootIno path →
    r = .absent ∨ r = .denied
  /-- A dentry does not outlive what it describes: it is as the last operation that has returned left
  the entry, or newer. -/
  cached : ∀ k v i, s.cache k = some (v, i) → Seen (s.log k) (s.done k) v

/-- What a thread relies on: no read of a walk fails, what it installs is still what the directory
says, an operation does not fail after it has changed something, and names are short. -/
def Sys.InOrder (s : Sys ι) (ok read : Bool) : Pc → Prop
  | .walk _ _ _ => read = true
  | .scan _ _ n _ => read = true ∧ Short n
  | .install cur _ n _ v => Short n ∧ (s.cache (cur, n) = none → s.entry (cur, n) = v)
  | .op (.add k _ :: _) changed => Short k.2 ∧ (ok = true ∨ changed = [])
  | .op (.remove _ k :: _) _ => Short k.2
  | .op (.inodeLock :: _) changed => ok = true ∨ changed = []
  | _ => True

instance (s : Sys ι) (ok read : Bool) (pc : Pc) : Decidable (s.InOrder ok read pc) := by
  unfold Sys.InOrder
  split <;> infer_instance

/-- **Every step of the run is in order.** -/
def InOrder (s : Sys ι) : ι × Act → Prop
  | (t, .run ok read _) => s.InOrder ok read (s.pc t)
  | _ => True

instance (s : Sys ι) (a : ι × Act) : Decidable (InOrder s a) := by
  unfold InOrder
  split <;> infer_instance

end Makaos.PathLookup
