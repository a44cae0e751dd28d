import Makaos.Fs.Layout
import Makaos.Lib.Transition

/-!
Tasks that write metadata records back at the same time.

`inode_disk_write` and `write_bgd` read the block of their record, change the record in a scratch
buffer and write the whole block. The lock a task holds is that of its inode or its group; nothing
holds the block between the two transfers.

* `metaStep`: the tasks, one `read_block` or `write_block` at a time.
* `MetaInv`: what holds as long as no task reads a block another task is about to write.
* `records_kept`: **every record holds what its own writer stored**, if the tasks keep out of each
  other's way like that.
* `record_lost`: two inodes of one block, read by both tasks before either writes.
-/

namespace Makaos.Ext2

open Function Transition Nat
variable {a b : ℕ}
/-! ### The tasks -/

/-- A call of `inode_disk_write` or of `write_bgd`, with the bytes of the record it stores. -/
inductive MetaJob where
  | inodeDiskWrite (ino : ℕ) (data : ℕ → UInt8)
  | writeBgd (grp : ℕ) (data : ℕ → UInt8)

namespace MetaJob

/-- The size of the record. -/
def size : MetaJob → ℕ
  | inodeDiskWrite _ _ => inodeBytes
  | writeBgd _ _ => bgdBytes

/-- The bytes of the record. -/
def data : MetaJob → ℕ → UInt8
  | inodeDiskWrite _ data => data
  | writeBgd _ data => data

/-- The place of the record; for an inode it is read from the descriptor of its group. -/
def place (g : Geometry) (disk : Disk) : MetaJob → Place
  | inodeDiskWrite ino _ => inodePlace g disk ino
  | writeBgd grp _ => bgdPlace g grp

end MetaJob

/-- Where a task is in its call. -/
inductive MetaPc where
  | start
  /-- The place is known. -/
  | located (p : Place)
  /-- The block is in the scratch buffer. -/
  | loaded (p : Place) (buf : Block)
  | returned (ok : Bool)

/-- The disk and the tasks. -/
structure MetaSys (ι : Type*) where
  disk : Disk
  pc : ι → MetaPc

/-- One step of a task. -/
inductive MetaAct (ι : Type*) where
  /-- The place is computed, with `read_bgd` for an inode. -/
  | locate (t : ι)
  /-- `read_block` into the scratch buffer. -/
  | read (t : ι)
  /-- The record is copied into the buffer and the buffer is written, `write_block`. -/
  | write (t : ι)
  /-- An allocation or a transfer fails and the call returns `0`. -/
  | fail (t : ι)

variable {ι : Type*} {g : Geometry} {disk : Disk}

/-- The steps of the two functions. -/
def metaStep [DecidableEq ι] (g : Geometry) (job : ι → MetaJob) (s : MetaSys ι) :
    MetaAct ι → Option (MetaSys ι)
  | .locate t =>
    match s.pc t with
    | .start =>
      match job t with
      -- `if (ino == 0) return 0`
      | .inodeDiskWrite 0 _ => some { s with pc := update s.pc t (.returned false) }
      | j => some { s with pc := update s.pc t (.located (j.place g s.disk)) }
    | _ => none
  | .read t =>
    match s.pc t with
    | .located p => some { s with pc := update s.pc t (.loaded p (s.disk p.blk)) }
    | _ => none
  | .write t =>
    match s.pc t with
    | .loaded p buf =>
      some
        { disk := update s.disk p.blk (patch buf p.off (job t).size (job t).data)
          pc := update s.pc t (.returned true) }
    | _ => none
  | .fail t =>
    match s.pc t with
    | .returned _ => none
    | _ => some { s with pc := update s.pc t (.returned false) }

/-- A task reads a block only while no task is between its read and its write of that block. -/
def ReadAlone (s : MetaSys ι) : MetaAct ι → Prop
  | .read t => ∀ p, s.pc t = .located p → ∀ u q buf, s.pc u = .loaded q buf → q.blk ≠ p.blk
  | _ => True

/-- The record of a task is on the disk as the task stored it. -/
def Stored (g : Geometry) (disk : Disk) (j : MetaJob) : Prop :=
  ∀ i < j.size, disk (j.place g disk).blk ((j.place g disk).off + i) = j.data i

/-! ### Volumes -/

/-- The tables of a volume do not overlap and their records fill whole blocks. -/
structure TablesOk (g : Geometry) (disk : Disk) : Prop where
  inodes_pos : 0 < g.inodesPerGrp
  bgd_dvd : bgdBytes ∣ g.blockSize
  inode_dvd : g.inodeSize ∣ g.blockSize
  inode_fits : inodeBytes ≤ g.inodeSize
  /-- The inode tables of two groups lie in different blocks. -/
  tables_apart : ∀ a < g.numGroups, ∀ b < g.numGroups, a ≠ b →
    ∀ i < g.inodesPerGrp, ∀ j < g.inodesPerGrp,
      (recordPlace g (bgInodeTable g disk a) g.inodeSize i).blk ≠
        (recordPlace g (bgInodeTable g disk b) g.inodeSize j).blk
  /-- No inode table lies in the descriptor table. -/
  bgd_apart : ∀ a < g.numGroups, ∀ b < g.numGroups, ∀ i < g.inodesPerGrp,
    (recordPlace g (bgInodeTable g disk a) g.inodeSize i).blk ≠ (bgdPlace g b).blk

/-- The calls are for inodes and groups of the volume, each for its own, and a descriptor that is
written names the inode table it named before. -/
structure JobsOk (g : Geometry) (disk : Disk) (job : ι → MetaJob) : Prop where
  inode_group : ∀ {t ino d}, job t = .inodeDiskWrite ino d → inodeGroup g ino < g.numGroups
  bgd_group : ∀ {t grp d}, job t = .writeBgd grp d → grp < g.numGroups
  inode_once : ∀ {t u ino d e}, job t = .inodeDiskWrite ino d → job u = .inodeDiskWrite ino e →
    t = u
  bgd_once : ∀ {t u grp d e}, job t = .writeBgd grp d → job u = .writeBgd grp e → t = u
  keeps_table : ∀ {t grp d}, job t = .writeBgd grp d →
    ∀ i < 4, d (8 + i) = disk (bgdPlace g grp).blk ((bgdPlace g grp).off + 8 + i)

section Layout

lemma TablesOk.bgd_records (h : TablesOk g disk) (hab : a ≠ b) :
    (bgdPlace g a).Apart bgdBytes (bgdPlace g b) bgdBytes :=
  recordPlace_apart (by decide) h.bgd_dvd le_rfl hab

lemma TablesOk.inode_records (h : TablesOk g disk) (ha : inodeGroup g a < g.numGroups)
    (hb : inodeGroup g b < g.numGroups) (ha0 : a ≠ 0) (hb0 : b ≠ 0) (hab : a ≠ b) :
    (inodePlace g disk a).Apart inodeBytes (inodePlace g disk b) inodeBytes := by
  have hmod : ∀ n, (n - 1) % g.inodesPerGrp < g.inodesPerGrp := fun n =>
    mod_lt _ h.inodes_pos
  by_cases hgrp : inodeGroup g a = inodeGroup g b
  · -- one table, two entries of it
    rw [inodePlace, inodePlace, hgrp]
    refine recordPlace_apart (lt_of_lt_of_le (by decide) h.inode_fits) h.inode_dvd h.inode_fits ?_
    intro hloc
    have hidx : a - 1 = b - 1 := by
      rw [← div_add_mod (a - 1) g.inodesPerGrp, ← div_add_mod (b - 1) g.inodesPerGrp, hloc]
      exact congrArg (fun q => g.inodesPerGrp * q + _) hgrp
    omega
  · exact fun hblk => absurd hblk (h.tables_apart _ ha _ hb hgrp _ (hmod a) _ (hmod b))

lemma TablesOk.inode_bgd (h : TablesOk g disk) (ha : inodeGroup g a < g.numGroups)
    (hb : b < g.numGroups) : (inodePlace g disk a).blk ≠ (bgdPlace g b).blk :=
  h.bgd_apart _ ha _ hb _ (mod_lt _ h.inodes_pos)

/-- **The records of two calls** share no byte. -/
lemma JobsOk.apart {job : ι → MetaJob} (h : JobsOk g disk job) (htab : TablesOk g disk) {t u : ι}
    (htu : t ≠ u) (ht : ∀ d, job t ≠ .inodeDiskWrite 0 d) (hu : ∀ d, job u ≠ .inodeDiskWrite 0 d) :
    ((job t).place g disk).Apart (job t).size ((job u).place g disk) (job u).size := by
  cases hjt : job t with
  | inodeDiskWrite a d =>
    cases hju : job u with
    | inodeDiskWrite b e =>
      refine htab.inode_records (h.inode_group hjt) (h.inode_group hju) ?_ ?_ ?_
      · rintro rfl
        exact ht d hjt
      · rintro rfl
        exact hu e hju
      · rintro rfl
        exact htu (h.inode_once hjt hju)
    | writeBgd b e => exact fun hblk => absurd hblk (htab.inode_bgd (h.inode_group hjt)
        (h.bgd_group hju))
  | writeBgd a d =>
    cases hju : job u with
    | inodeDiskWrite b e => exact fun hblk => absurd hblk.symm (htab.inode_bgd
        (h.inode_group hju) (h.bgd_group hjt))
    | writeBgd b e =>
      refine htab.bgd_records ?_
      rintro rfl
      exact htu (h.bgd_once hjt hju)

end Layout

/-! ### The invariant -/

/-- What holds while the tasks keep out of each other's way; `disk` is the disk at the start. -/
structure MetaInv (g : Geometry) (disk : Disk) (job : ι → MetaJob) (s : MetaSys ι) : Prop where
  /-- The inode tables stay where they are. -/
  tables : ∀ grp < g.numGroups, ∀ i < 4,
    s.disk (bgdPlace g grp).blk ((bgdPlace g grp).off + 8 + i) =
      disk (bgdPlace g grp).blk ((bgdPlace g grp).off + 8 + i)
  located : ∀ {t p}, s.pc t = .located p →
    p = (job t).place g disk ∧ ∀ d, job t ≠ .inodeDiskWrite 0 d
  /-- A scratch buffer is the block as it is on the disk. -/
  loaded : ∀ {t p buf}, s.pc t = .loaded p buf →
    p = (job t).place g disk ∧ (∀ d, job t ≠ .inodeDiskWrite 0 d) ∧ buf = s.disk p.blk
  alone : ∀ {t u p q b c}, s.pc t = .loaded p b → s.pc u = .loaded q c → p.blk = q.blk → t = u
  stored : ∀ {t}, s.pc t = .returned true → (∀ d, job t ≠ .inodeDiskWrite 0 d) ∧
    ∀ i < (job t).size,
      s.disk ((job t).place g disk).blk (((job t).place g disk).off + i) = (job t).data i

section Inv

variable {job : ι → MetaJob} {s s' : MetaSys ι} {t : ι}

lemma MetaInv.place_eq (h : MetaInv g disk job s) (hjobs : JobsOk g disk job) (t : ι) :
    (job t).place g s.disk = (job t).place g disk := by
  cases hj : job t with
  | writeBgd grp d => rfl
  | inodeDiskWrite ino d =>
    have htab : bgInodeTable g s.disk (inodeGroup g ino) = bgInodeTable g disk (inodeGroup g ino) :=
      le32_congr (h.tables _ (hjobs.inode_group hj))
    simp only [MetaJob.place, inodePlace, htab]

/-- The descriptor fields that name the inode tables survive the change of any record. -/
lemma MetaInv.tables_write (h : MetaInv g disk job s) (htab : TablesOk g disk)
    (hjobs : JobsOk g disk job) (grp : ℕ) (hgrp : grp < g.numGroups) (i : ℕ) (hi : i < 4) :
    update s.disk ((job t).place g disk).blk
        (patch (s.disk ((job t).place g disk).blk) ((job t).place g disk).off (job t).size
          (job t).data) (bgdPlace g grp).blk ((bgdPlace g grp).off + 8 + i) =
      disk (bgdPlace g grp).blk ((bgdPlace g grp).off + 8 + i) := by
  have hlt : 8 + i < bgdBytes := by
    rw [bgdBytes]
    omega
  rw [add_assoc]
  cases hj : job t with
  | inodeDiskWrite ino d =>
    simp only [MetaJob.place]
    have hne := htab.inode_bgd (hjobs.inode_group hj) hgrp
    rw [patch_apart (fun hblk => absurd hblk hne) hlt, ← add_assoc]
    exact h.tables grp hgrp i hi
  | writeBgd a d =>
    simp only [MetaJob.place, MetaJob.size, MetaJob.data]
    by_cases ha : a = grp
    · subst ha
      rw [update_self, patch_in hlt, hjobs.keeps_table hj i hi, add_assoc]
    · rw [patch_apart (htab.bgd_records ha) hlt, ← add_assoc]
      exact h.tables grp hgrp i hi

variable [DecidableEq ι]

section

variable (h : MetaInv g disk job s)
include h

/-- A task whose next state is neither in the middle of a write nor at its end changes nothing. -/
lemma MetaInv.move {pc : MetaPc}
    (hl : ∀ p, pc = .located p → p = (job t).place g disk ∧ ∀ d, job t ≠ .inodeDiskWrite 0 d)
    (hld : ∀ p buf, pc ≠ .loaded p buf) (hret : pc ≠ .returned true) :
    MetaInv g disk job { s with pc := update s.pc t pc } := by
  refine ⟨h.tables, ?_, ?_, ?_, ?_⟩
  · intro u p hu
    rcases update_cases hu with ⟨rfl, hp⟩ | ⟨-, hu⟩
    · exact hl p hp
    · exact h.located hu
  · intro u p buf hu
    rcases update_cases hu with ⟨-, hp⟩ | ⟨-, hu⟩
    · exact absurd hp (hld p buf)
    · exact h.loaded hu
  · intro u v p q b c hu hv
    rcases update_cases hu with ⟨-, hp⟩ | ⟨-, hu⟩
    · exact absurd hp (hld p b)
    · rcases update_cases hv with ⟨-, hp⟩ | ⟨-, hv⟩
      · exact absurd hp (hld q c)
      · exact h.alone hu hv
  · intro u hu
    rcases update_cases hu with ⟨-, hp⟩ | ⟨-, hu⟩
    · exact absurd hp hret
    · exact h.stored hu

/-- `read_block`, with no other task at work on the block. -/
lemma MetaInv.read {p : Place} (ht : s.pc t = .located p)
    (halone : ∀ u q buf, s.pc u = .loaded q buf → q.blk ≠ p.blk) :
    MetaInv g disk job { s with pc := update s.pc t (.loaded p (s.disk p.blk)) } := by
  refine ⟨h.tables, ?_, ?_, ?_, ?_⟩
  · intro u q hu
    obtain ⟨-, ⟨⟩⟩ | ⟨-, hu⟩ := update_cases hu
    exact h.located hu
  · intro u q buf hu
    obtain ⟨rfl, ⟨⟩⟩ | ⟨-, hu⟩ := update_cases hu
    · exact ⟨(h.located ht).1, (h.located ht).2, rfl⟩
    · exact h.loaded hu
  · intro u v q r b c hu hv hblk
    obtain ⟨rfl, ⟨⟩⟩ | ⟨-, hu'⟩ := update_cases hu
    · obtain ⟨rfl, -⟩ | ⟨-, hv⟩ := update_cases hv
      · rfl
      · exact absurd hblk.symm (halone v r c hv)
    · obtain ⟨rfl, ⟨⟩⟩ | ⟨-, hv⟩ := update_cases hv
      · exact absurd hblk (halone u q b hu')
      · exact h.alone hu' hv hblk
  · intro u hu
    obtain ⟨-, ⟨⟩⟩ | ⟨-, hu⟩ := update_cases hu
    exact h.stored hu

/-- **`write_block`**: the buffer is the block with one record changed, so the other records of the
block are written back as they are. -/
lemma MetaInv.write (htab : TablesOk g disk) (hjobs : JobsOk g disk job)
    {p : Place} {buf : Block} (ht : s.pc t = .loaded p buf) : MetaInv g disk job
      { disk := update s.disk p.blk (patch buf p.off (job t).size (job t).data)
        pc := update s.pc t (.returned true) } := by
  obtain ⟨hp, h0, hbuf⟩ := h.loaded ht
  subst hp hbuf
  have hother : ∀ {u x}, x ≠ .returned true →
      update s.pc t (.returned true) u = x → u ≠ t ∧ s.pc u = x := by
    intro u x hx hu
    exact (update_cases hu).resolve_left fun h => hx h.2.symm
  refine ⟨h.tables_write htab hjobs, ?_, ?_, ?_, ?_⟩
  · intro u q hu
    exact h.located (hother (by simp) hu).2
  · intro u q c hu
    obtain ⟨hut, hu⟩ := hother (by simp) hu
    obtain ⟨hq, hq0, hc⟩ := h.loaded hu
    refine ⟨hq, hq0, ?_⟩
    simp only [update_of_ne fun hblk => hut (h.alone hu ht hblk)]
    exact hc
  · intro u v q r b c hu hv
    exact h.alone (hother (by simp) hu).2 (hother (by simp) hv).2
  · intro u hu
    by_cases hut : u = t
    · subst hut
      exact ⟨h0, fun i hi => by simp only [update_self, patch_in hi]⟩
    · simp only [update_of_ne hut] at hu
      obtain ⟨hu0, hst⟩ := h.stored hu
      refine ⟨hu0, fun i hi => ?_⟩
      calc _ = s.disk _ _ := patch_apart (hjobs.apart htab (fun e => hut e.symm) h0 hu0) hi
        _ = (job u).data i := hst i hi

lemma MetaInv.step (htab : TablesOk g disk) (hjobs : JobsOk g disk job) {a : MetaAct ι}
    (hok : ReadAlone s a) (hstep : metaStep g job s a = some s') : MetaInv g disk job s' := by
  cases a with
  | locate t =>
    simp only [metaStep] at hstep
    split at hstep
    case h_2 => cases hstep
    case h_1 hpc =>
      split at hstep
      · cases hstep
        exact h.move (by simp) (by simp) (by simp)
      next hj =>
        cases hstep
        refine h.move (fun p hp => ?_) (by simp) (by simp)
        obtain rfl : (job t).place g s.disk = p := by simpa using hp
        exact ⟨h.place_eq hjobs t, hj⟩
  | read t =>
    simp only [metaStep] at hstep
    split at hstep
    case h_2 => cases hstep
    case h_1 p hpc =>
      cases hstep
      exact h.read hpc (hok p hpc)
  | write t =>
    simp only [metaStep] at hstep
    split at hstep
    case h_2 => cases hstep
    case h_1 p buf hpc =>
      cases hstep
      exact h.write htab hjobs hpc
  | fail t =>
    simp only [metaStep] at hstep
    split at hstep
    · cases hstep
    · cases hstep
      exact h.move (by simp) (by simp) (by simp)

end

end Inv

/-! ### Runs -/

/-- **No metadata update is lost**, as long as no task reads a block while another is between its
read and its write of it: whatever the interleaving, each record whose write has returned with
success holds the value its own writer stored. -/
theorem records_kept [DecidableEq ι] (g : Geometry) (disk : Disk) (job : ι → MetaJob)
    (htab : TablesOk g disk)
    (hjobs : JobsOk g disk job) (acts : List (MetaAct ι)) (s : MetaSys ι)
    (hrun : exec (metaStep g job) ⟨disk, fun _ => .start⟩ acts = some s)
    (hok : Meets (metaStep g job) ReadAlone ⟨disk, fun _ => .start⟩ acts) (t : ι)
    (ht : s.pc t = .returned true) : Stored g s.disk (job t) := by
  have hinv : MetaInv g disk job s :=
    exec_invariant (I := MetaInv g disk job)
      (fun h hok hstep => h.step htab hjobs hok hstep) hrun hok
      ⟨fun _ _ _ _ => rfl, by simp, by simp, by simp, by simp⟩
  intro i hi
  rw [hinv.place_eq hjobs t]
  exact (hinv.stored ht).2 i hi

/-! ### Two inodes of one block -/

/-- A volume of one group with eight inodes; the inode table is block 5. -/
def smallGeometry : Geometry where
  blockSize := 1024
  inodesPerGrp := 8
  inodeSize := 128
  numGroups := 1
  firstDataBlk := 1

/-- Its disk: only the `bg_inode_table` field of the one descriptor is not zero. -/
def smallDisk : Disk := fun blk off => if blk = 2 ∧ off = 8 then 5 else 0

/-- Two calls of `inode_disk_write`, for inodes 1 and 2. -/
def twoInodes (t : Fin 2) : MetaJob := .inodeDiskWrite (t.val + 1) fun _ => 7

lemma tablesOk_small : TablesOk smallGeometry smallDisk where
  inodes_pos := by decide
  bgd_dvd := by decide
  inode_dvd := by decide
  inode_fits := by decide
  tables_apart a ha b hb hab := absurd ((lt_one_iff.mp ha).trans (lt_one_iff.mp hb).symm) hab
  bgd_apart := by decide

lemma jobsOk_twoInodes : JobsOk smallGeometry smallDisk twoInodes where
  inode_group {t ino d} h := by
    obtain ⟨rfl, -⟩ := MetaJob.inodeDiskWrite.inj h
    exact (by decide : ∀ t : Fin 2, inodeGroup smallGeometry (t.val + 1) < 1) t
  bgd_group h := by simp [twoInodes] at h
  inode_once {t u ino d e} ht hu := by
    simp only [twoInodes, MetaJob.inodeDiskWrite.injEq] at ht hu
    exact Fin.ext (by omega)
  bgd_once h := by simp [twoInodes] at h
  keeps_table h := by simp [twoInodes] at h

/-- One call after the other. -/
def inTurn : List (MetaAct (Fin 2)) :=
  [.locate 0, .read 0, .write 0, .locate 1, .read 1, .write 1]

/-- Both calls read the block before either writes it. -/
def crossed : List (MetaAct (Fin 2)) :=
  [.locate 0, .locate 1, .read 0, .read 1, .write 0, .write 1]

/-- Two calls in turn store both inodes. -/
theorem records_kept_inTurn :
    ∃ s, exec (metaStep smallGeometry twoInodes) ⟨smallDisk, fun _ => .start⟩ inTurn =
        some s ∧
      Stored smallGeometry s.disk (twoInodes 0) ∧ Stored smallGeometry s.disk (twoInodes 1) := by
  have hok : Meets (metaStep smallGeometry twoInodes) ReadAlone
      ⟨smallDisk, fun _ => .start⟩ inTurn := by
    refine ⟨trivial, ?_, trivial, trivial, ?_, trivial, trivial⟩
    · intro p _ u q buf hu
      fin_cases u <;> cases hu
    · intro p _ u q buf hu
      fin_cases u <;> cases hu
  have hkept := records_kept smallGeometry smallDisk twoInodes tablesOk_small jobsOk_twoInodes inTurn
    _ rfl hok
  exact ⟨_, rfl, hkept 0 rfl, hkept 1 rfl⟩

/-- **The lost update**: both calls have returned with success, and inode 1 is what it was before. -/
theorem record_lost : TablesOk smallGeometry smallDisk ∧ JobsOk smallGeometry smallDisk twoInodes ∧
      ∃ s, exec (metaStep smallGeometry twoInodes) ⟨smallDisk, fun _ => .start⟩ crossed =
          some s ∧
        (∀ t, s.pc t = .returned true) ∧ ¬ Stored smallGeometry s.disk (twoInodes 0) := by
  refine ⟨tablesOk_small, jobsOk_twoInodes, _, rfl, ?_, ?_⟩
  · intro t
    fin_cases t <;> rfl
  · intro h
    exact absurd (h 0 (by decide)) (by decide)

end Makaos.Ext2
