import Mathlib.Tactic

/-!
Where `ext2.c` finds its records: blocks of bytes, the group descriptor table and the inode tables.

* `patch`: the `memcpy` into a block that every read-modify-write of a record makes.
* `bgdPlace`, `inodePlace`: the block and the offset `write_bgd` and `inode_disk_write` compute.
* `Place.Apart`: two records share no byte.
-/

namespace Makaos.Ext2

open Function Nat
variable {i off size : ℕ} {data : ℕ → UInt8}

/-- The bytes of a disk block, by offset. -/
abbrev Block := ℕ → UInt8

/-- The blocks of the volume. -/
abbrev Disk := ℕ → Block

/-- `memcpy(b + off, data, size)`. -/
def patch (b : Block) (off size : ℕ) (data : ℕ → UInt8) : Block := fun i =>
  if off ≤ i ∧ i < off + size then data (i - off) else b i

/-- A little-endian `uint32_t` at an offset of a block. -/
def le32 (b : Block) (off : ℕ) : ℕ :=
  (b off).toNat + 2 ^ 8 * (b (off + 1)).toNat + 2 ^ 16 * (b (off + 2)).toNat +
    2 ^ 24 * (b (off + 3)).toNat

lemma patch_in {b : Block} (hi : i < size) : patch b off size data (off + i) = data i := by
  rw [patch, if_pos ⟨Nat.le_add_right _ _, Nat.add_lt_add_left hi off⟩, Nat.add_sub_cancel_left]

lemma patch_out {b : Block} (hi : i < off ∨ off + size ≤ i) : patch b off size data i = b i := by
  rw [patch, if_neg]
  omega

lemma le32_congr {b b' : Block} (h : ∀ i < 4, b (off + i) = b' (off + i)) :
    le32 b off = le32 b' off := by
  have h0 := h 0 (by norm_num)
  rw [add_zero] at h0
  simp only [le32, h0, h 1 (by norm_num), h 2 (by norm_num), h 3 (by norm_num)]

/-! ### Geometry -/

/-- What `ext2_init` takes from the superblock. -/
structure Geometry where
  blockSize : ℕ
  inodesPerGrp : ℕ
  inodeSize : ℕ
  numGroups : ℕ
  firstDataBlk : ℕ

/-- `sizeof(ext2_bgd_t)`. -/
def bgdBytes : ℕ := 32

/-- `sizeof(ext2_inode_t)`. -/
def inodeBytes : ℕ := 128

/-- A block and an offset in it. -/
structure Place where
  blk : ℕ
  off : ℕ
  deriving DecidableEq, Repr

/-- The place of entry `idx` of a table of records of `size` bytes. -/
def recordPlace (g : Geometry) (table size idx : ℕ) : Place where
  blk := table + idx * size / g.blockSize
  off := idx * size % g.blockSize

/-- `bgd_table_block`. -/
def bgdTableBlock (g : Geometry) : ℕ := g.firstDataBlk + 1

/-- The place of a group's descriptor. -/
def bgdPlace (g : Geometry) (grp : ℕ) : Place := recordPlace g (bgdTableBlock g) bgdBytes grp

/-- The `bg_inode_table` field of a group's descriptor. -/
def bgInodeTable (g : Geometry) (disk : Disk) (grp : ℕ) : ℕ :=
  le32 (disk (bgdPlace g grp).blk) ((bgdPlace g grp).off + 8)

/-- The group of an inode. -/
def inodeGroup (g : Geometry) (ino : ℕ) : ℕ := (ino - 1) / g.inodesPerGrp

/-- The place of an inode, by the descriptor of its group. -/
def inodePlace (g : Geometry) (disk : Disk) (ino : ℕ) : Place :=
  recordPlace g (bgInodeTable g disk (inodeGroup g ino)) g.inodeSize ((ino - 1) % g.inodesPerGrp)

/-! ### Records apart -/

/-- Records of `m` and `n` bytes at two places share no byte. -/
def Place.Apart (p : Place) (m : ℕ) (q : Place) (n : ℕ) : Prop :=
  p.blk = q.blk → p.off + m ≤ q.off ∨ q.off + n ≤ p.off

/-- Entries that fit into their slots keep apart in a table whose slots fill its blocks. -/
lemma recordPlace_apart {g : Geometry} {table j n : ℕ} (hpos : 0 < size) (hdvd : size ∣ g.blockSize)
    (hn : n ≤ size) (hij : i ≠ j) :
    (recordPlace g table size i).Apart n (recordPlace g table size j) n := by
  intro hblk
  obtain ⟨k, hk⟩ := hdvd
  simp only [recordPlace, hk, Nat.add_left_cancel_iff, Nat.mul_comm _ size,
    Nat.mul_div_mul_left _ _ hpos, Nat.mul_mod_mul_left] at hblk ⊢
  -- with the block the same the two slots of it differ
  have hslot : i % k ≠ j % k := fun h => hij (by rw [← Nat.div_add_mod i k, hblk, h, Nat.div_add_mod])
  have key : ∀ a b, a < b → size * a + n ≤ size * b := fun a b hab =>
    calc size * a + n ≤ size * a + size := Nat.add_le_add_left hn _
      _ = size * (a + 1) := (Nat.mul_succ size a).symm
      _ ≤ size * b := Nat.mul_le_mul_left size hab
  exact (lt_or_gt_of_ne hslot).imp (key _ _) (key _ _)

lemma patch_apart {disk : Disk} {p q : Place} {m n : ℕ} (hap : p.Apart m q n) (hi : i < n) :
    update disk p.blk (patch (disk p.blk) p.off m data) q.blk (q.off + i) =
      disk q.blk (q.off + i) := by
  by_cases hblk : q.blk = p.blk
  · rw [hblk, update_self, patch_out]
    rcases hap hblk.symm with h | h <;> omega
  · rw [update_of_ne hblk]

end Makaos.Ext2
