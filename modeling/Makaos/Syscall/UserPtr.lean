import Makaos.Proc.Signal
import Makaos.Security.Rights

/-!
The user buffers that system calls access: `sys_read`, `sys_write`, `sys_pipe` and `sys_unveil`
through the pointer as it comes, others through `copy_from_user` and `copy_to_user`.

* `Call.buffer`: the buffer a call accesses, or the error it fails with before.
* `Confined`: **every byte of the buffer lies in the user half**, also when its end wraps around.
* `confined_iff`: for which arguments it does.
* `read_reaches_kernel`: `sys_read` writes to kernel memory.
-/

namespace Makaos.UserPtr

open Signal (hhdmOffset userAddrCeil accessOk einval efault)
open Rights (rightRead rightWrite rightsCheck)

/-! ### The calls -/

/-- What the calls look at in an open file. -/
structure File where
  rights : BitVec 32
  canRead : Bool
  canWrite : Bool
  deriving DecidableEq

/-- `f->rights != 0 && !rights_check(f->rights, need)`. -/
def File.denies (f : File) (need : BitVec 32) : Bool :=
  f.rights ≠ 0 && !rightsCheck f.rights need

/-- A call with its arguments, and what it finds on its way: the file, if the descriptor is open, and
for `sys_pipe` the error of `pipe_create` and whether there is room for two descriptors. -/
inductive Call where
  | read (f : Option File) (buf len : BitVec 64)
  | write (f : Option File) (buf len : BitVec 64)
  | pipe (fds : BitVec 64) (err : Option (BitVec 64)) (room : Bool)
  | unveil (path pathlen : BitVec 64)
  | copyFromUser (src len : BitVec 64)
  | copyToUser (dst len : BitVec 64)
  deriving DecidableEq

def eperm : BitVec 64 := -1
def ebadf : BitVec 64 := -9
def eacces : BitVec 64 := -13
def enfile : BitVec 64 := -23

/-- `UNVEIL_PATH_MAX`. -/
def unveilPathMax : BitVec 64 := 256

/-- **The buffer that the call accesses**, address and length, or its error. A file is handed the
buffer with the whole length. -/
def Call.buffer : Call → Except (BitVec 64) (BitVec 64 × BitVec 64)
  | .read none _ _ => .error ebadf
  | .read (some f) buf len =>
    if f.denies rightRead then .error eacces
    else if !f.canRead then .error eperm
    else .ok (buf, len)
  | .write none _ _ => .error ebadf
  | .write (some f) buf len =>
    if !f.canWrite then .error ebadf
    else if f.denies rightWrite then .error eacces
    else .ok (buf, len)
  | .pipe fds err room =>
    if fds = 0 then .error einval
    else
      match err with
      | some e => .error e
      | none => if !room then .error enfile else .ok (fds, 8)
  | .unveil path pathlen =>
    if pathlen = 0 ∨ unveilPathMax ≤ pathlen then .error einval else .ok (path, pathlen)
  | .copyFromUser src len => if !accessOk src len then .error efault else .ok (src, len)
  | .copyToUser dst len => if !accessOk dst len then .error efault else .ok (dst, len)

/-! ### What is asked for -/

/-- The bytes of a buffer, modulo `2 ^ 64`, are below `ceil`. -/
def Below (ceil : BitVec 64) (b : BitVec 64 × BitVec 64) : Prop :=
  ∀ i < b.2.toNat, b.1 + BitVec.ofNat 64 i < ceil

/-- **The call fails before it accesses a byte, or its buffer lies in the user half.** -/
def Confined (c : Call) : Prop := ∀ b, c.buffer = .ok b → Below userAddrCeil b

/-- The call is refused for other reasons than its buffer. -/
def Call.refused : Call → Bool
  | .read f _ _ => f.all fun f => f.denies rightRead || !f.canRead
  | .write f _ _ => f.all fun f => f.denies rightWrite || !f.canWrite
  | .pipe fds err room => fds = 0 ∨ err.isSome ∨ !room
  | .unveil _ pathlen => pathlen = 0 ∨ unveilPathMax ≤ pathlen
  | .copyFromUser src _ => src = 0
  | .copyToUser dst _ => dst = 0

/-- The address and the length that the caller gives. -/
def Call.args : Call → BitVec 64 × BitVec 64
  | .read _ buf len | .write _ buf len | .unveil buf len | .copyFromUser buf len
  | .copyToUser buf len => (buf, len)
  | .pipe fds _ _ => (fds, 8)

/-- The buffer reaches into the kernel half, and the call goes through one of the copy functions. -/
def Call.caught : Call → Bool
  | .copyFromUser a len | .copyToUser a len =>
    hhdmOffset ≤ a ∨ len ≠ 0 ∧ hhdmOffset.toNat < a.toNat + len.toNat
  | _ => false

/-! ### Buffers as intervals -/

variable {ceil addr len : BitVec 64}

/-- **A buffer lies below a bound byte by byte iff it is empty or its end, computed without wrapping
around, is not above it.** -/
lemma below_iff : Below ceil (addr, len) ↔ len = 0 ∨ addr.toNat + len.toNat ≤ ceil.toNat := by
  have hbyte : ∀ i, i < 2 ^ 64 → (addr + BitVec.ofNat 64 i).toNat = (addr.toNat + i) % 2 ^ 64 := by
    intro i hi
    rw [BitVec.toNat_add, BitVec.toNat_ofNat, Nat.mod_eq_of_lt hi]
  have hlen := len.isLt
  have hceil := ceil.isLt
  constructor
  · intro h
    by_contra hnot
    obtain ⟨hne, hgt⟩ := not_or.mp hnot
    have hpos : len.toNat ≠ 0 := fun h0 => hne (BitVec.eq_of_toNat_eq (by simpa using h0))
    -- the byte at the bound, or the first one if that is above it already
    have hfirst := h 0 (Nat.pos_of_ne_zero hpos)
    rw [BitVec.lt_def, hbyte 0 (by omega)] at hfirst
    have haddr := addr.isLt
    have hbound := h (ceil.toNat - addr.toNat) (by show _ < len.toNat; omega)
    rw [BitVec.lt_def, hbyte _ (by omega)] at hbound
    omega
  · rintro (rfl | hle) i hi
    · exact absurd hi (Nat.not_lt_zero i)
    · have hi : i < len.toNat := hi
      rw [BitVec.lt_def, hbyte i (by omega)]
      omega

/-- `_access_ok` computes the end without wrapping around. -/
lemma accessOk_iff : accessOk addr len = true ↔
    addr ≠ 0 ∧ addr < hhdmOffset ∧ (len = 0 ∨ addr.toNat + len.toNat ≤ hhdmOffset.toNat) := by
  have haddr := addr.isLt
  have hlen := len.isLt
  have hzero : len = 0 ↔ len.toNat = 0 := ⟨fun h => by simp [h], fun h => BitVec.eq_of_toNat_eq h⟩
  have hsum : (addr + len).toNat = (addr.toNat + len.toNat) % 2 ^ 64 := BitVec.toNat_add ..
  have hh : hhdmOffset.toNat = 0xFFFF800000000000 := rfl
  by_cases h0 : addr = 0
  · simp [accessOk, h0]
  · simp only [accessOk, h0, ite_false, BitVec.le_def, BitVec.lt_def, ne_eq, hzero, hsum, hh,
      not_false_eq_true, true_and]
    split_ifs <;> simp <;> omega

/-! ### The calls -/

/-- A call accesses the buffer of its arguments, unless it is refused or caught. -/
lemma Call.buffer_eq (c : Call) : c.buffer = .ok c.args ∧ ¬ (c.refused ∨ c.caught) ∨
      (∃ e, c.buffer = .error e) ∧ (c.refused ∨ c.caught) := by
  have hcopy : ∀ a len, accessOk a len = true ↔
      ¬ (decide (a = 0) = true ∨ decide (hhdmOffset ≤ a ∨ len ≠ 0 ∧
        hhdmOffset.toNat < a.toNat + len.toNat) = true) := by
    intro a len
    rw [accessOk_iff]
    simp only [decide_eq_true_eq, not_or, not_and, BitVec.not_le, Nat.not_lt, ne_eq]
    tauto
  cases c with
  | read f buf len =>
    cases f with
    | none => exact .inr ⟨⟨_, rfl⟩, .inl rfl⟩
    | some f =>
      cases hd : f.denies rightRead <;> cases hr : f.canRead <;>
        simp [buffer, refused, caught, args, hd, hr]
  | write f buf len =>
    cases f with
    | none => exact .inr ⟨⟨_, rfl⟩, .inl rfl⟩
    | some f =>
      cases hd : f.denies rightWrite <;> cases hr : f.canWrite <;>
        simp [buffer, refused, caught, args, hd, hr]
  | pipe fds err room =>
    by_cases h0 : fds = 0#64
    · simp [buffer, refused, h0]
    · cases err <;> cases room <;> simp [buffer, refused, caught, args, h0]
  | unveil path pathlen =>
    by_cases h : pathlen = 0 ∨ unveilPathMax ≤ pathlen
    · exact .inr ⟨⟨einval, if_pos h⟩, .inl (decide_eq_true h)⟩
    · exact .inl ⟨if_neg h, not_or.mpr ⟨fun hr => h (of_decide_eq_true hr), nofun⟩⟩
  | copyFromUser a len | copyToUser a len =>
    cases hok : accessOk a len with
    | true => exact .inl ⟨by simp [buffer, args, hok], (hcopy a len).mp hok⟩
    | false =>
      refine .inr ⟨⟨efault, by simp [buffer, hok]⟩, ?_⟩
      by_contra hnot
      exact absurd ((hcopy a len).mpr hnot) (by simp [hok])

/-- **A call is confined iff it is refused, or it checks its buffer and finds it in the kernel half, or
the buffer is empty or ends in the user half.** -/
theorem confined_iff (c : Call) : Confined c ↔ c.refused ∨ c.caught ∨ c.args.2 = 0 ∨
      c.args.1.toNat + c.args.2.toNat ≤ userAddrCeil.toNat := by
  have hbelow : Below userAddrCeil c.args ↔ c.args.2 = 0 ∨
      c.args.1.toNat + c.args.2.toNat ≤ userAddrCeil.toNat := below_iff
  rcases c.buffer_eq with ⟨hok, hno⟩ | ⟨⟨e, he⟩, hyes⟩
  · rw [← or_assoc, or_iff_right hno, ← hbelow, Confined, hok]
    exact ⟨fun h => h _ rfl, fun h b hb => Except.ok.inj hb ▸ h⟩
  · refine iff_of_true (fun b hb => ?_) (or_assoc.mp (.inl hyes))
    rw [he] at hb
    nomatch hb

/-- One byte outside is enough. -/
lemma not_confined {c : Call} {b : BitVec 64 × BitVec 64} (hb : c.buffer = .ok b) (i : ℕ)
    (h : i < b.2.toNat ∧ ¬ b.1 + BitVec.ofNat 64 i < userAddrCeil) : ¬ Confined c :=
  fun hc => h.2 (hc b hb i h.1)

/-- **`sys_read` hands a kernel address to the file, and so do `sys_write`, `sys_pipe` and
`sys_unveil`**; `copy_to_user` lets an address between the halves through. -/
theorem read_reaches_kernel : ¬ Confined (.read (some ⟨0x3FF, true, true⟩) hhdmOffset 4096) ∧
    ¬ Confined (.write (some ⟨0x3FF, true, true⟩) hhdmOffset 4096) ∧
    ¬ Confined (.pipe hhdmOffset none true) ∧ ¬ Confined (.unveil hhdmOffset 16) ∧
    ¬ Confined (.read (some ⟨0x3FF, true, true⟩) 4096 (-1)) ∧
    ¬ Confined (.copyToUser userAddrCeil 8) := by
  refine ⟨not_confined rfl 0 ?_, not_confined rfl 0 ?_, not_confined rfl 0 ?_, not_confined rfl 0 ?_,
    not_confined rfl (2 ^ 63) ?_, not_confined rfl 0 ?_⟩
  all_goals decide

end Makaos.UserPtr
