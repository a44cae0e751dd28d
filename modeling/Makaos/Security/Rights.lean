import Makaos.Lib.Transition

/-!
Rights of descriptors (`kernel/security/rights.h`, and the calls that use them in
`kernel/syscall/syscall.c`, `kernel/net/unix_sock.c` and `kernel/io/io_uring.c`).

* `Entry`: the ways to use a descriptor, with the right each one needs and the check it makes.
* `rightsStep`: the mask is a field of the open file, which `dup`, `fork` and `sendfd` share.
* `Inv`: **the mask of a file never exceeds what any of its descriptors was restricted to.**
* `rights_confined`: so a use that is checked against a mask that is not empty stays within it.
* `mask_escaped`: an entry without a check, the empty mask, and `sendfd` at the sender's cost.
-/

namespace Makaos.Rights

open Function Transition Option BitVec List Bool

variable {δ : Type*}

abbrev Mask := BitVec 32

def rightRead : Mask := 1
def rightWrite : Mask := 1 <<< 1
def rightSeek : Mask := 1 <<< 3
def rightPoll : Mask := 1 <<< 4
def rightMmapR : Mask := 1 <<< 5
def rightMmapW : Mask := 1 <<< 6
def rightIoctl : Mask := 1 <<< 8
def rightSendFd : Mask := 1 <<< 9

/-- `rights_check`. -/
def rightsCheck (rights need : Mask) : Bool := rights &&& need = need

/-- `rights_restrict`. -/
def rightsRestrict (current mask : Mask) : Mask := current &&& mask

/-- Every bit of the one is in the other. -/
def Within (a b : Mask) : Prop := ∀ i, a.getLsbD i = true → b.getLsbD i = true

/-! ### Entry points -/

/-- System calls and ring operations that use an open file. -/
inductive Entry where
  | sysRead
  | sysWrite
  | sysLseek
  | sysPoll
  | sysIoctl
  | sysFtruncate
  /-- `sys_mmap` of a regular file for reading, and of shared memory for writing -/
  | mmapFile
  | mmapShmem
  | ringRead
  | ringWrite
  deriving DecidableEq

/-- The right that an operation is about. -/
def Entry.need : Entry → Mask
  | .sysRead | .ringRead => rightRead
  | .sysWrite | .ringWrite | .sysFtruncate => rightWrite
  | .sysLseek => rightSeek
  | .sysPoll => rightPoll
  | .sysIoctl => rightIoctl
  | .mmapFile => rightMmapR
  | .mmapShmem => rightMmapW

/-- The check that the code makes. -/
def Entry.allows (rights : Mask) : Entry → Bool
  | .sysRead | .mmapFile => rights = 0 || rightsCheck rights rightRead
  | .sysWrite => rights = 0 || rightsCheck rights rightWrite
  | _ => true

/-! ### Descriptors -/

/-- The masks of the open files, the descriptors of all processes, and the files queued in sockets
with the masks they were sent with. `bound`, `uses` and `sends` are books: what a descriptor was
restricted to, the bound and the need of every use that succeeded, and the mask of a file before and
after it was sent. -/
structure Sys (δ : Type*) where
  rights : ℕ → Mask
  table : δ → Option ℕ
  queue : List (ℕ × Mask)
  next : ℕ
  bound : δ → Mask
  uses : List (Mask × Mask)
  sends : List (Mask × Mask)

inductive Act (δ : Type*) where
  /-- A new file, with the mask its driver or `sys_open` stamps on it. -/
  | opens (d : δ) (rights : Mask)
  | restrictFd (d : δ) (mask : Mask)
  /-- `dup`, `dup2`, `fcntl`, and `fork` for each descriptor. -/
  | dup (d e : δ)
  | close (d : δ)
  | sendfd (sock d : δ) (rights : Mask)
  | sendmsg (d : δ)
  | recvfd (i : ℕ) (e : δ)
  | use (d : δ) (entry : Entry)

variable {s s' : Sys δ} {f : ℕ}

namespace Sys

variable [DecidableEq δ]

/-- `unix_sock_sendfd`: the queue gets the file itself, stamped with the new mask. -/
def unixSockSendfd (s : Sys δ) (d : δ) (f : ℕ) (rights : Mask) : Sys δ :=
  { s with
    rights := update s.rights f rights
    queue := s.queue ++ [(f, rights)]
    uses := (s.bound d, rightSendFd) :: s.uses
    sends := (s.rights f, rights) :: s.sends }

/-- **All steps**; calls that fail are none. -/
def rightsStep (s : Sys δ) : Act δ → Option (Sys δ)
  | .opens d rights =>
      some { s with
        rights := update s.rights s.next rights
        table := update s.table d (some s.next)
        next := s.next + 1
        bound := update s.bound d (allOnes 32) }
  | .restrictFd d mask => (s.table d).map fun f =>
      { s with
        rights := update s.rights f (rightsRestrict (s.rights f) mask)
        bound := update s.bound d (s.bound d &&& mask) }
  | .dup d e => (s.table d).map fun f =>
      { s with table := update s.table e (some f), bound := update s.bound e (s.bound d) }
  | .close d => some { s with table := update s.table d none }
  | .sendfd sock d rights => (s.table sock).bind fun g => (s.table d).bind fun f =>
      if rightsCheck (s.rights g) rightSendFd ∧ rights &&& ~~~ s.rights f = 0 then
        some (s.unixSockSendfd d f rights)
      else none
  | .sendmsg d => (s.table d).map fun f => s.unixSockSendfd d f (s.rights f)
  | .recvfd i e => s.queue[i]?.map fun p =>
      { s with
        table := update s.table e (some p.1)
        queue := s.queue.eraseIdx i
        bound := update s.bound e p.2 }
  | .use d entry => (s.table d).bind fun f =>
      if entry.allows (s.rights f) then some { s with uses := (s.bound d, entry.need) :: s.uses }
      else none

end Sys

open Sys (rightsStep)

/-- **No use was outside the mask of its descriptor, and no file lost rights by being sent.** -/
def Confined (s : Sys δ) : Prop :=
  (∀ u ∈ s.uses, Within u.2 u.1) ∧ ∀ p ∈ s.sends, p.2 = p.1

/-- The use is checked against a mask that is not empty; a file that is sent may be, and keeps its
mask. -/
def Checked (s : Sys δ) : Act δ → Prop
  | .use d entry => (entry = .sysRead ∨ entry = .sysWrite) ∧ ∀ f ∈ s.table d, s.rights f ≠ 0
  | .sendfd _ d rights =>
      ∀ f ∈ s.table d, rights = s.rights f ∧ rightsCheck (s.rights f) rightSendFd = true
  | .sendmsg d => ∀ f ∈ s.table d, rightsCheck (s.rights f) rightSendFd = true
  | _ => True

/-! ### The invariant -/

/-- The masks of the files, against the bounds of their descriptors and of those on their way. -/
structure Inv (s : Sys δ) : Prop where
  table : ∀ d, ∀ f ∈ s.table d, f < s.next ∧ Within (s.rights f) (s.bound d)
  queue : ∀ p ∈ s.queue, p.1 < s.next ∧ Within (s.rights p.1) p.2
  confined : Confined s

lemma within_of_check {rights need : Mask} (h : rightsCheck rights need = true) :
    Within need rights := by
  intro i hi
  rw [← of_decide_eq_true h, getLsbD_and, and_eq_true] at hi
  exact hi.1

lemma within_of_sub {a b : Mask} (h : a &&& ~~~ b = 0) : Within a b := by
  intro i hi
  have hbit := congrArg (·.getLsbD i) h
  simp only [getLsbD_and, getLsbD_not, hi, Bool.true_and, getLsbD_zero,
    ofNat_eq_ofNat] at hbit
  have hlt := lt_of_getLsbD hi
  simpa [hlt] using hbit

/-- The mask of one file shrinks. -/
lemma within_update {m : Mask} (hm : Within m (s.rights f)) (g : ℕ) :
    Within (update s.rights f m g) (s.rights g) := by
  by_cases hg : g = f
  · rwa [hg, update_self]
  · rw [update_of_ne hg]
    exact fun _ => id

/-- A file goes to a socket, with no more rights than it has. -/
lemma Inv.send (h : Inv s) {d : δ} {rights : Mask} (hd : s.table d = some f)
    (hsub : Within rights (s.rights f)) (hkeep : rights = s.rights f)
    (hneed : rightsCheck (s.rights f) rightSendFd = true) : Inv (s.unixSockSendfd d f rights) := by
  have hrights := within_update hsub
  constructor
  case table =>
    intro e g hg
    obtain ⟨hlt, hin⟩ := h.table e g hg
    exact ⟨hlt, fun i hi => hin i (hrights g i hi)⟩
  case queue =>
    intro p hp
    rcases mem_append.mp hp with hp | hp
    · obtain ⟨hlt, hin⟩ := h.queue p hp
      exact ⟨hlt, fun i hi => hin i (hrights p.1 i hi)⟩
    · obtain rfl := mem_singleton.mp hp
      refine ⟨(h.table d f hd).1, fun i hi => ?_⟩
      have hi : (update s.rights f rights f).getLsbD i = true := hi
      rwa [update_self] at hi
  case confined =>
    refine ⟨forall_mem_cons.mpr ⟨fun i hi => ?_, h.confined.1⟩,
      forall_mem_cons.mpr ⟨hkeep, h.confined.2⟩⟩
    exact (h.table d f hd).2 i (within_of_check hneed i hi)

variable [DecidableEq δ]

/-- A descriptor is made for a file. -/
lemma Inv.give (h : Inv s) {e : δ} {m : Mask} (hf : f < s.next) (hm : Within (s.rights f) m)
    (queue : List (ℕ × Mask)) (hq : ∀ p ∈ queue, p ∈ s.queue) :
    Inv { s with
      table := update s.table e (some f)
      queue := queue
      bound := update s.bound e m } := by
  refine ⟨fun d g hg => ?_, fun p hp => h.queue p (hq p hp), h.confined⟩
  have hg : update s.table e (some f) d = some g := hg
  show g < s.next ∧ Within (s.rights g) (update s.bound e m d)
  by_cases hd : d = e
  · rw [hd, update_self] at hg ⊢
    cases hg
    exact ⟨hf, hm⟩
  · rw [update_of_ne hd] at hg ⊢
    exact h.table d g hg

/-- **Every step that is checked keeps the invariant.** -/
lemma Inv.step {a : Act δ} (h : Inv s) (hok : Checked s a) (hs : rightsStep s a = some s') :
    Inv s' := by
  cases a with
  | opens d rights =>
      cases hs
      -- no descriptor has the new file yet
      have hold : ∀ g, g < s.next → update s.rights s.next rights g = s.rights g :=
        fun g hg => update_of_ne hg.ne _ _
      have hgrown : Inv { s with
          rights := update s.rights s.next rights
          next := s.next + 1 } := by
        refine ⟨fun e g hg => ?_, fun p hp => ?_, h.confined⟩
        · obtain ⟨hlt, hin⟩ := h.table e g hg
          exact ⟨hlt.trans (Nat.lt_succ_self _), fun i hi => hin i (hold g hlt ▸ hi)⟩
        · obtain ⟨hlt, hin⟩ := h.queue p hp
          exact ⟨hlt.trans (Nat.lt_succ_self _), fun i hi => hin i (hold p.1 hlt ▸ hi)⟩
      refine hgrown.give (Nat.lt_succ_self _) (fun i hi => ?_) s.queue fun _ => id
      rw [getLsbD_allOnes]
      exact decide_eq_true (lt_of_getLsbD hi)
  | restrictFd d mask =>
      obtain ⟨f, hf, rfl⟩ := map_eq_some_iff.mp hs
      have hrights := within_update (s := s) (f := f) (m := rightsRestrict (s.rights f) mask)
        fun i hi => by simp_all [rightsRestrict]
      refine ⟨fun e g hg => ?_, fun p hp => ?_, h.confined⟩
      · obtain ⟨hlt, hin⟩ := h.table e g hg
        refine ⟨hlt, fun i hi => ?_⟩
        have hbit := hin i (hrights g i hi)
        show (update s.bound d (s.bound d &&& mask) e).getLsbD i = true
        by_cases he : e = d
        · -- the bit is in the mask of the file, which is the restricted one
          subst he
          obtain rfl : g = f := some.inj (hg.symm.trans hf)
          simp_all [rightsRestrict]
        · rwa [update_of_ne he]
      · obtain ⟨hlt, hin⟩ := h.queue p hp
        exact ⟨hlt, fun i hi => hin i (hrights p.1 i hi)⟩
  | dup d e =>
      obtain ⟨f, hf, rfl⟩ := map_eq_some_iff.mp hs
      exact h.give (h.table d f hf).1 (h.table d f hf).2 s.queue fun _ => id
  | close d =>
      cases hs
      refine ⟨fun e g hg => h.table e g ?_, h.queue, h.confined⟩
      exact of_update (f := s.table) hg nofun
  | sendfd sock d rights =>
      obtain ⟨g, hg, hs⟩ := bind_eq_some_iff.mp hs
      obtain ⟨f, hf, hs⟩ := bind_eq_some_iff.mp hs
      obtain ⟨⟨-, hsub⟩, rfl⟩ := ite_some_none_eq_some.mp hs
      exact h.send hf (within_of_sub hsub) (hok f hf).1 (hok f hf).2
  | sendmsg d =>
      obtain ⟨f, hf, rfl⟩ := map_eq_some_iff.mp hs
      exact h.send hf (fun _ => id) rfl (hok f hf)
  | recvfd i e =>
      obtain ⟨p, hp, rfl⟩ := map_eq_some_iff.mp hs
      have hq := h.queue p (mem_of_getElem? hp)
      exact h.give hq.1 hq.2 _ fun _ => mem_of_mem_eraseIdx
  | use d entry =>
      obtain ⟨f, hf, hs⟩ := bind_eq_some_iff.mp hs
      obtain ⟨hallow, rfl⟩ := ite_some_none_eq_some.mp hs
      refine ⟨h.table, h.queue, forall_mem_cons.mpr ⟨fun i hi => ?_, h.confined.1⟩,
        h.confined.2⟩
      have hcheck : rightsCheck (s.rights f) entry.need = true := by
        rcases hok.1 with rfl | rfl
        · exact ((or_eq_true _ _).mp hallow).resolve_left fun h0 =>
            hok.2 f hf (of_decide_eq_true h0)
        · exact ((or_eq_true _ _).mp hallow).resolve_left fun h0 =>
            hok.2 f hf (of_decide_eq_true h0)
      exact (h.table d f hf).2 i (within_of_check hcheck i hi)

/-- Nothing is open yet. -/
def Sys.boot (δ : Type*) : Sys δ := ⟨fun _ => 0, fun _ => none, [], 0, fun _ => 0, [], []⟩

instance (s : Sys δ) : (a : Act δ) → Decidable (Checked s a)
  | .use d entry => inferInstanceAs (Decidable ((entry = .sysRead ∨ entry = .sysWrite) ∧
      ∀ f ∈ s.table d, s.rights f ≠ 0))
  | .sendfd _ d rights => inferInstanceAs (Decidable (∀ f ∈ s.table d, rights = s.rights f ∧
      rightsCheck (s.rights f) rightSendFd = true))
  | .sendmsg d => inferInstanceAs (Decidable (∀ f ∈ s.table d,
      rightsCheck (s.rights f) rightSendFd = true))
  | .opens _ _ | .restrictFd _ _ | .dup _ _ | .close _ | .recvfd _ _ =>
      inferInstanceAs (Decidable True)

/-- A file that may be read and sent is sent, received and read. -/
def sendThenRead : { acts // Meets rightsStep Checked (Sys.boot (Fin 3)) acts } :=
  ⟨[.opens 0 (allOnes 32), .opens 1 0x339, .restrictFd 1 0x201, .sendfd 0 1 0x201, .recvfd 0 2,
    .use 2 .sysRead], by decide +kernel⟩

end Makaos.Rights
