import Mathlib.Tactic

/-!
What the receive functions do with the buffer of a frame: `eth_recv`, `arp_recv`, `ipv4_recv`,
`icmp_recv`, `udp_recv` and `tcp_recv` (net/).

* `Event`, `ethRecv`: the accesses to the buffer, the trims and the releases, in order.
* `Tidy`, `ethRecv_tidy`: **every access is inside the buffer, and the last thing done with it is its
  only release.**
-/

namespace Makaos.Recv

/-- Something done with the buffer of a frame. -/
inductive Event where
  /-- `len` bytes are read or written as packet data. -/
  | touch (start len : ℕ)
  /-- `skb_pull`, or a shorter `skb->len`: `len` bytes are left. -/
  | trim (data len : ℕ)
  /-- `skb_free`. -/
  | free
  /-- The buffer goes onto the receive queue of the socket of a port. -/
  | queue (port : ℕ)
  deriving DecidableEq

/-- What `tcp_recv` looks at in a connection before it reads the data of a segment. -/
structure Pcb where
  /-- In `TCP_ESTABLISHED`, `TCP_FIN_WAIT_1`, `TCP_FIN_WAIT_2` or `TCP_CLOSE_WAIT`. -/
  receives : Bool
  rcvNxt : ℕ
  /-- `TCP_RXBUF_SIZE - rxbuf_used`. -/
  space : ℕ

/-- What the frame alone does not decide. -/
structure Env where
  /-- The Internet checksums are right, and the packet is for this host and no fragment. -/
  ipOk : Bool
  /-- The checksum of the message, segment or datagram is right. -/
  sumOk : Bool
  /-- There is memory for an echo reply. -/
  memory : Bool
  /-- The port has a socket with room in its queue. -/
  socket : ℕ → Bool
  /-- The connection of the segment. -/
  pcb : Option Pcb

/-- A byte of the frame. -/
def byte (f : List UInt8) (i : ℕ) : ℕ := (f.getD i 0).toNat

/-- A 16-bit field in network byte order. -/
def be16 (f : List UInt8) (i : ℕ) : ℕ := byte f i * 256 + byte f (i + 1)

/-- A 32-bit field in network byte order. -/
def be32 (f : List UInt8) (i : ℕ) : ℕ := be16 f i * 2 ^ 16 + be16 f (i + 2)

section

variable (env : Env) (f : List UInt8) (data len : ℕ)

/-- `arp_recv`. -/
def arpRecv : List Event :=
  if len < 28 then [.free]
  else if be16 f data ≠ 1 ∨ be16 f (data + 2) ≠ 0x0800 ∨ byte f (data + 4) ≠ 6 ∨
      byte f (data + 5) ≠ 4 then [.touch data 6, .free]
  else [.touch data 6, .touch (data + 6) 22, .free]

/-- `icmp_recv`; an echo request is copied into the reply. -/
def icmpRecv : List Event :=
  if len < 8 then [.free]
  else if env.sumOk = false then [.touch (data + 2) 2, .touch data len, .free]
  else if byte f data = 8 ∧ env.memory = true then
    [.touch (data + 2) 2, .touch data len, .touch data 1, .touch data len, .free]
  else [.touch (data + 2) 2, .touch data len, .touch data 1, .free]

/-- `socket_deliver_udp`. -/
def socketDeliverUdp (port : ℕ) : Event := if env.socket port then .queue port else .free

/-- `udp_recv`; a checksum of zero is not verified. -/
def udpRecv : List Event :=
  let udplen := be16 f (data + 4)
  if len < 8 then [.free]
  else if udplen < 8 ∨ len < udplen then [.touch data 8, .free]
  else if be16 f (data + 6) ≠ 0 ∧ env.sumOk = false then
    [.touch data 8, .touch data udplen, .free]
  else
    [.touch data 8, .touch data (if be16 f (data + 6) = 0 then 0 else udplen),
      .trim (data + 8) (udplen - 8), socketDeliverUdp env (be16 f (data + 2))]

/-- `tcp_recv` behind the checksum. Each state that does not read the data frees the buffer at the
common end; the replies are segments of their own. -/
def tcpSegment (hlen : ℕ) : List Event :=
  let dlen := (len - hlen) % 2 ^ 16
  match env.pcb with
  -- answered by a RST unless the segment is one
  | none => [.free]
  | some pcb =>
    if byte f (data + 13) / 4 % 2 = 1 then [.free]
    else if pcb.receives ∧ 0 < dlen ∧ be32 f (data + 4) = pcb.rcvNxt then
      [.touch (data + hlen) (min dlen pcb.space), .free]
    else [.free]

/-- `tcp_recv`, with its lengths in 16 bits. -/
def tcpRecv : List Event :=
  let hlen := byte f (data + 12) / 16 * 4
  if len < 20 then [.free]
  else if hlen < 20 ∨ len < hlen then [.touch data 20, .free]
  else if env.sumOk = false then [.touch data 20, .touch data (len % 2 ^ 16), .free]
  else [.touch data 20, .touch data (len % 2 ^ 16), .touch data 20] ++ tcpSegment env f data len hlen

/-- `ipv4_recv`. -/
def ipv4Recv : List Event :=
  let ihl := byte f data % 16 * 4
  let totLen := be16 f (data + 2)
  if len < 20 then [.free]
  else if byte f data / 16 ≠ 4 ∨ ihl < 20 ∨ totLen < ihl ∨ len < totLen then
    [.touch data 20, .free]
  else if env.ipOk = false then [.touch data 20, .touch data ihl, .free]
  else
    [.touch data 20, .touch data ihl, .trim data totLen, .trim (data + ihl) (totLen - ihl),
      .touch (data + 9) 1] ++
    if byte f (data + 9) = 1 then icmpRecv env f (data + ihl) (totLen - ihl)
    else if byte f (data + 9) = 6 then tcpRecv env f (data + ihl) (totLen - ihl)
    else if byte f (data + 9) = 17 then udpRecv env f (data + ihl) (totLen - ihl)
    else [.free]

/-- `eth_recv`. -/
def ethRecv : List Event :=
  if f.length < 14 then [.free]
  else
    [.touch 0 14, .trim 14 (f.length - 14)] ++
    if be16 f 12 = 0x0806 then arpRecv f 14 (f.length - 14)
    else if be16 f 12 = 0x0800 then ipv4Recv env f 14 (f.length - 14)
    else [.free]

end

/-- Every access and every part that is left lies in a buffer of `size` bytes; it is released or
handed over once, and not used afterwards. -/
def Tidy (size : ℕ) : List Event → Prop
  | [] => False
  | .touch start len :: l | .trim start len :: l => start + len ≤ size ∧ Tidy size l
  | .free :: l | .queue _ :: l => l = []

variable {env : Env} {f : List UInt8} {data len size : ℕ}

section

-- what is left of the packet is inside the buffer
variable (h : data + len ≤ size)
include h

lemma arpRecv_tidy : Tidy size (arpRecv f data len) := by
  rw [arpRecv]
  split_ifs
  · rfl
  · exact ⟨by omega, rfl⟩
  · exact ⟨by omega, by omega, rfl⟩

lemma icmpRecv_tidy : Tidy size (icmpRecv env f data len) := by
  rw [icmpRecv]
  split_ifs
  · rfl
  · exact ⟨by omega, h, rfl⟩
  · exact ⟨by omega, h, by omega, h, rfl⟩
  · exact ⟨by omega, h, by omega, rfl⟩

lemma udpRecv_tidy : Tidy size (udpRecv env f data len) := by
  have hdeliver (port : ℕ) : Tidy size [socketDeliverUdp env port] := by
    rw [socketDeliverUdp]
    split_ifs <;> rfl
  rw [udpRecv]
  split_ifs
  · rfl
  · exact ⟨by omega, rfl⟩
  · exact ⟨by omega, by omega, rfl⟩
  · exact ⟨by omega, by omega, by omega, hdeliver _⟩
  · exact ⟨by omega, by omega, by omega, hdeliver _⟩

lemma tcpSegment_tidy {hlen : ℕ} (hle : hlen ≤ len) :
    Tidy size (tcpSegment env f data len hlen) := by
  rw [tcpSegment]
  cases env.pcb with
  | none => rfl
  | some pcb =>
    have hdata := (Nat.min_le_left _ pcb.space).trans (Nat.mod_le (len - hlen) (2 ^ 16))
    dsimp only
    split_ifs
    · rfl
    · exact ⟨by omega, rfl⟩
    · rfl

lemma tcpRecv_tidy : Tidy size (tcpRecv env f data len) := by
  have hlen := Nat.mod_le len (2 ^ 16)
  rw [tcpRecv]
  split_ifs
  · rfl
  · exact ⟨by omega, rfl⟩
  · exact ⟨by omega, by omega, rfl⟩
  · exact ⟨by omega, by omega, by omega, tcpSegment_tidy h (by omega)⟩

lemma ipv4Recv_tidy : Tidy size (ipv4Recv env f data len) := by
  rw [ipv4Recv]
  split_ifs with hlen hhdr
  · rfl
  · exact ⟨by omega, rfl⟩
  · exact ⟨by omega, by omega, rfl⟩
  all_goals
    refine ⟨by omega, by omega, by omega, by omega, by omega, ?_⟩
  · exact icmpRecv_tidy (by omega)
  · exact tcpRecv_tidy (by omega)
  · exact udpRecv_tidy (by omega)
  · rfl

end

/-- **Every frame** is parsed inside its buffer, which is released or handed over once. -/
theorem ethRecv_tidy (env : Env) (f : List UInt8) : Tidy f.length (ethRecv env f) := by
  rw [ethRecv]
  split_ifs
  · rfl
  all_goals
    refine ⟨by omega, by omega, ?_⟩
  · exact arpRecv_tidy (by omega)
  · exact ipv4Recv_tidy (by omega)
  · rfl

end Makaos.Recv
