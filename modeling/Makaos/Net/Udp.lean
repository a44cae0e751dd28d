import Mathlib.Tactic

/-!
A datagram on its way from `socket_sendto` or `socket_send` (net/socket.c) through `udp_send_ex`
(net/udp.c), `ipv4_send_ex` (net/ipv4.c), `eth_send` and `virtio_net_tx` to the `udp_recv` of the
host it is for.

* `foldCarry_spec`: **the folded sum** is the sum modulo 65535, with 65535 for the zero of a sum
  that is not 0.
* `udpOut_keeps_iff`, `udp_round_trip_iff`: **which payloads make the trip.** A length is cut to 16
  bits on the way, and a checksum of 0 is replaced by the sender only.
-/

namespace Makaos.Udp

open List Nat

/-! ### The checksum -/

/-- `hton16`. -/
def hton16 (x : ℕ) : ℕ := x % 256 * 256 + x / 256 % 256

/-- The 16-bit words of some bytes, added; an odd last byte is a word of its own. -/
def wordSum : List (Fin 256) → ℕ
  | [] => 0
  | [b] => b
  | b :: c :: l => b + 256 * c + wordSum l

/-- `while (sum >> 16) sum = (sum & 0xFFFF) + (sum >> 16)`, for at most `fuel` rounds. -/
def foldCarry : ℕ → ℕ → ℕ
  | 0, sum => sum
  | fuel + 1, sum => if sum / 65536 = 0 then sum else foldCarry fuel (sum % 65536 + sum / 65536)

/-- The complement of a folded 32-bit sum. -/
def checksum (sum : ℕ) : ℕ := 65535 - foldCarry (sum % 2 ^ 32) (sum % 2 ^ 32)

/-- The two words of an address. -/
def ipWords (ip : ℕ) : ℕ := ip / 65536 % 65536 + ip % 65536

/-- `inet_pseudo_partial`. -/
def inetPseudoPartial (src dst proto len : ℕ) : ℕ :=
  ipWords src + ipWords dst + hton16 proto + hton16 len

/-- **The folded sum.** Every round keeps the sum modulo 65535 and does not reach 0. -/
lemma foldCarry_spec {fuel sum : ℕ} (h : sum ≤ fuel) :
    foldCarry fuel sum ≤ 65535 ∧ foldCarry fuel sum % 65535 = sum % 65535 ∧
      (foldCarry fuel sum = 0 ↔ sum = 0) := by
  induction fuel generalizing sum with
  | zero => exact ⟨by simp only [foldCarry]; omega, rfl, Iff.rfl⟩
  | succ fuel ih =>
    rw [foldCarry]
    split_ifs with hsum
    · exact ⟨by omega, rfl, Iff.rfl⟩
    · obtain ⟨hle, hmod, hzero⟩ :=
        ih (show sum % 65536 + sum / 65536 ≤ fuel by omega)
      exact ⟨hle, by omega, by omega⟩

lemma wordSum_le (l : List (Fin 256)) : wordSum l ≤ 65535 * l.length := by
  induction l using wordSum.induct with
  | case1 => exact zero_le _
  | case2 b => simp only [wordSum, length_singleton]; omega
  | case3 b c l ih => simp only [wordSum, length_cons]; omega

/-! ### The sender -/

/-- What a host knows of the net, and the number of its next packet. -/
structure Net where
  ourIp : ℕ
  broadcastIp : ℕ
  ipId : ℕ

/-- What may fail on the way out: memory for the packet, a route to the receiver (with its
hardware address), a free descriptor of the driver. -/
structure Faults where
  mem : Bool
  route : Bool
  driver : Bool

/-- A UDP socket: the port that `udp_auto_bind` finds for it, `SO_BROADCAST` and its peer. -/
structure Sock where
  port : Option ℕ
  broadcast : Bool
  peerIp : ℕ
  peerPort : ℕ

structure UdpHdr where
  srcPort : ℕ
  dstPort : ℕ
  length : ℕ
  checksum : ℕ

/-- The words of the header without its checksum. -/
def UdpHdr.words (h : UdpHdr) : ℕ := hton16 h.srcPort + hton16 h.dstPort + hton16 h.length

/-- A frame without its Ethernet header: the fields of the IP header, the datagram, and how many
bytes of them were sent. -/
structure Packet where
  totalLen : ℕ
  id : ℕ
  src : ℕ
  dst : ℕ
  ipChecksum : ℕ
  udp : UdpHdr
  payload : List (Fin 256)
  wire : ℕ

/-- `inet_checksum` of the IP header: version, no fragments, 64 hops and UDP are constants. -/
def Packet.inetChecksum (p : Packet) : ℕ :=
  checksum (69 + hton16 p.totalLen + hton16 p.id + 64 + (64 + 256 * 17) + ipWords p.src +
    ipWords p.dst)

/-- The sum that `udp_send_ex` and `udp_recv` take: pseudo header, header and payload. -/
def datagramSum (src dst : ℕ) (h : UdpHdr) (data : List (Fin 256)) : ℕ :=
  inetPseudoPartial src dst 17 h.length + h.words + wordSum data

/-- The packet that `ipv4_send_ex` makes of a datagram. -/
def ipv4Packet (n : Net) (src dst : ℕ) (h : UdpHdr) (data : List (Fin 256)) : Packet :=
  let p : Packet := ⟨(28 + data.length) % 65536, n.ipId % 65536, src, dst, 0, h, data,
    (42 + data.length) % 65536 - 14⟩
  { p with ipChecksum := p.inetChecksum }

/-- `ipv4_send_ex`, `eth_send` and `virtio_net_tx`: the return value and the frame on the wire. -/
def ipv4SendEx (n : Net) (f : Faults) (h : UdpHdr) (data : List (Fin 256)) (srcIp dst : ℕ) :
    ℤ × Option Packet :=
  let src := if srcIp = 0 ∧ n.ourIp ≠ 0 then n.ourIp else srcIp
  if !f.route then (-1, none)
  -- the length of the frame is cut to 16 bits before the driver compares it
  else if (42 + data.length) % 65536 > 1514 ∨ !f.driver then (-1, none)
  else (0, some (ipv4Packet n src dst h data))

/-- The header that `udp_send_ex` writes: a checksum of 0 is replaced. -/
def udpHdr (src dst srcPort dstPort udplen : ℕ) (data : List (Fin 256)) : UdpHdr :=
  let h : UdpHdr := ⟨srcPort, dstPort, udplen, 0⟩
  let c := checksum (datagramSum src dst h data)
  { h with checksum := if c = 0 then 65535 else c }

/-- `udp_send_ex`; `none` is a write through the null pointer. -/
def udpSendEx (n : Net) (f : Faults) (srcIp dst srcPort dstPort : ℕ) (data : List (Fin 256)) :
    Option (ℤ × Option Packet) :=
  let udplen := (8 + data.length) % 65536
  if !f.mem then some (-1, none)
  -- the buffer has `udplen` bytes: `skb_put` finds no room for the header
  else if udplen < 8 then none
  else
    let effSrc := if srcIp ≠ 0 then srcIp else n.ourIp
    some (ipv4SendEx n f (udpHdr effSrc dst srcPort dstPort udplen data) data srcIp dst)

/-- The bytes of a buffer whose length is a `uint32_t`. -/
structure Buf where
  bytes : List (Fin 256)
  len_lt : bytes.length < 2 ^ 32

/-- A `uint32_t` as an `int`. -/
def asInt (len : ℕ) : ℤ := if len < 2 ^ 31 then (len : ℤ) else (len : ℤ) - 2 ^ 32

/-- The last lines of both calls: bind, send with the length as a `uint16_t`, return it as an
`int`. -/
def udpOut (n : Net) (f : Faults) (s : Sock) (srcIp dst dstPort : ℕ) (b : Buf) :
    Option (ℤ × Option Packet) :=
  match s.port with
  | none => some (-98, none)
  | some port =>
    (udpSendEx n f srcIp dst port dstPort (b.bytes.take (b.bytes.length % 65536))).map fun r =>
      (if r.1 < 0 then -5 else asInt b.bytes.length, r.2)

/-- `is_broadcast_dst`. -/
def isBroadcastDst (n : Net) (dst : ℕ) : Bool :=
  dst = 0xFFFFFFFF ∨ n.broadcastIp ≠ 0 ∧ dst = n.broadcastIp

/-- `socket_sendto`. -/
def socketSendto (n : Net) (f : Faults) (s : Sock) (dst dstPort : ℕ) (b : Buf) :
    Option (ℤ × Option Packet) :=
  if b.bytes = [] then some (-22, none)
  else if isBroadcastDst n dst && !s.broadcast then some (-13, none)
  else udpOut n f s n.ourIp dst dstPort b

/-- `socket_send`. -/
def socketSend (n : Net) (f : Faults) (s : Sock) (b : Buf) : Option (ℤ × Option Packet) :=
  if b.bytes = [] then some (-22, none)
  else if s.peerIp = 0 ∨ s.peerPort = 0 then some (-89, none)
  else udpOut n f s 0 s.peerIp s.peerPort b

/-! ### The receiver -/

/-- The host takes packets for `dst`. -/
def Net.Takes (r : Net) (dst : ℕ) : Prop :=
  r.ourIp = 0 ∨ dst = r.ourIp ∨ dst = 0xFFFFFFFF ∨ dst = r.broadcastIp

instance (r : Net) (dst : ℕ) : Decidable (r.Takes dst) := inferInstanceAs (Decidable (_ ∨ _))

/-- `udp_recv`, for a packet of `len` bytes after the IP header: the source port and the payload
that go to the socket. -/
def udpRecv (p : Packet) (len : ℕ) : Option (ℕ × List (Fin 256)) :=
  if len < 8 then none
  else if p.udp.length < 8 ∨ p.udp.length > len then none
  else if p.udp.checksum ≠ 0 ∧
      checksum (datagramSum p.src p.dst p.udp p.payload) ≠ p.udp.checksum then none
  else some (p.udp.srcPort, p.payload.take (p.udp.length - 8))

/-- `ipv4_recv`. -/
def ipv4Recv (r : Net) (p : Packet) : Option (ℕ × List (Fin 256)) :=
  if p.wire < 20 then none
  else if p.totalLen < 20 ∨ p.wire < p.totalLen then none
  else if p.inetChecksum ≠ p.ipChecksum then none
  else if ¬ r.Takes p.dst then none
  else udpRecv p (p.totalLen - 20)

/-! ### The round trip -/

/-- A call that returns `n ≥ 0` has sent its `n` bytes in a datagram that every host it is for
delivers, with the sender's port; any other call returns an error and sends nothing. -/
def Keeps (s : Sock) (data : List (Fin 256)) : Option (ℤ × Option Packet) → Prop
  | none => False
  | some (n, out) =>
    if 0 ≤ n then
      n = data.length ∧ ∃ p, out = some p ∧
        ∀ r : Net, r.Takes p.dst → ∃ port, s.port = some port ∧ ipv4Recv r p = some (port, data)
    else out = none

/-- The payload of the packet has at most 1472 bytes and the sum of its words is no multiple of
65535, or what is left of its length in 16 bits is over 1472 and not so long that the length of
the frame wraps around. -/
def Fits (n : Net) (dst port dstPort : ℕ) (data : List (Fin 256)) : Prop :=
  data.length ≤ 1472 ∧
      ¬ 65535 ∣ datagramSum n.ourIp dst ⟨port, dstPort, 8 + data.length, 0⟩ data ∨
    1472 < data.length % 65536 ∧ data.length % 65536 ≤ 65493

section
variable {n : Net} {f : Faults} {s : Sock} {b : Buf} {srcIp dst dstPort port : ℕ}
  {data : List (Fin 256)}

lemma hton16_le (x : ℕ) : hton16 x ≤ 65535 := by
  unfold hton16
  omega

/-- The checksum of a datagram is 0 for the multiples of 65535: the protocol is in the sum, so
that it is not 0 itself. -/
lemma checksum_eq_zero_iff (src dst : ℕ) (h : UdpHdr) (hd : data.length ≤ 1472) :
    checksum (datagramSum src dst h data) = 0 ↔ 65535 ∣ datagramSum src dst h data := by
  have hw := wordSum_le data
  have h1 : hton16 17 = 4352 := by decide
  have h2 := hton16_le h.length
  have h3 := hton16_le h.srcPort
  have h4 := hton16_le h.dstPort
  have hpos : 0 < datagramSum src dst h data ∧ datagramSum src dst h data < 2 ^ 32 := by
    unfold datagramSum inetPseudoPartial UdpHdr.words ipWords
    omega
  rw [checksum, mod_eq_of_lt hpos.2]
  obtain ⟨hle, hmod, hzero⟩ := foldCarry_spec (le_refl (datagramSum src dst h data))
  omega

/-- The packet of a datagram that is sent. -/
def sentPacket (n : Net) (dst port dstPort : ℕ) (data : List (Fin 256)) : Packet :=
  ipv4Packet n n.ourIp dst (udpHdr n.ourIp dst port dstPort (8 + data.length) data) data

/-- **What `udp_send_ex` does** with a length that leaves room for the header in 16 bits. -/
lemma udpSendEx_eq (hsrc : srcIp = 0 ∨ srcIp = n.ourIp) (hd : data.length < 65528) :
    udpSendEx n f srcIp dst port dstPort data =
      some (if f.mem ∧ f.route ∧ f.driver ∧ (42 + data.length) % 65536 ≤ 1514 then
        (0, some (sentPacket n dst port dstPort data)) else (-1, none)) := by
  have heff : (if srcIp ≠ 0 then srcIp else n.ourIp) = n.ourIp := by grind
  have hwire : (if srcIp = 0 ∧ n.ourIp ≠ 0 then n.ourIp else srcIp) = n.ourIp := by grind
  have hlen : (8 + data.length) % 65536 = 8 + data.length := mod_eq_of_lt (by omega)
  obtain ⟨mem, route, driver⟩ := f
  simp only [udpSendEx, ipv4SendEx, heff, hwire, hlen]
  cases mem with
  | false => rfl
  | true =>
    rw [if_neg (by decide), if_neg (by omega)]
    cases route with
    | false => rfl
    | true =>
      cases driver with
      | false => simp
      | true => by_cases h : (42 + data.length) % 65536 ≤ 1514 <;> simp [h, sentPacket]

/-- **The receiver's test.** Its sum is the sender's, so it takes a datagram iff the sender did not
replace the checksum. -/
lemma ipv4Recv_iff {r : Net} (hr : r.Takes dst) (hd : data.length ≤ 1472) :
    ipv4Recv r (sentPacket n dst port dstPort data) = some (port, data) ↔
      ¬ 65535 ∣ datagramSum n.ourIp dst ⟨port, dstPort, 8 + data.length, 0⟩ data := by
  have hzero := checksum_eq_zero_iff n.ourIp dst ⟨port, dstPort, 8 + data.length, 0⟩ hd
  have hip : ipv4Recv r (sentPacket n dst port dstPort data) =
      udpRecv (sentPacket n dst port dstPort data) (8 + data.length) := by
    have hwire : (42 + data.length) % 65536 - 14 = 28 + data.length := by omega
    have htotal : (28 + data.length) % 65536 = 28 + data.length := mod_eq_of_lt (by omega)
    simp only [ipv4Recv, sentPacket, ipv4Packet, hwire, htotal]
    rw [if_neg (by omega), if_neg (by omega), if_neg (fun h => h rfl), if_neg (not_not.mpr hr),
      show 28 + data.length - 20 = 8 + data.length by omega]
  rw [hip, ← hzero, udpRecv, if_neg (by omega), if_neg (by simp [sentPacket, ipv4Packet, udpHdr])]
  generalize hc : checksum (datagramSum n.ourIp dst ⟨port, dstPort, 8 + data.length, 0⟩ data) = c
  have hsum : checksum (datagramSum n.ourIp dst (sentPacket n dst port dstPort data).udp
      data) = c := hc
  have hudp : (sentPacket n dst port dstPort data).udp.checksum = if c = 0 then 65535 else c := by
    rw [← hc]
    rfl
  simp only [show (sentPacket n dst port dstPort data).src = n.ourIp from rfl,
    show (sentPacket n dst port dstPort data).dst = dst from rfl,
    show (sentPacket n dst port dstPort data).payload = data from rfl, hsum, hudp]
  by_cases hz : c = 0
  · simp [hz]
  · simp [hz, sentPacket, ipv4Packet, udpHdr]

/-- What is delivered had an IP header and is part of what was sent. -/
lemma ipv4Recv_some {r : Net} {p : Packet} {x : ℕ × List (Fin 256)} (h : ipv4Recv r p = some x) :
    20 ≤ p.wire ∧ x.2.length ≤ p.payload.length := by
  unfold ipv4Recv udpRecv at h
  split_ifs at h with hwire
  cases h
  exact ⟨Nat.le_of_not_lt hwire, length_take_le' _ _⟩

/-! ### Which payloads make the trip -/

/-- **A datagram that was sent keeps the word of its call** iff it was all of the payload and its
checksum was not replaced. -/
lemma keeps_sent_iff (hport : s.port = some port) (hd : data.length = b.bytes.length % 65536)
    (hdata : data = b.bytes.take data.length)
    (hlen : data.length ≤ 1472 ∨ 65493 < data.length ∧ data.length < 65528) :
    Keeps s b.bytes (some (asInt b.bytes.length, some (sentPacket n dst port dstPort data))) ↔
      Fits n dst port dstPort b.bytes := by
  have hb := b.len_lt
  have hany : (⟨0, 0, 0⟩ : Net).Takes dst := .inl rfl
  constructor
  · intro h
    simp only [Keeps] at h
    split_ifs at h with hpos
    obtain ⟨-, p, hp, hrecv⟩ := h
    cases hp
    obtain ⟨port', hport', hsome⟩ := hrecv _ hany
    obtain ⟨hwire, hle⟩ := ipv4Recv_some hsome
    have hshort : data.length ≤ 1472 := by
      simp only [sentPacket, ipv4Packet] at hwire
      omega
    have heq : data = b.bytes := by
      rw [hdata]
      exact take_of_length_le hle
    cases hport.symm.trans hport'
    rw [← heq] at hsome ⊢
    exact .inl ⟨hshort, (ipv4Recv_iff hany hshort).mp hsome⟩
  · rintro (⟨hshort, hsum⟩ | hlong)
    · have heq : data = b.bytes := by
        rw [hdata, hd, mod_eq_of_lt (by omega)]
        exact take_length
      have hval : asInt b.bytes.length = b.bytes.length := if_pos (by omega)
      rw [heq] at hlen ⊢
      simp only [Keeps, hval, Int.natCast_nonneg, if_true]
      exact ⟨trivial, _, rfl, fun r hr => ⟨port, hport, (ipv4Recv_iff hr hshort).mpr hsum⟩⟩
    · omega

/-- **Which payloads make the trip**, past the tests of the socket. -/
theorem udpOut_keeps_iff (hsrc : srcIp = 0 ∨ srcIp = n.ourIp) (hport : s.port = some port) :
    (∀ f, Keeps s b.bytes (udpOut n f s srcIp dst dstPort b)) ↔
      Fits n dst port dstPort b.bytes := by
  have hd : (b.bytes.take (b.bytes.length % 65536)).length = b.bytes.length % 65536 := by
    rw [length_take]
    exact min_eq_left (mod_le _ _)
  by_cases hnull : b.bytes.length % 65536 < 65528
  case neg =>
    -- no room for the header: the call does not come back
    refine iff_of_false (fun h => ?_) (by unfold Fits; omega)
    have hnone := h ⟨true, true, true⟩
    simp only [udpOut, hport, udpSendEx, hd] at hnone
    rwa [if_neg (by decide), if_pos (by omega)] at hnone
  case pos =>
    have hout : ∀ f, udpOut n f s srcIp dst dstPort b =
        some (if f.mem ∧ f.route ∧ f.driver ∧ (42 + b.bytes.length % 65536) % 65536 ≤ 1514 then
          (asInt b.bytes.length, some (sentPacket n dst port dstPort
            (b.bytes.take (b.bytes.length % 65536)))) else (-5, none)) := by
      intro f
      simp only [udpOut, hport]
      rw [udpSendEx_eq hsrc (by rw [hd]; exact hnull), hd]
      split_ifs <;> rfl
    by_cases hbig : 1472 < b.bytes.length % 65536 ∧ b.bytes.length % 65536 ≤ 65493
    · refine iff_of_true (fun f => ?_) (.inr hbig)
      rw [hout, if_neg (by omega)]
      simp [Keeps]
    · rw [← keeps_sent_iff hport hd (by rw [hd]) (by omega)]
      refine ⟨fun h => ?_, fun h f => ?_⟩
      · have hsent := h ⟨true, true, true⟩
        rwa [hout, if_pos ⟨rfl, rfl, rfl, by omega⟩] at hsent
      · rw [hout]
        split_ifs
        · exact h
        · simp [Keeps]

lemma keeps_udpOut_iff (hsrc : srcIp = 0 ∨ srcIp = n.ourIp) :
    (∀ f, Keeps s b.bytes (udpOut n f s srcIp dst dstPort b)) ↔
      ∀ port, s.port = some port → Fits n dst port dstPort b.bytes := by
  cases hport : s.port with
  | none => exact iff_of_true (fun f => by simp [udpOut, hport, Keeps]) nofun
  | some port =>
    rw [udpOut_keeps_iff hsrc hport]
    exact ⟨fun h _ he => Option.some.inj he ▸ h, fun h => h port rfl⟩

end

/-- **The round trip of a datagram.** A call keeps its word, whatever fails on the way out, iff it
is refused for what it asks or its payload makes the trip. -/
theorem udp_round_trip_iff (n : Net) (s : Sock) (dst dstPort : ℕ) (b : Buf) :
    ((∀ f, Keeps s b.bytes (socketSendto n f s dst dstPort b)) ↔
      b.bytes = [] ∨ (isBroadcastDst n dst && !s.broadcast) = true ∨
        ∀ port, s.port = some port → Fits n dst port dstPort b.bytes) ∧
    ((∀ f, Keeps s b.bytes (socketSend n f s b)) ↔ b.bytes = [] ∨ (s.peerIp = 0 ∨ s.peerPort = 0) ∨
        ∀ port, s.port = some port → Fits n s.peerIp port s.peerPort b.bytes) := by
  have herr : ∀ e : ℤ, e < 0 → Keeps s b.bytes (some (e, none)) := fun e he => by
    simp [Keeps, he.not_ge]
  constructor
  · unfold socketSendto
    split_ifs with hnil hbcast
    · exact iff_of_true (fun _ => herr _ (by decide)) (.inl hnil)
    · exact iff_of_true (fun _ => herr _ (by decide)) (.inr (.inl hbcast))
    · rw [keeps_udpOut_iff (.inr rfl), or_iff_right hnil, or_iff_right hbcast]
  · unfold socketSend
    split_ifs with hnil hpeer
    · exact iff_of_true (fun _ => herr _ (by decide)) (.inl hnil)
    · exact iff_of_true (fun _ => herr _ (by decide)) (.inr (.inl hpeer))
    · rw [keeps_udpOut_iff (.inl rfl), or_iff_right hnil, or_iff_right hpeer]

/-- Two bytes to port 53 whose datagram has the checksum 0: the call returns 2 and the host it is
for drops the datagram. -/
theorem udp_checksum_dropped :
    (socketSendto ⟨0x0F02000A, 0, 0⟩ ⟨true, true, true⟩ ⟨some 49152, false, 0, 0⟩ 0x0202000A 53
      ⟨[39, 148], by decide⟩).map (fun r => (r.1, r.2.bind (ipv4Recv ⟨0x0202000A, 0, 0⟩))) =
        some (2, none) := by
  decide +kernel

end Makaos.Udp
