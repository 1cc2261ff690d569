import Tcp118.Packet.Detection
import Tcp118.Transport.Datagrams

/-!
# Corrupted datagrams

Every reader tests the checksum before it acts on a datagram.

* `readPacket_of_not_verifies`, `readAckPacket_of_not_verifies`, `readClosePacket_of_not_verifies`:
  a datagram that does not verify is refused;
* `Refused`: refused by all three;
* `corruption_detected`: a change inside one aligned 16-bit word passes the test only between
  `0x0000` and `0xFFFF`, and a flipped bit never does.
-/

namespace Tcp118

section Refused

variable {stack pkt : Packet} {w : Cwnd}

/-- `readPacket` returns `0` and leaves the window alone. -/
theorem readPacket_of_not_verifies (h : verifies pkt = false) {r : Cwnd × ℤ}
    (hr : readPacket stack (some (datagram pkt)) w = some r) : r = (w, 0) := by
  unfold readPacket at hr
  simp only [recvBuf_datagram, h, Bool.false_eq_true, false_and, if_false] at hr
  split_ifs at hr with hclose
  · exact (Option.some.inj hr).symm
  · cases hseq : expSeq w with
    | none => simp [hseq] at hr
    | some seq =>
      simp only [hseq, Option.bind_eq_bind, Option.bind_some, Option.pure_def] at hr
      exact (Option.some.inj hr).symm

/-- `readAckPacket` returns `false` and leaves the window alone. -/
theorem readAckPacket_of_not_verifies (h : verifies pkt = false) :
    readAckPacket stack (some (datagram pkt)) w = (w, false) := by
  unfold readAckPacket
  simp [recvBuf_datagram, h]

/-- `readClosePacket` returns `false`. -/
theorem readClosePacket_of_not_verifies (h : verifies pkt = false) :
    readClosePacket stack (some (datagram pkt)) = false := by
  unfold readClosePacket
  simp [recvBuf_datagram, h]

end Refused

/-- No reader accepts the packet: `readPacket` adds nothing, `readAckPacket` acknowledges nothing,
and `readClosePacket` does not end the connection. -/
structure Refused (pkt : Packet) : Prop where
  data : ∀ stack w r, readPacket stack (some (datagram pkt)) w = some r → r = (w, 0)
  ack : ∀ stack w, readAckPacket stack (some (datagram pkt)) w = (w, false)
  close : ∀ stack, readClosePacket stack (some (datagram pkt)) = false

theorem refused_of_not_verifies {pkt : Packet} (h : verifies pkt = false) : Refused pkt :=
  ⟨fun _ _ _ hr => readPacket_of_not_verifies h hr, fun _ _ => readAckPacket_of_not_verifies h,
    fun _ => readClosePacket_of_not_verifies h⟩

theorem verifies_iff {pkt : Packet} : verifies pkt = true ↔ checksum pkt.byte packetSize = 0 := by
  simp [verifies]

theorem verifies_flipBit {p : Packet} {i b : ℕ} (hp : verifies p = true) (hi : i < packetSize)
    (hb : b < 8) : verifies (flipBit p i b) = false := by
  rw [← Bool.not_eq_true, verifies_iff]
  exact checksum_flipBit (verifies_iff.1 hp) hi hb

/-- **The checksum detects every change inside one aligned 16-bit word**, but for one between
`0x0000` and `0xFFFF`; no reader accepts a packet with one bit flipped. -/
theorem corruption_detected {p : Packet} (hp : verifies p = true) :
    (∀ q k, k < 512 → AgreeOutside k p q → p ≠ q → verifies q = true →
      (word16 p.byte k = 0 ∧ word16 q.byte k = 0xFFFF) ∨
        (word16 p.byte k = 0xFFFF ∧ word16 q.byte k = 0)) ∧
    ∀ i b, i < packetSize → b < 8 →
      verifies (flipBit p i b) = false ∧ Refused (flipBit p i b) := by
  constructor
  · intro q k hk hagree hne hq
    exact hagree.word16_of_both_verify hk hne (verifies_iff.1 hp) (verifies_iff.1 hq)
  · intro i b hi hb
    have hflip := verifies_flipBit hp hi hb
    exact ⟨hflip, refused_of_not_verifies hflip⟩

/-- A close packet with the lowest bit of its first byte flipped. -/
theorem corruption_detected_close :
    verifies (flipBit closePacket 0 0) = false ∧ Refused (flipBit closePacket 0 0) :=
  (corruption_detected verifies_closePacket).2 0 0 (by norm_num) (by norm_num)

end Tcp118
