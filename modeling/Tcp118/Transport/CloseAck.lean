import Tcp118.Transport.AckOrder

/-!
# Close packets at the sender

`readAckPacket` has a branch "set all packets as received" whose condition repeats the one before
it, so a close packet is read as any other datagram: it acknowledges something only if its ACK bit
is set.

* `NonePending`: no slot waits for an acknowledgement;
* `lastSlot`: the slot of the packet added last;
* `Shape.nonePending_iff`: an acknowledgement of the window leaves nothing pending exactly when its
  number lies in that slot;
* `closeAck_iff`: so a close packet acknowledges everything exactly when it is such an
  acknowledgement, and the packet of `writeClosePacket` never does.
-/

namespace Tcp118

/-- No slot is pending. -/
def NonePending (w : Cwnd) : Prop := ∀ x : ℕ, w.acks[x]? ≠ some 0

/-- The slot before that of `next_seq`. -/
def lastSlot (w : Cwnd) : ℕ := (w.nextSeq / packetSize + cwndMaxMss w - 1) % cwndMaxMss w

namespace Shape

variable {n β k j : ℕ} {w : Cwnd}

theorem lastSlot_eq (h : Shape n β k j w) (hend : β + k ≤ 2 * n) (hk : 0 < k) :
    lastSlot w = β + k - 1 := by
  unfold lastSlot
  rw [h.maxMss, h.nextSeq]
  simp only [packetSize]
  rcases Nat.lt_or_ge (β + k) (2 * n) with hlt | hge
  · rw [Nat.mod_eq_of_lt hlt, show 1024 * (β + k) / 1024 + 2 * n - 1 = β + k - 1 + 2 * n by omega,
      Nat.add_mod_right, Nat.mod_eq_of_lt (by omega)]
  · rw [show β + k = 2 * n by omega, Nat.mod_self,
      show 1024 * 0 / 1024 + 2 * n - 1 = 2 * n - 1 by omega, Nat.mod_eq_of_lt (by omega)]

/-- The first unacknowledged slot is pending. -/
theorem not_nonePending (h : Shape n β k j w) (hjk : j < k) : ¬ NonePending w := by
  intro hnone
  have hk := h.added
  have hack := h.acks j (by omega)
  rw [ackAt, if_neg (lt_irrefl j), if_pos hjk] at hack
  exact hnone _ hack

/-- An acknowledgement of the window leaves nothing pending exactly when it is for the last
packet. -/
theorem nonePending_iff (h : Shape n β k j w) (hend : β + k ≤ 2 * n) (hjk : j < k) {seqNum : ℕ}
    (hlow : 1024 * β ≤ seqNum) (hhigh : seqNum < 1024 * (β + k)) :
    NonePending (ackThrough w (some seqNum)) ↔ seqNum / packetSize = lastSlot w := by
  have hk := h.added
  rw [h.lastSlot_eq hend (by omega), ← h.setAllPrevAck_eq_ackThrough hend hlow hhigh]
  have hlift : lift n β seqNum = seqNum := if_neg (by omega)
  have hafter := h.setAllPrevAck_of_mem seqNum (by rw [hlift]; exact hhigh)
  rw [hlift] at hafter
  simp only [packetSize]
  constructor
  · intro hnone
    by_contra hne
    exact hafter.not_nonePending (by omega) hnone
  · intro hlast x hx
    have hin : x < 2 * n := by
      rw [← hafter.lenAcks]
      exact (List.getElem?_eq_some_iff.1 hx).1
    obtain ⟨p, hp, rfl⟩ := Cyclic.exists_pos h.base hin
    rw [hafter.acks p hp, ackAt] at hx
    split_ifs at hx with h1 h2
    · exact absurd hx (by decide)
    · omega
    · exact absurd hx (by decide)

/-- What a datagram of full size that verifies leaves of a window with pending packets. -/
theorem nonePending_readAckPacket_iff (h : Shape n β k j w) (hend : β + k ≤ 2 * n) (hjk : j < k)
    {stack : Packet} {d : Datagram} (hfull : recvLen d = packetSize)
    (hver : verifies (recvBuf stack d) = true) :
    NonePending (Tcp118.readAckPacket stack (some d) w).1 ↔
      getACK (recvBuf stack d) = true ∧
        getACKNum (recvBuf stack d) / packetSize = lastSlot w := by
  have hstep := h.readAckPacket_eq (d := (stack, d)) hend hfull
  dsimp only at hstep
  rw [hstep, ackNumber]
  dsimp only
  have hin := h.inWindow_iff hend (getACKNum (recvBuf stack d))
  by_cases hack : getACK (recvBuf stack d) = true
  · by_cases hwin : InWindow w (getACKNum (recvBuf stack d))
    · obtain ⟨hlow, hhigh⟩ := hin.1 hwin
      rw [if_pos ⟨hack, hver, hwin⟩, h.nonePending_iff hend hjk hlow hhigh]
      simp [hack]
    · rw [if_neg fun e => hwin e.2.2, ackThrough_none]
      constructor
      · exact fun hnone => absurd hnone (h.not_nonePending hjk)
      · rintro ⟨-, hslot⟩
        rw [h.lastSlot_eq hend (by omega)] at hslot
        simp only [packetSize] at hslot
        exact absurd (hin.2 (by omega)) hwin
  · rw [if_neg fun e => hack e.1, ackThrough_none]
    constructor
    · exact fun hnone => absurd hnone (h.not_nonePending hjk)
    · exact fun e => absurd e.1 hack

/-- The close packet of `writeClosePacket` is no acknowledgement. -/
theorem not_nonePending_closePacket (h : Shape n β k j w) (hend : β + k ≤ 2 * n) (hjk : j < k)
    (stack : Packet) :
    ¬ NonePending (Tcp118.readAckPacket stack (some (datagram closePacket)) w).1 := by
  have hver : verifies (recvBuf stack (datagram closePacket)) = true := by
    rw [recvBuf_datagram]
    exact verifies_closePacket
  rw [h.nonePending_readAckPacket_iff hend hjk (recvLen_datagram _) hver, recvBuf_datagram,
    getACK_closePacket]
  exact fun e => Bool.false_ne_true e.1

end Shape

/-- **A close packet acknowledges everything outstanding exactly when it is also an acknowledgement
of the last packet**; the close packet of `writeClosePacket`, whose ACK bit is clear, never does. -/
theorem closeAck_iff {e : ℕ} (he : 10 ≤ e) (he' : e ≤ 29) {pkts : List Packet} {S : Sender}
    (h : (senderSystem pkts (2 ^ e)).Reachable S) (hpend : cwndNumPendingAcks S.cwndW ≠ 0) :
    (∀ (stack : Packet) (d : Datagram), recvLen d = packetSize →
      verifies (recvBuf stack d) = true → getClose (recvBuf stack d) = true →
      (NonePending (readAckPacket stack (some d) S.cwndW).1 ↔
        getACK (recvBuf stack d) = true ∧
          getACKNum (recvBuf stack d) / packetSize = lastSlot S.cwndW)) ∧
    ∀ stack, ¬ NonePending (readAckPacket stack (some (datagram closePacket)) S.cwndW).1 := by
  obtain ⟨n, β, k, j, hshape, hend⟩ := exists_shape_of_reachable he he' h
  have hjk : j < k := by
    rw [hshape.numPendingAcks] at hpend
    omega
  constructor
  · intro stack d hfull hver _
    exact hshape.nonePending_readAckPacket_iff hend hjk hfull hver
  · exact hshape.not_nonePending_closePacket hend hjk

/-- A close packet with the ACK bit set acknowledges the only packet. -/
theorem closeAck_4096 :
    ∃ S, (senderSystem (packetsOf [65] 4096 1) 4096).Reachable S ∧
      cwndNumPendingAcks S.cwndW ≠ 0 ∧
      (NonePending (readAckPacket zeroPacket
          (some (datagram (generatePacket 0 0 true true true [] 0))) S.cwndW).1 ↔
        getACK (generatePacket 0 0 true true true [] 0) = true ∧
          getACKNum (generatePacket 0 0 true true true [] 0) / packetSize = lastSlot S.cwndW) := by
  obtain ⟨S, hr, -, hpend⟩ := exists_first_packet
  have hpend' : cwndNumPendingAcks S.cwndW ≠ 0 := by
    rw [hpend]
    exact Nat.one_ne_zero
  have hiff := (closeAck_iff (e := 12) (by norm_num) (by norm_num) hr hpend').1 zeroPacket
    (datagram (generatePacket 0 0 true true true [] 0)) (recvLen_datagram _)
  rw [recvBuf_datagram] at hiff
  exact ⟨S, hr, hpend', hiff (by rw [verifies, checksum_generatePacket]; rfl)
    (getClose_generatePacket _ _ _ _ _ _ _)⟩

/-- The close packet of `writeClosePacket` leaves the only packet pending. -/
theorem not_closeAck_4096 :
    ∃ S, (senderSystem (packetsOf [65] 4096 1) 4096).Reachable S ∧
      cwndNumPendingAcks S.cwndW ≠ 0 ∧
      ¬ NonePending (readAckPacket zeroPacket (some (datagram closePacket)) S.cwndW).1 := by
  obtain ⟨S, hr, -, hpend⟩ := exists_first_packet
  obtain ⟨n, β, k, j, hshape, hend⟩ := exists_shape_of_reachable (e := 12) (by norm_num)
    (by norm_num) hr
  have hjk : j < k := by
    rw [hshape.numPendingAcks] at hpend
    omega
  refine ⟨S, hr, ?_, hshape.not_nonePending_closePacket hend hjk zeroPacket⟩
  rw [hpend]
  exact Nat.one_ne_zero

end Tcp118
