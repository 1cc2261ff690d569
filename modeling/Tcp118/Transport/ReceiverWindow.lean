import Tcp118.Transport.Datagrams

/-!
# The functions of `readTCP` on a window of any shape

`c_wnd` is a multiple of `PACKET_SIZE` here, and need not divide a power of two.

* `toU32_mss`: the sequence number the readers compute from a pending slot; it is never the
  sentinel `noSeq`;
* `Shape.expSeq_eq`, `Shape.readPacket_some`: `readPacket`;
* `Shape.pendingPacket_of_pending`, `Shape.pendingPacket_of_none`: the search of `readTCP`;
* `Shape.ackSeq_of_pending`, `Shape.ackSeq_of_none`, `Shape.writeAckPacket_of_pending`, …:
  `writeAckPacket`;
* `prevSeq_eq_iff`: when the number before `next_seq`, as `writeAckPacket` computes it, is that of
  the slot before.
-/

namespace Tcp118

theorem toU32_neg_one : toU32 (-1 * packetSize) = 2 ^ 32 - 1024 := by decide

section Numbers

variable {n s : ℕ}

/-- The number of a slot, as the readers compute it. -/
theorem toU32_mss (hb : 1024 * (2 * n) < 2 ^ 31) (hs : s < 2 * n) :
    toU32 ((s : ℤ) * packetSize) = 1024 * s := by
  rw [toU32_slot hb hs, Nat.mul_comm, packetSize]

theorem slot_ne_noSeq (hb : 1024 * (2 * n) < 2 ^ 31) (hs : s < 2 * n) : 1024 * s ≠ noSeq := by
  rw [noSeq, toU32_neg_one]
  omega

/-- The number before `0` is taken below `2 ^ 32`, and not below the ring. -/
theorem prevSeq_zero (n : ℕ) :
    u32Sub 0 packetSize % (1024 * (2 * n)) = 1024 * ((2 ^ 22 - 1) % (2 * n)) := by
  rw [← Nat.mul_mod_mul_left]
  rfl

/-- One slot before a whole number of rings lies the last slot. -/
theorem pred_mod_eq_iff {N x : ℕ} (hN : 0 < N) (hx : 0 < x) : (x - 1) % N = N - 1 ↔ N ∣ x := by
  have hdiv := Nat.div_add_mod (x - 1) N
  constructor
  · intro h
    rw [h] at hdiv
    refine ⟨(x - 1) / N + 1, ?_⟩
    rw [Nat.mul_add, Nat.mul_one]
    omega
  · rintro ⟨m, rfl⟩
    obtain ⟨m, rfl⟩ := Nat.exists_eq_succ_of_ne_zero (Nat.pos_of_mul_pos_left hx).ne'
    rw [Nat.mul_succ, Nat.add_sub_assoc hN, Nat.mul_add_mod, Nat.mod_eq_of_lt (by omega)]

/-- The number before that of the slot behind `s` is the number of `s`, unless `s` is the last slot
and the ring does not divide `2 ^ 22`. -/
theorem prevSeq_eq_iff (hb : 1024 * (2 * n) < 2 ^ 31) (hs : s < 2 * n) :
    u32Sub (1024 * ((s + 1) % (2 * n))) packetSize % (1024 * (2 * n)) = 1024 * s ↔
      (s + 1) % (2 * n) ≠ 0 ∨ 2 * n ∣ 2 ^ 22 := by
  rcases Nat.lt_or_ge (s + 1) (2 * n) with hlt | hge
  · rw [Nat.mod_eq_of_lt hlt, u32Sub_of_le (by omega) (by simp only [packetSize]; omega),
      show 1024 * (s + 1) - packetSize = 1024 * s by simp only [packetSize]; omega,
      Nat.mod_eq_of_lt (by omega)]
    exact iff_of_true rfl (.inl (Nat.succ_ne_zero s))
  · obtain rfl : s = 2 * n - 1 := by omega
    rw [show 2 * n - 1 + 1 = 2 * n by omega, Nat.mod_self, Nat.mul_zero, prevSeq_zero,
      Nat.mul_right_inj (by norm_num), pred_mod_eq_iff (by omega) (by norm_num)]
    simp

end Numbers

namespace Shape

variable {n β k j : ℕ} {w : Cwnd}

/-- The slot at any position exists. -/
theorem slot_lt (h : Shape n β k j w) (p : ℕ) : (β + p) % (2 * n) < 2 * n := h.ring.slot_lt p

/-! ### `readPacket` -/

/-- With nothing pending `readPacket` expects `next_seq`. -/
theorem expSeq_eq (h : Shape n β k k w) : expSeq w = some w.nextSeq := by
  unfold expSeq
  rw [h.lastPendingAckMss, if_neg (lt_irrefl k)]
  simp only [Option.bind_eq_bind, Option.bind_some, Option.pure_def]
  rw [if_pos (by rfl), cwndNextSeq]

/-- `readPacket` adds the packet it expects and ignores anything else. -/
theorem readPacket_some (h : Shape n β k k w) {stack pkt : Packet} {d : Datagram}
    (hbuf : recvBuf stack d = pkt) :
    ∃ r, readPacket stack (some d) w =
      some (if getClose pkt = false ∧ verifies pkt = true ∧ getSeqNum pkt = w.nextSeq ∧
        getACK pkt = false then (cwndAddPkt w pkt).1 else w, r) := by
  unfold readPacket
  dsimp only
  rw [hbuf, h.expSeq_eq, Option.bind_eq_bind, Option.bind_some]
  simp only [Option.pure_def]
  cases hc : getClose pkt with
  | true => exact ⟨0, by simp⟩
  | false =>
    by_cases hcond : verifies pkt = true ∧ getSeqNum pkt = w.nextSeq ∧ getACK pkt = false
    · exact ⟨packetSize, by simp [hcond]⟩
    · exact ⟨0, by simp [hcond]⟩

/-! ### The pending packet -/

/-- The packet found pending is the one at the first unacknowledged position. -/
theorem pendingPacket_of_pending (h : Shape n β k j w) (hlt : j < k) {pkt : Packet}
    (hpkt : w.packets[(β + j) % (2 * n)]? = some pkt) : pendingPacket w = some (some pkt) := by
  have hk := h.added
  have hslot := h.slot_lt j
  have hack := h.getAck (p := j) (by omega)
  rw [ackAt, if_neg (lt_irrefl j), if_pos hlt, Nat.mul_comm] at hack
  unfold pendingPacket cwndGetPktSeq
  rw [h.lastPendingAckMss, if_pos hlt]
  simp only [Option.bind_eq_bind, Option.bind_some, Option.pure_def]
  rw [if_pos (by omega), toU32_mss h.bound hslot, if_neg (slot_ne_noSeq h.bound hslot)]
  simp only [packetSize] at hack ⊢
  rw [hack, if_neg (by norm_num), Nat.mul_div_cancel_left _ (by norm_num), hpkt]

theorem pendingPacket_of_none (h : Shape n β k k w) : pendingPacket w = some none := by
  unfold pendingPacket
  rw [h.lastPendingAckMss, if_neg (lt_irrefl k)]
  rfl

/-! ### `writeAckPacket` -/

/-- A pending packet is acknowledged under the number of its slot. -/
theorem ackSeq_of_pending (h : Shape n β k j w) (hlt : j < k) :
    ackSeq w = some (1024 * ((β + j) % (2 * n))) := by
  unfold ackSeq
  rw [h.lastPendingAckMss, if_pos hlt]
  simp only [Option.bind_eq_bind, Option.bind_some, Option.pure_def]
  rw [toU32_mss h.bound (h.slot_lt j), if_neg (slot_ne_noSeq h.bound (h.slot_lt j))]

/-- With nothing pending the number before `next_seq` is acknowledged again. -/
theorem ackSeq_of_none (h : Shape n β k k w) :
    ackSeq w = some (u32Sub w.nextSeq packetSize % (1024 * (2 * n))) := by
  have hb := h.bound
  have hn := h.pos
  have hlt : u32Sub w.nextSeq packetSize % (1024 * (2 * n)) < 1024 * (2 * n) :=
    Nat.mod_lt _ (by omega)
  have hne : u32Sub w.nextSeq packetSize % (1024 * (2 * n)) ≠ noSeq := by
    rw [noSeq, toU32_neg_one]
    omega
  unfold ackSeq
  rw [h.lastPendingAckMss, if_neg (lt_irrefl k)]
  simp only [Option.bind_eq_bind, Option.bind_some, Option.pure_def]
  rw [if_pos (by rfl), cwndNextSeq, h.size, if_neg hne]

theorem writeAckPacket_of_pending (h : Shape n β k j w) (hlt : j < k) (hstart : w.start = true)
    (lost corr : Bool) :
    writeAckPacket lost corr w = some (cwndSetAllPrevAck w (1024 * ((β + j) % (2 * n))),
      if lost then none else
        some (if corr then zeroPacket else ackPacket (1024 * ((β + j) % (2 * n)))), true) := by
  have hpend : cwndNumPendingAcks w ≠ 0 := by
    rw [h.numPendingAcks]
    exact Nat.sub_ne_zero_of_lt hlt
  unfold writeAckPacket
  simp only [h.ackSeq_of_pending hlt, Option.bind_eq_bind, Option.bind_some, Option.pure_def,
    hpend, cwndGetStarted, hstart, false_and, if_false, if_true]

theorem writeAckPacket_of_none (h : Shape n β k k w) (hstart : w.start = true)
    (lost corr : Bool) :
    writeAckPacket lost corr w =
      some (w, some (ackPacket (u32Sub w.nextSeq packetSize % (1024 * (2 * n)))), false) := by
  have hpend : cwndNumPendingAcks w = 0 := by
    rw [h.numPendingAcks, Nat.sub_self]
  unfold writeAckPacket
  simp only [h.ackSeq_of_none, Option.bind_eq_bind, Option.bind_some, Option.pure_def, hpend,
    cwndGetStarted, hstart, and_self, if_true]

/-- Before the first packet nothing is acknowledged. -/
theorem writeAckPacket_of_not_started (h : Shape n β k j w) (hstart : w.start = false)
    (lost corr : Bool) : writeAckPacket lost corr w = some (w, none, false) := by
  obtain ⟨seq, hseq⟩ : ∃ seq, ackSeq w = some seq := by
    unfold ackSeq
    rw [h.lastPendingAckMss]
    simp only [Option.bind_eq_bind, Option.bind_some, Option.pure_def]
    split_ifs <;> exact ⟨_, rfl⟩
  unfold writeAckPacket
  simp only [hseq, Option.bind_eq_bind, Option.bind_some, Option.pure_def, cwndGetStarted, hstart,
    and_false, if_false, Bool.false_eq_true]

end Shape

end Tcp118
