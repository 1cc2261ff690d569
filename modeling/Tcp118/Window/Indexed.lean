import Tcp118.Window.Capacity

/-!
# Windows over a numbered list of packets

Let `2 * n` divide `2 ^ 22`, so that sequence numbers wrap with the ring.  Packet `x` of a list
carries the sequence number `seqOf n x` and belongs to slot `x % (2 * n)`.

`Indexed n base acked added w`: the packets before `base` have been shifted out of `w`, those
before `acked` have been acknowledged, and those before `added` have been added.  The lemmas
restate those of `Shape` with packet numbers.
-/

namespace Tcp118

/-- The sequence number of packet `x`. -/
def seqOf (n x : ℕ) : ℕ := x % (2 * n) * packetSize

/-- A window over a numbered list. -/
structure Indexed (n base acked added : ℕ) (w : Cwnd) : Prop where
  shape : Shape n (base % (2 * n)) (added - base) (acked - base) w
  ring : 2 * n ∣ 2 ^ 22
  aligned : n ∣ base
  base_le : base ≤ acked
  acked_le : acked ≤ added
  added_le : added ≤ base + n

theorem drift_of_dvd {n : ℕ} (hn : 0 < n) (h : 2 * n ∣ 2 ^ 22) : drift n < n := by
  unfold drift
  rw [Nat.mod_eq_zero_of_dvd h]
  exact hn

/-- A multiple of `n` lies at the start of a half. -/
theorem isHalf_mod {n base : ℕ} (h : n ∣ base) : IsHalf n (base % (2 * n)) := by
  obtain ⟨b, rfl⟩ := h
  rw [Nat.mul_comm 2 n, Nat.mul_mod_mul_left]
  rcases Nat.mod_two_eq_zero_or_one b with hb | hb
  · left; rw [hb, Nat.mul_zero]
  · right; rw [hb, Nat.mul_one]

theorem indexed_init {n : ℕ} (hn : 0 < n) (hring : 2 * n ∣ 2 ^ 22) (hb : 1024 * (2 * n) < 2 ^ 31)
    (heap : ℕ → Packet) : Indexed n 0 0 0 (cwndInit (1024 * n) heap) where
  shape := by
    rw [Nat.zero_mod]
    exact shape_init hn hb heap
  ring := hring
  aligned := Nat.dvd_zero n
  base_le := le_rfl
  acked_le := le_rfl
  added_le := Nat.zero_le _

namespace Indexed

variable {n base acked added : ℕ} {w : Cwnd}

theorem pos (h : Indexed n base acked added w) : 0 < n := h.shape.pos

theorem isHalf (h : Indexed n base acked added w) : IsHalf n (base % (2 * n)) :=
  isHalf_mod h.aligned

theorem drift_lt (h : Indexed n base acked added w) : drift n < n := drift_of_dvd h.pos h.ring

/-- The slot of a packet is its position from the slot of `base`. -/
theorem slot (x : ℕ) (hx : base ≤ x) :
    (base % (2 * n) + (x - base)) % (2 * n) = x % (2 * n) := by
  rw [Nat.mod_add_mod, Nat.add_sub_cancel' hx]

theorem numPendingAcks (h : Indexed n base acked added w) :
    cwndNumPendingAcks w = added - acked := by
  have := h.base_le
  rw [h.shape.numPendingAcks]
  omega

theorem checkAdd_iff (h : Indexed n base acked added w) :
    cwndCheckAdd w = true ↔ added < base + n := by
  have h1 := h.base_le
  have h2 := h.acked_le
  have h3 := h.added_le
  rw [h.shape.checkAdd_iff h.isHalf (by omega) h.drift_lt]
  omega

/-- The guard holds exactly for the full, fully acknowledged window. -/
theorem shiftGuard_iff (h : Indexed n base acked added w) :
    shiftGuard w = true ↔ acked = base + n := by
  have h1 := h.base_le
  have h2 := h.acked_le
  have h3 := h.added_le
  rw [h.shape.shiftGuard_iff, ← Bool.not_eq_true, h.checkAdd_iff]
  omega

theorem lastPendingAckMss (h : Indexed n base acked added w) :
    cwndLastPendingAckMss w =
      some (if acked < added then ((acked % (2 * n) : ℕ) : ℤ) else -1) := by
  have h1 := h.base_le
  have h2 := h.acked_le
  rw [h.shape.lastPendingAckMss, slot acked h1]
  by_cases hlt : acked < added
  · rw [if_pos (by omega), if_pos hlt]
  · rw [if_neg (by omega), if_neg hlt]

theorem nextSeq (h : Indexed n base acked added w) : w.nextSeq = seqOf n added := by
  have h1 := h.base_le
  have h2 := h.acked_le
  rw [h.shape.nextSeq, slot added (by omega), seqOf, Nat.mul_comm]

/-- The entry of `acks` for packet `x`. -/
theorem getAck (h : Indexed n base acked added w) {x : ℕ} (hx : base ≤ x) (hx' : x < base + 2 * n) :
    cwndGetAck w (seqOf n x) = if x < acked then 1 else if x < added then 0 else -1 := by
  have h1 := h.base_le
  have h2 := h.acked_le
  have hack := h.shape.getAck (p := x - base) (by omega)
  rw [slot x hx] at hack
  rw [seqOf, hack]
  unfold ackAt
  split_ifs <;> first | rfl | omega

/-- Adding the next packet. -/
theorem addPkt (h : Indexed n base acked added w) (hlt : added < base + n) (pkt : Packet) :
    Indexed n base acked (added + 1) (cwndAddPkt w pkt).1 where
  shape := by
    have h1 := h.base_le
    have h2 := h.acked_le
    have hs := h.shape.addPkt (h.checkAdd_iff.2 hlt) (by omega) pkt
    rwa [show added - base + 1 = added + 1 - base by omega] at hs
  ring := h.ring
  aligned := h.aligned
  base_le := h.base_le
  acked_le := by have := h.acked_le; omega
  added_le := hlt

theorem packets_addPkt (h : Indexed n base acked added w) (hlt : added < base + n) (pkt : Packet)
    (x : ℕ) :
    (cwndAddPkt w pkt).1.packets[x]? =
      if added % (2 * n) = x then some pkt else w.packets[x]? := by
  have h1 := h.base_le
  have h2 := h.acked_le
  rw [h.shape.packets_addPkt (h.checkAdd_iff.2 hlt), slot added (by omega)]

theorem shiftWnd (h : Indexed n base (base + n) added w) :
    Indexed n (base + n) (base + n) (base + n) (cwndShiftWnd w) where
  shape := by
    have h2 := h.acked_le
    have h3 := h.added_le
    have hs := h.shape.shiftWnd
    rw [slot added (by omega), show added = base + n by omega] at hs
    rwa [Nat.sub_self]
  ring := h.ring
  aligned := (Nat.dvd_add_right h.aligned).2 (dvd_refl n)
  base_le := le_rfl
  acked_le := le_rfl
  added_le := by omega

/-! ### Acknowledgement numbers -/

/-- Inside one half a packet's slot is the half's first slot plus its offset. -/
theorem slot_of_lt (hn : 0 < n) (haligned : n ∣ base) {p : ℕ} (hp : p < n) :
    (base + p) % (2 * n) = base % (2 * n) + p := by
  rw [← Nat.mod_add_mod, Nat.mod_eq_of_lt]
  rcases isHalf_mod haligned with h | h <;> rw [h] <;> omega

/-- Among the numbers from the packet before the window on, those the window recognises are the
numbers of the packets it holds. -/
theorem checkIn_iff (h : Indexed n base acked added w) {q : ℕ} (hq : base ≤ q + 1)
    (hq' : q < base + n) :
    cwndCheckIn w (seqOf n q) = true ↔ base ≤ q ∧ q < added := by
  have hn := h.pos
  have h1 := h.base_le
  have h2 := h.acked_le
  have h3 := h.added_le
  rw [h.shape.checkIn_iff]
  unfold seqOf
  simp only [packetSize]
  rcases Nat.lt_or_ge q base with hlt | hge
  · -- the packet before the window has the number before its first or the last of the ring
    obtain ⟨b, rfl⟩ : ∃ b, base = b + n :=
      ⟨base - n, by have := Nat.le_of_dvd (by omega) h.aligned; omega⟩
    have haligned : n ∣ b := (Nat.dvd_add_left (dvd_refl n)).1 h.aligned
    have hslot := slot_of_lt hn haligned (p := n - 1) (by omega)
    rw [show b + (n - 1) = q by omega] at hslot
    rw [hslot]
    rcases isHalf_mod haligned with hb | hb
    · have hhalf : (b + n) % (2 * n) = n := by
        rw [← Nat.mod_add_mod, hb, Nat.zero_add, Nat.mod_eq_of_lt (by omega)]
      rw [hb, hhalf]
      omega
    · have hhalf : (b + n) % (2 * n) = 0 := by
        rw [← Nat.mod_add_mod, hb, ← Nat.two_mul, Nat.mod_self]
      rw [hb, hhalf]
      omega
  · have hslot := slot_of_lt hn h.aligned (p := q - base) (by omega)
    rw [Nat.add_sub_cancel' hge] at hslot
    rw [hslot]
    omega

/-- Acknowledging a packet of the window acknowledges all packets up to it. -/
theorem setAllPrevAck (h : Indexed n base acked added w) {q : ℕ} (hq : base ≤ q)
    (hq' : q < added) :
    Indexed n base (max acked (q + 1)) added (cwndSetAllPrevAck w (seqOf n q)) where
  shape := by
    have h1 := h.base_le
    have hs := h.shape.setAllPrevAck_slot (i := q - base) (by omega)
    rwa [slot q hq, show 1024 * (q % (2 * n)) = seqOf n q from Nat.mul_comm _ _,
      show max (acked - base) (q - base + 1) = max acked (q + 1) - base by omega] at hs
  ring := h.ring
  aligned := h.aligned
  base_le := by have := h.base_le; omega
  acked_le := by have := h.acked_le; omega
  added_le := h.added_le

/-- Whatever the number, the acknowledged run does not shrink. -/
theorem exists_setAllPrevAck (h : Indexed n base acked added w) (seqNum : ℕ) :
    ∃ acked', acked ≤ acked' ∧ Indexed n base acked' added (cwndSetAllPrevAck w seqNum) := by
  obtain ⟨j, hj, hs⟩ := h.shape.setAllPrevAck seqNum
  have h1 := h.base_le
  have h2 := h.acked_le
  have hjk := hs.acked
  refine ⟨base + j, by omega, ⟨?_, h.ring, h.aligned, by omega, by omega, h.added_le⟩⟩
  rwa [Nat.add_sub_cancel_left]

end Indexed

/-- Sequence numbers are multiples of `PACKET_SIZE` below the ring. -/
theorem seqOf_lt {n : ℕ} (hn : 0 < n) (hb : 1024 * (2 * n) < 2 ^ 31) (x : ℕ) :
    seqOf n x < 2 ^ 31 := by
  have := Nat.mod_lt x (by omega : 0 < 2 * n)
  unfold seqOf
  simp only [packetSize]
  omega

/-- The number `bufToPackets` writes into packet `x`. -/
theorem seqOf_eq {n : ℕ} (hring : 2 * n ∣ 2 ^ 22) (hb : 1024 * (2 * n) < 2 ^ 31) (x : ℕ) :
    u32 (x * packetSize) % u32 (2 * (1024 * n)) = seqOf n x := by
  obtain ⟨m, hm⟩ := hring
  have h32 : (2 : ℕ) ^ 32 = 1024 * (2 * n) * m := by
    rw [Nat.mul_assoc, ← hm]
    norm_num
  rw [u32_of_lt (by omega : 2 * (1024 * n) < 2 ^ 32)]
  unfold u32 seqOf
  simp only [packetSize]
  rw [h32, show 2 * (1024 * n) = 1024 * (2 * n) by omega,
    Nat.mod_mod_of_dvd _ (Nat.dvd_mul_right _ m), Nat.mul_comm x 1024, Nat.mul_mod_mul_left,
    Nat.mul_comm]

/-- Numbers less than a ring apart are different. -/
theorem seqOf_inj {n x y : ℕ} (h₁ : x < y + 2 * n) (h₂ : y < x + 2 * n) :
    seqOf n x = seqOf n y ↔ x = y := by
  rw [← Cyclic.mod_eq_iff_of_near h₁ h₂]
  unfold seqOf
  simp only [packetSize]
  omega

/-- A window of `2 ^ e` bytes, for `10 ≤ e ≤ 29`, holds `2 ^ (e - 10)` packets. -/
theorem exists_packets_of_pow {e : ℕ} (he : 10 ≤ e) (he' : e ≤ 29) :
    ∃ n, 2 ^ e = 1024 * n ∧ 0 < n ∧ 2 * n ∣ 2 ^ 22 ∧ 1024 * (2 * n) < 2 ^ 31 := by
  have hpow : 2 ^ e = 1024 * 2 ^ (e - 10) := by
    rw [show (1024 : ℕ) = 2 ^ 10 from rfl, ← pow_add, Nat.add_sub_cancel' he]
  refine ⟨2 ^ (e - 10), hpow, Nat.two_pow_pos _, ?_, ?_⟩
  · rw [← Nat.pow_succ']
    exact Nat.pow_dvd_pow 2 (by omega)
  · rw [Nat.mul_left_comm, ← hpow, ← Nat.pow_succ']
    exact Nat.pow_lt_pow_right (by norm_num) (by omega)

end Tcp118
