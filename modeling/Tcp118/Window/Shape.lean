import Tcp118.Window.PendingSearch

/-!
# The shape of a window

`RingWnd n β k w`: the window `w` has `2 * n` slots, and `k` packets have been added from slot `β`
on, cyclically.  `Shape n β k j w`: moreover the first `j` of them have been acknowledged, so that
in transmission order from `last_seq` the entries of `acks` are `j` times `1`, then `0` up to
position `k`, then `-1`.

One lemma for each operation says what it returns or which ring or shape it leaves:

* `ring_init`, `shape_init`, `numReceivedAcks`, `numPendingAcks`, `checkIn_iff`,
  `lastPendingAckMss`;
* `checkAdd_eq`: the byte distance that `cwnd_checkAdd` compares, wrap-around included;
* `addPkt`, `setAllPrevAck_of_mem`, `setAllPrevAck_of_not_mem`, `shiftWnd`.
-/

namespace Tcp118

/-- The entry of `acks` at position `p` from `last_seq`. -/
def ackAt (j k p : ℕ) : ℤ := if p < j then 1 else if p < k then 0 else -1

/-- `k` packets added from slot `β`, the first `j` of them acknowledged. -/
structure Shape (n β k j : ℕ) (w : Cwnd) : Prop where
  pos : 0 < n
  bound : 1024 * (2 * n) < 2 ^ 31
  cWnd : w.cWnd = 1024 * n
  size : w.size = 1024 * (2 * n)
  base : β < 2 * n
  lastSeq : w.lastSeq = 1024 * β
  nextSeq : w.nextSeq = 1024 * ((β + k) % (2 * n))
  added : k < 2 * n
  acked : j ≤ k
  lenAcks : w.acks.length = 2 * n
  lenPackets : w.packets.length = 2 * n
  acks : ∀ p < 2 * n, w.acks[(β + p) % (2 * n)]? = some (ackAt j k p)

/-- `k` packets added from slot `β`, whatever has been acknowledged. -/
structure RingWnd (n β k : ℕ) (w : Cwnd) : Prop where
  pos : 0 < n
  bound : 1024 * (2 * n) < 2 ^ 31
  cWnd : w.cWnd = 1024 * n
  size : w.size = 1024 * (2 * n)
  base : β < 2 * n
  lastSeq : w.lastSeq = 1024 * β
  nextSeq : w.nextSeq = 1024 * ((β + k) % (2 * n))
  added : k < 2 * n
  lenAcks : w.acks.length = 2 * n
  lenPackets : w.packets.length = 2 * n

/-- The size of a new ring is no remainder. -/
theorem size_init {n : ℕ} (hb : 1024 * (2 * n) < 2 ^ 31) :
    u32 (1024 * n * 2) = 1024 * (2 * n) := by
  rw [u32_of_lt (by omega)]
  omega

theorem slots_init {n : ℕ} (hb : 1024 * (2 * n) < 2 ^ 31) :
    u32 (1024 * n * 2) / packetSize = 2 * n := by
  rw [size_init hb, packetSize, Nat.mul_div_cancel_left _ (by decide)]

theorem ring_init {n : ℕ} (hn : 0 < n) (hb : 1024 * (2 * n) < 2 ^ 31) (heap : ℕ → Packet) :
    RingWnd n 0 0 (cwndInit (1024 * n) heap) := by
  refine ⟨hn, hb, rfl, size_init hb, by omega, rfl, by simp [cwndInit], by omega, ?_, ?_⟩
  · simp [cwndInit, slots_init hb]
  · simp [cwndInit, slots_init hb]

/-- A new window has no packets. -/
theorem acks_init {n : ℕ} (hb : 1024 * (2 * n) < 2 ^ 31) (heap : ℕ → Packet) {x : ℕ}
    (hx : x < 2 * n) : (cwndInit (1024 * n) heap).acks[x]? = some (-1) := by
  simp [cwndInit, slots_init hb, hx]

/-! ### The ring -/

/-- The distance `cwnd_checkAdd` compares, in slots.  Once `next_seq` has wrapped below
`last_seq` the 32-bit difference wraps too, and `2 ^ 32` need not be a multiple of the ring. -/
def Shape.dist (n β k : ℕ) : ℕ := if β + k < 2 * n then k else (2 ^ 22 + k) % (2 * n)

namespace RingWnd

variable {n β k : ℕ} {w : Cwnd}

theorem maxMss (h : RingWnd n β k w) : cwndMaxMss w = 2 * n := maxMss_of_size h.size

theorem slot_lt (h : RingWnd n β k w) (p : ℕ) : (β + p) % (2 * n) < 2 * n :=
  Nat.mod_lt _ (by have := h.pos; omega)

/-- A ring is a window on slot boundaries. -/
theorem aligned (h : RingWnd n β k w) : Aligned n β ((β + k) % (2 * n)) w :=
  ⟨h.pos, h.bound, h.size, h.base, h.slot_lt k, h.lastSeq, h.nextSeq⟩

/-- The number of its packets. -/
theorem span (h : RingWnd n β k w) : Cyclic.pos (2 * n) β ((β + k) % (2 * n)) = k :=
  Cyclic.pos_mod h.base h.added

theorem nextMss (h : RingWnd n β k w) : cwndNextMss w = (β + k) % (2 * n) := h.aligned.nextMss

theorem checkIn_iff (h : RingWnd n β k w) (seqNum : ℕ) :
    cwndCheckIn w seqNum = true ↔ 1024 * β ≤ seqNum ∧ seqNum < 1024 * (β + k) := by
  rw [h.aligned.checkIn_iff, h.span]

theorem checkAdd_eq (h : RingWnd n β k w) : cwndCheckAdd w = decide (Shape.dist n β k < n) := by
  have hb := h.bound
  have hβ := h.base
  have hk := h.added
  have hdist : u32Sub w.nextSeq w.lastSeq % w.size = 1024 * Shape.dist n β k := by
    rw [h.nextSeq, h.lastSeq, h.size]
    unfold Shape.dist
    rcases Cyclic.mod_cases (N := 2 * n) (x := β + k) (by omega) with ⟨hlt, hmod⟩ | ⟨hle, hmod⟩
    · rw [hmod, if_pos hlt, u32Sub_of_le (by omega) (by omega), Nat.mod_eq_of_lt (by omega)]
      omega
    · rw [hmod, if_neg (by omega), u32Sub_of_lt (by omega) (by omega),
        ← Nat.add_mod_right (1024 * (β + k - 2 * n) + 2 ^ 32 - 1024 * β),
        show 1024 * (β + k - 2 * n) + 2 ^ 32 - 1024 * β + 1024 * (2 * n) =
          1024 * (2 ^ 22 + k) by omega, Nat.mul_mod_mul_left]
  unfold cwndCheckAdd
  rw [hdist, h.cWnd]
  by_cases hd : Shape.dist n β k < n
  · simp [hd]
  · simp [hd]; omega

theorem addPkt (h : RingWnd n β k w) (hadd : cwndCheckAdd w = true) (hk : k + 1 < 2 * n)
    (buf : Packet) : RingWnd n β (k + 1) (cwndAddPkt w buf).1 := by
  have hb := h.bound
  have hnext := h.slot_lt k
  unfold cwndAddPkt
  rw [if_pos hadd]
  refine ⟨h.pos, hb, h.cWnd, h.size, h.base, h.lastSeq, ?_, hk, ?_, ?_⟩
  · simp only [cwndStart]
    rw [h.nextSeq, h.size]
    simp only [packetSize]
    rw [u32_of_lt (by omega), show 1024 * ((β + k) % (2 * n)) + 1024 =
      1024 * ((β + k) % (2 * n) + 1) by omega, Nat.mul_mod_mul_left, Cyclic.pos_succ]
  · simp [cwndStart, h.lenAcks]
  · simp [cwndStart, h.lenPackets]

/-- The slot at position `k` becomes pending; the others stay. -/
theorem acks_addPkt (h : RingWnd n β k w) (hadd : cwndCheckAdd w = true) (buf : Packet) {p : ℕ}
    (hp : p < 2 * n) :
    (cwndAddPkt w buf).1.acks[(β + p) % (2 * n)]? =
      if p = k then some 0 else w.acks[(β + p) % (2 * n)]? := by
  unfold cwndAddPkt
  rw [if_pos hadd]
  simp only [cwndStart]
  rw [List.getElem?_set, h.nextMss, h.lenAcks, if_pos (h.slot_lt k)]
  simp only [Cyclic.pos_inj (N := 2 * n) (β := β) h.added hp, eq_comm]

/-- The added packet is stored in the slot at position `k`; the others stay. -/
theorem packets_addPkt (h : RingWnd n β k w) (hadd : cwndCheckAdd w = true) (buf : Packet)
    (x : ℕ) :
    (cwndAddPkt w buf).1.packets[x]? =
      if (β + k) % (2 * n) = x then some buf else w.packets[x]? := by
  unfold cwndAddPkt
  rw [if_pos hadd]
  simp only [cwndStart]
  rw [List.getElem?_set, h.nextMss, h.lenPackets, if_pos (h.slot_lt k)]

theorem shiftWnd (h : RingWnd n β k w) : RingWnd n ((β + k) % (2 * n)) 0 (cwndShiftWnd w) := by
  have hpos := h.pos
  have hdiv : w.size / packetSize = 2 * n := h.maxMss
  refine ⟨hpos, h.bound, h.cWnd, h.size, h.slot_lt k, h.nextSeq, ?_, by omega, ?_, h.lenPackets⟩
  · rw [Nat.add_zero, Nat.mod_mod]
    exact h.nextSeq
  · simp [cwndShiftWnd, cwndResetAck, hdiv]

theorem acks_shiftWnd (h : RingWnd n β k w) {x : ℕ} (hx : x < 2 * n) :
    (cwndShiftWnd w).acks[x]? = some (-1) := by
  have hdiv : w.size / packetSize = 2 * n := h.maxMss
  simp only [cwndShiftWnd, cwndResetAck, hdiv, List.getElem?_replicate, if_pos hx]

/-- Acknowledging changes `acks` only. -/
theorem withAcks (h : RingWnd n β k w) {acks : List ℤ} (hlen : acks.length = 2 * n) :
    RingWnd n β k { w with acks := acks } :=
  ⟨h.pos, h.bound, h.cWnd, h.size, h.base, h.lastSeq, h.nextSeq, h.added, hlen, h.lenPackets⟩

end RingWnd

/-! ### Shapes -/

/-- A ring with these entries has the shape. -/
theorem RingWnd.shape {n β k j : ℕ} {w : Cwnd} (h : RingWnd n β k w) (hj : j ≤ k)
    (hacks : ∀ p < 2 * n, w.acks[(β + p) % (2 * n)]? = some (ackAt j k p)) : Shape n β k j w :=
  ⟨h.pos, h.bound, h.cWnd, h.size, h.base, h.lastSeq, h.nextSeq, h.added, hj, h.lenAcks,
    h.lenPackets, hacks⟩

theorem shape_init {n : ℕ} (hn : 0 < n) (hb : 1024 * (2 * n) < 2 ^ 31) (heap : ℕ → Packet) :
    Shape n 0 0 0 (cwndInit (1024 * n) heap) :=
  (ring_init hn hb heap).shape le_rfl fun _ _ => acks_init hb heap (Nat.mod_lt _ (by omega))

namespace Shape

variable {n β k j : ℕ} {w : Cwnd}

/-! ### Observers -/

theorem ring (h : Shape n β k j w) : RingWnd n β k w :=
  ⟨h.pos, h.bound, h.cWnd, h.size, h.base, h.lastSeq, h.nextSeq, h.added, h.lenAcks, h.lenPackets⟩

theorem maxMss (h : Shape n β k j w) : cwndMaxMss w = 2 * n := h.ring.maxMss

theorem aligned (h : Shape n β k j w) : Aligned n β ((β + k) % (2 * n)) w := h.ring.aligned

theorem lastMss (h : Shape n β k j w) : cwndLastMss w = β := h.aligned.lastMss

theorem nextMss (h : Shape n β k j w) : cwndNextMss w = (β + k) % (2 * n) := h.ring.nextMss

theorem getAck (h : Shape n β k j w) {p : ℕ} (hp : p < 2 * n) :
    cwndGetAck w ((β + p) % (2 * n) * packetSize) = ackAt j k p := by
  unfold cwndGetAck
  rw [h.aligned.slotOf_mul, Nat.mod_mod, List.getD_eq_getElem?_getD, h.acks p hp]
  rfl

/-- Counting entries is counting positions. -/
theorem countAcks_eq (h : Shape n β k j w) (v : ℤ) :
    countAcks w v = (List.range (2 * n)).countP fun p => ackAt j k p == v := by
  unfold countAcks
  rw [h.maxMss, Cyclic.countP_pos β]
  apply List.countP_congr
  intro p hp
  rw [h.getAck (List.mem_range.1 hp)]

theorem numReceivedAcks (h : Shape n β k j w) : cwndNumReceivedAcks w = j := by
  have hlt := h.added
  have hle := h.acked
  unfold cwndNumReceivedAcks
  rw [h.countAcks_eq]
  refine Cyclic.countP_of_iff (a := 0) (by omega) fun p _ => ?_
  unfold ackAt
  split_ifs <;> simp <;> omega

theorem numPendingAcks (h : Shape n β k j w) : cwndNumPendingAcks w = k - j := by
  have hlt := h.added
  unfold cwndNumPendingAcks
  rw [h.countAcks_eq]
  refine Cyclic.countP_of_iff (by omega) fun p _ => ?_
  unfold ackAt
  split_ifs <;> simp <;> omega

/-- `next_seq`, lifted by one ring length where it has wrapped below `last_seq`. -/
theorem liftedNext (h : Shape n β k j w) :
    (if w.nextSeq < w.lastSeq then u32 (w.nextSeq + w.size) else w.nextSeq) = 1024 * (β + k) := by
  rw [h.aligned.liftedNext, h.ring.span]

theorem checkIn_iff (h : Shape n β k j w) (seqNum : ℕ) :
    cwndCheckIn w seqNum = true ↔ 1024 * β ≤ seqNum ∧ seqNum < 1024 * (β + k) :=
  h.ring.checkIn_iff seqNum

theorem checkAdd_eq (h : Shape n β k j w) : cwndCheckAdd w = decide (dist n β k < n) :=
  h.ring.checkAdd_eq

/-! ### Adding and shifting -/

theorem addPkt_snd (w : Cwnd) (buf : Packet) : (cwndAddPkt w buf).2 = cwndCheckAdd w := by
  unfold cwndAddPkt
  split_ifs with h
  · exact h.symm
  · simpa using h

theorem addPkt_of_full {buf : Packet} (h : cwndCheckAdd w = false) :
    cwndAddPkt w buf = (w, false) := by
  unfold cwndAddPkt
  rw [h]
  rfl

theorem addPkt (h : Shape n β k j w) (hadd : cwndCheckAdd w = true) (hk : k + 1 < 2 * n)
    (buf : Packet) : Shape n β (k + 1) j (cwndAddPkt w buf).1 := by
  have hj := h.acked
  refine (h.ring.addPkt hadd hk buf).shape (by omega) fun p hp => ?_
  rw [h.ring.acks_addPkt hadd buf hp, h.acks p hp]
  unfold ackAt
  split_ifs <;> first | rfl | omega

theorem packets_addPkt (h : Shape n β k j w) (hadd : cwndCheckAdd w = true) (buf : Packet)
    (x : ℕ) :
    (cwndAddPkt w buf).1.packets[x]? =
      if (β + k) % (2 * n) = x then some buf else w.packets[x]? :=
  h.ring.packets_addPkt hadd buf x

theorem start_addPkt (hadd : cwndCheckAdd w = true) (buf : Packet) :
    (cwndAddPkt w buf).1.start = true := by
  unfold cwndAddPkt
  rw [if_pos hadd]
  rfl

theorem shiftWnd (h : Shape n β k j w) :
    Shape n ((β + k) % (2 * n)) 0 0 (cwndShiftWnd w) :=
  h.ring.shiftWnd.shape le_rfl fun _ _ =>
    h.ring.acks_shiftWnd (Nat.mod_lt _ (by have := h.pos; omega))

/-! ### Acknowledging -/

/-- The loop of `cwnd_setAllPrevAck` over the first `m` positions. -/
theorem setAcks (h : Shape n β k j w) {m : ℕ} (hm : m ≤ k) :
    Shape n β k (max j m) (setAcks w β m) := by
  have hjk := h.acked
  rw [h.aligned.setAcks_eq h.lenAcks (by rw [h.ring.span]; exact hm)]
  refine (h.ring.withAcks (by simp [h.lenAcks])).shape (by omega) fun p hp => ?_
  rw [getElem?_markAcks, Cyclic.pos_mod h.base hp, h.acks p hp]
  unfold ackAt
  split_ifs <;> first | rfl | omega

/-- A sequence number lifted by one ring length where it lies below `last_seq`. -/
def lift (n β seqNum : ℕ) : ℕ := if seqNum < 1024 * β then seqNum + 1024 * (2 * n) else seqNum

theorem setAllPrevAck_eq (h : Shape n β k j w) (seqNum : ℕ) :
    cwndSetAllPrevAck w seqNum =
      if lift n β seqNum < 1024 * (β + k) then
        Tcp118.setAcks w β (lift n β seqNum / packetSize + 1 - β) else w := by
  unfold cwndSetAllPrevAck cwndLastSeq
  dsimp only
  rw [h.liftedNext, h.aligned.liftedSeq, h.lastMss]
  rfl

/-- An acknowledgement number in the window marks every position up to its own. -/
theorem setAllPrevAck_of_mem (h : Shape n β k j w) (seqNum : ℕ)
    (hin : lift n β seqNum < 1024 * (β + k)) :
    Shape n β k (max j (lift n β seqNum / 1024 + 1 - β)) (cwndSetAllPrevAck w seqNum) := by
  rw [h.setAllPrevAck_eq, if_pos hin]
  exact h.setAcks (by omega)

/-- The number of the slot at a position is lifted to that position. -/
theorem lift_slot (h : Shape n β k j w) {i : ℕ} (hi : i < 2 * n) :
    lift n β (1024 * ((β + i) % (2 * n))) = 1024 * (β + i) := by
  have hβ := h.base
  unfold lift
  rcases Cyclic.mod_cases (N := 2 * n) (x := β + i) (by omega) with ⟨hlt, hmod⟩ | ⟨hle, hmod⟩
  · rw [hmod, if_neg (by omega)]
  · rw [hmod, if_pos (by omega)]
    omega

/-- The number of an added packet marks every position up to that packet's. -/
theorem setAllPrevAck_slot (h : Shape n β k j w) {i : ℕ} (hi : i < k) :
    Shape n β k (max j (i + 1)) (cwndSetAllPrevAck w (1024 * ((β + i) % (2 * n)))) := by
  have hk := h.added
  have hlift := h.lift_slot (i := i) (by omega)
  have hs := h.setAllPrevAck_of_mem (1024 * ((β + i) % (2 * n))) (by rw [hlift]; omega)
  rwa [hlift, show 1024 * (β + i) / 1024 + 1 - β = i + 1 by omega] at hs

/-- Any other number changes nothing. -/
theorem setAllPrevAck_of_not_mem (h : Shape n β k j w) {seqNum : ℕ}
    (hin : ¬ lift n β seqNum < 1024 * (β + k)) : cwndSetAllPrevAck w seqNum = w := by
  rw [h.setAllPrevAck_eq, if_neg hin]

/-- Whatever the number, the acknowledged run does not shrink. -/
theorem setAllPrevAck (h : Shape n β k j w) (seqNum : ℕ) :
    ∃ j', j ≤ j' ∧ Shape n β k j' (cwndSetAllPrevAck w seqNum) := by
  by_cases hin : lift n β seqNum < 1024 * (β + k)
  · exact ⟨_, le_max_left _ _, h.setAllPrevAck_of_mem _ hin⟩
  · rw [h.setAllPrevAck_of_not_mem hin]
    exact ⟨j, le_rfl, h⟩

/-! ### The pending-slot search -/

/-- The search stops behind the acknowledged positions. -/
theorem stopsAt (h : Shape n β k j w) : Aligned.StopsAt n β ((β + k) % (2 * n)) j w := by
  have hk := h.added
  have hjk := h.acked
  refine ⟨by rw [h.ring.span]; exact hjk, fun p hp => ?_, fun hlt => ?_⟩
  · rw [h.acks p (by omega), ackAt, if_pos hp]
  · rw [h.ring.span] at hlt
    rw [h.acks j (by omega), ackAt, if_neg (lt_irrefl j), if_pos hlt]
    decide

/-- The search ends at the first position that is not acknowledged. -/
theorem lastPendingAckMss (h : Shape n β k j w) :
    cwndLastPendingAckMss w = some (if j < k then (((β + j) % (2 * n) : ℕ) : ℤ) else -1) := by
  rw [h.aligned.lastPendingAckMss_eq h.stopsAt, h.ring.span]

end Shape

/-! ### What acknowledging leaves alone -/

theorem setAck_frame (w : Cwnd) (seqNum : ℕ) :
    (cwndSetAck w seqNum).packets = w.packets ∧ (cwndSetAck w seqNum).start = w.start := by
  unfold cwndSetAck
  split_ifs <;> exact ⟨rfl, rfl⟩

theorem setAcks_frame (w : Cwnd) (a m : ℕ) :
    (setAcks w a m).packets = w.packets ∧ (setAcks w a m).start = w.start := by
  induction m with
  | zero => exact ⟨rfl, rfl⟩
  | succ m ih =>
    unfold setAcks at ih ⊢
    rw [List.range'_concat, List.foldl_append]
    exact ⟨(setAck_frame _ _).1.trans ih.1, (setAck_frame _ _).2.trans ih.2⟩

theorem packets_setAllPrevAck (w : Cwnd) (seqNum : ℕ) :
    (cwndSetAllPrevAck w seqNum).packets = w.packets := by
  unfold cwndSetAllPrevAck
  dsimp only
  split_ifs <;> first | exact (setAcks_frame _ _ _).1 | rfl

theorem start_setAllPrevAck (w : Cwnd) (seqNum : ℕ) :
    (cwndSetAllPrevAck w seqNum).start = w.start := by
  unfold cwndSetAllPrevAck
  dsimp only
  split_ifs <;> first | exact (setAcks_frame _ _ _).2 | rfl

end Tcp118
