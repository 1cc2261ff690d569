import Tcp118.Window.Shape

/-!
# Windows before and behind the end of the ring

`Flat c b k j w`: in the window `w` of `c_wnd = c`, a multiple of `PACKET_SIZE` or not, `k` packets
have been added from slot `b` on without reaching the end of the ring, and the first `j` of them
have been acknowledged.

* `Flat.init`, `Flat.addPkt`, `Flat.setAllPrevAck`, `Flat.shiftWnd`: the operations;
* `Flat.numReceivedAcks`, `Flat.numPendingAcks`, `Flat.checkAdd_eq`, `Flat.shiftGuard_iff`,
  `Flat.lastPendingAckMss`: the observers.

`Lapped N b t w`: in a ring of `N` slots, packets have been added from slot `b` on to the end of the
ring and into the first `t` slots, and none has been acknowledged.
-/

namespace Tcp118

/-- The entry of `acks` in slot `x`, when the slots from `b` on have been used. -/
def flatAck (b j k x : ℕ) : ℤ :=
  if b ≤ x ∧ x < b + j then 1 else if b ≤ x ∧ x < b + k then 0 else -1

/-- `k` packets added from slot `b` on, the first `j` of them acknowledged. -/
structure Flat (c b k j : ℕ) (w : Cwnd) : Prop where
  large : 1024 ≤ c
  bound : 2 * c < 2 ^ 31
  cWnd : w.cWnd = c
  size : w.size = 2 * c
  lastSeq : w.lastSeq = 1024 * b
  nextSeq : w.nextSeq = 1024 * (b + k)
  inside : 1024 * (b + k) < 2 * c
  acked : j ≤ k
  lenAcks : w.acks.length = 2 * c / 1024
  acks : ∀ x < 2 * c / 1024, w.acks[x]? = some (flatAck b j k x)

namespace Flat

variable {c b k j : ℕ} {w : Cwnd}

theorem init (hlarge : 1024 ≤ c) (hb : 2 * c < 2 ^ 31) (heap : ℕ → Packet) :
    Flat c 0 0 0 (cwndInit c heap) := by
  have hsize : u32 (c * 2) = 2 * c := by unfold u32; omega
  refine ⟨hlarge, hb, rfl, hsize, rfl, rfl, by omega, le_rfl, ?_, ?_⟩
  · simp [cwndInit, hsize]
  · intro x hx
    simp only [cwndInit, hsize, packetSize, List.getElem?_replicate, if_pos hx]
    unfold flatAck
    rw [if_neg (by omega), if_neg (by omega)]

/-! ### Observers -/

theorem maxMss (h : Flat c b k j w) : cwndMaxMss w = 2 * c / 1024 := by
  unfold cwndMaxMss
  rw [h.size]

theorem lastMss (h : Flat c b k j w) : cwndLastMss w = b := by
  have hin := h.inside
  exact lastMss_of_lastSeq h.lastSeq (by rw [h.size]; omega)

theorem nextMss (h : Flat c b k j w) : cwndNextMss w = b + k := by
  have hin := h.inside
  exact nextMss_of_nextSeq h.nextSeq (by rw [h.size]; omega)

theorem slotOf_eq (h : Flat c b k j w) {x : ℕ} (hx : 1024 * x < 2 * c) :
    slotOf w (x * packetSize) = x := by
  unfold slotOf
  rw [h.size]
  simp only [packetSize]
  rw [Nat.mod_eq_of_lt (by omega)]
  omega

theorem getAck (h : Flat c b k j w) {x : ℕ} (hx : x < 2 * c / 1024) :
    cwndGetAck w (x * packetSize) = flatAck b j k x := by
  unfold cwndGetAck
  rw [h.slotOf_eq (by omega), List.getD_eq_getElem?_getD, h.acks x hx]
  rfl

theorem numReceivedAcks (h : Flat c b k j w) : cwndNumReceivedAcks w = j := by
  have hin := h.inside
  have hjk := h.acked
  unfold cwndNumReceivedAcks countAcks
  rw [h.maxMss]
  refine (Cyclic.countP_of_iff (a := b) (b := b + j) (by omega) fun x hx => ?_).trans
    (Nat.add_sub_cancel_left b j)
  rw [h.getAck hx]
  unfold flatAck
  split_ifs <;> simp <;> omega

theorem numPendingAcks (h : Flat c b k j w) : cwndNumPendingAcks w = k - j := by
  have hin := h.inside
  have hjk := h.acked
  unfold cwndNumPendingAcks countAcks
  rw [h.maxMss]
  refine (Cyclic.countP_of_iff (a := b + j) (b := b + k) (by omega) fun x hx => ?_).trans
    (Nat.add_sub_add_left b k j)
  rw [h.getAck hx]
  unfold flatAck
  split_ifs <;> simp <;> omega

theorem checkAdd_eq (h : Flat c b k j w) : cwndCheckAdd w = decide (1024 * k < c) := by
  have hin := h.inside
  have hb := h.bound
  unfold cwndCheckAdd
  rw [h.nextSeq, h.lastSeq, h.size, h.cWnd, u32Sub_of_le (by omega) (by omega),
    show 1024 * (b + k) - 1024 * b = 1024 * k by omega, Nat.mod_eq_of_lt (by omega)]
  by_cases hlt : 1024 * k < c
  · simp [hlt]
  · simp [hlt]; omega

theorem checkIn_iff (h : Flat c b k j w) (seqNum : ℕ) :
    cwndCheckIn w seqNum = true ↔ 1024 * b ≤ seqNum ∧ seqNum < 1024 * (b + k) := by
  unfold cwndCheckIn
  rw [h.nextSeq, h.lastSeq, if_neg (by omega)]
  simp

/-- The guard counts half of the slots, rounded down. -/
theorem shiftGuard_iff (h : Flat c b k j w) :
    shiftGuard w = true ↔ j = c / 1024 ∧ ¬ 1024 * k < c := by
  have hhalf : 2 * c / 1024 / 2 = c / 1024 := by omega
  unfold shiftGuard
  rw [h.numReceivedAcks, h.maxMss, hhalf, h.checkAdd_eq]
  simp

/-- Without acknowledgements the search ends at the first slot. -/
theorem lastPendingAckMss (h : Flat c b k 0 w) :
    cwndLastPendingAckMss w = some (if 0 < k then (b : ℤ) else -1) := by
  have hin := h.inside
  have hack : cwndGetAck w (b * packetSize) ≠ 1 := by
    unfold cwndGetAck
    rw [h.slotOf_eq (by omega), List.getD_eq_getElem?_getD]
    rcases Nat.lt_or_ge b (2 * c / 1024) with hlt | hge
    · rw [h.acks b hlt, Option.getD_some]
      unfold flatAck
      rw [if_neg (by omega)]
      split_ifs <;> decide
    · rw [List.getElem?_eq_none (by rw [h.lenAcks]; exact hge)]
      decide
  unfold cwndLastPendingAckMss
  rw [h.lastMss, h.nextMss, pendingScan, if_neg fun hc => hack hc.1, Option.map_some]
  congr 1
  split_ifs <;> omega

/-! ### Operations -/

theorem addPkt (h : Flat c b k j w) (hk : 1024 * k < c) (hin : 1024 * (b + k + 1) < 2 * c)
    (pkt : Packet) : Flat c b (k + 1) j (cwndAddPkt w pkt).1 := by
  have hb := h.bound
  have hjk := h.acked
  unfold cwndAddPkt
  rw [h.checkAdd_eq, if_pos (decide_eq_true hk)]
  refine ⟨h.large, hb, h.cWnd, h.size, h.lastSeq, ?_, by omega, by omega, ?_, ?_⟩
  · simp only [cwndStart]
    rw [h.nextSeq, h.size]
    simp only [packetSize]
    rw [u32_of_lt (by omega), Nat.mod_eq_of_lt (by omega)]
    omega
  · simp [cwndStart, h.lenAcks]
  · intro x hx
    simp only [cwndStart]
    have hlt : b + k < 2 * c / 1024 := by omega
    rw [List.getElem?_set, h.nextMss, h.lenAcks, if_pos hlt, h.acks x hx]
    by_cases hkx : b + k = x
    · subst hkx
      rw [if_pos rfl, flatAck, if_neg (by omega), if_pos (by omega)]
    · rw [if_neg hkx]
      unfold flatAck
      split_ifs <;> first | rfl | omega

theorem setAcks (h : Flat c b k j w) {m : ℕ} (hm : m ≤ k) :
    Flat c b k (max j m) (setAcks w b m) := by
  induction m with
  | zero => simpa [Tcp118.setAcks] using h
  | succ m ih =>
    have hs := ih (by omega)
    have hin := h.inside
    have hb := h.bound
    have hjk := h.acked
    have hcheck : cwndCheckIn (Tcp118.setAcks w b m) ((b + m) * packetSize) = true := by
      rw [hs.checkIn_iff]
      simp only [packetSize]
      omega
    unfold Tcp118.setAcks at hs hcheck ⊢
    rw [List.range'_concat, List.foldl_append, Nat.one_mul, List.foldl_cons,
      List.foldl_nil, u32_of_lt (by simp only [packetSize]; omega), cwndSetAck, if_pos hcheck,
      hs.slotOf_eq (by omega)]
    refine ⟨h.large, hb, hs.cWnd, hs.size, hs.lastSeq, hs.nextSeq, hin, by omega, ?_, ?_⟩
    · simp [hs.lenAcks]
    · intro x hx
      simp only
      rw [List.getElem?_set, hs.lenAcks, hs.acks x hx]
      by_cases hmx : b + m = x
      · subst hmx
        rw [if_pos rfl, if_pos hx, flatAck, if_pos (by omega)]
      · rw [if_neg hmx]
        unfold flatAck
        split_ifs <;> first | rfl | omega

/-- An acknowledgement of the packet at position `i`. -/
theorem setAllPrevAck (h : Flat c b k j w) {i : ℕ} (hi : i < k) :
    Flat c b k (max j (i + 1)) (cwndSetAllPrevAck w (1024 * (b + i))) := by
  have hdiv : 1024 * (b + i) / packetSize + 1 - b = i + 1 := by
    simp only [packetSize]
    omega
  have hlow : ∀ p, ¬ 1024 * (b + p) < 1024 * b := fun p => by omega
  unfold cwndSetAllPrevAck cwndLastSeq
  simp only [h.lastSeq, h.lastMss, h.nextSeq, hlow, if_false, hdiv]
  rw [if_pos (by omega)]
  exact h.setAcks (by omega)

theorem shiftWnd (h : Flat c b k j w) : Flat c (b + k) 0 0 (cwndShiftWnd w) := by
  have hdiv : w.size / packetSize = 2 * c / 1024 := h.maxMss
  refine ⟨h.large, h.bound, h.cWnd, h.size, h.nextSeq, h.nextSeq, h.inside, le_rfl, ?_, ?_⟩
  · simp [cwndShiftWnd, cwndResetAck, hdiv]
  · intro x hx
    simp only [cwndShiftWnd, cwndResetAck, hdiv, List.getElem?_replicate, if_pos hx]
    unfold flatAck
    rw [if_neg (by omega), if_neg (by omega)]

end Flat

/-! ### Behind the end of the ring -/

/-- Packets added from slot `b` on to the end of the ring and in the first `t` slots. -/
structure Lapped (N b t : ℕ) (w : Cwnd) : Prop where
  bound : 1024 * N < 2 ^ 31
  base : b < N
  inside : t < b
  cWnd : w.cWnd = 512 * N
  size : w.size = 1024 * N
  lastSeq : w.lastSeq = 1024 * b
  nextSeq : w.nextSeq = 1024 * t
  lenAcks : w.acks.length = N
  acks : ∀ x < N, w.acks[x]? = some (if x < t ∨ b ≤ x then 0 else -1)

/-- The packet in the last slot. -/
theorem Flat.lapped {N b : ℕ} {w : Cwnd} (h : Flat (512 * N) b (N - b - 1) 0 w) (hpos : 0 < b)
    (hbN : b < N) (hadd : cwndCheckAdd w = true) (pkt : Packet) :
    Lapped N b 0 (cwndAddPkt w pkt).1 := by
  have hb := h.bound
  have hslots : 2 * (512 * N) / 1024 = N := by omega
  have hlast : b + (N - b - 1) = N - 1 := by omega
  unfold cwndAddPkt
  rw [if_pos hadd]
  refine ⟨by omega, hbN, hpos, h.cWnd, ?_, h.lastSeq, ?_, ?_, ?_⟩
  · simp only [cwndStart]
    rw [h.size]
    omega
  · simp only [cwndStart]
    rw [h.nextSeq, h.size, hlast]
    simp only [packetSize]
    rw [u32_of_lt (by omega), show 1024 * (N - 1) + 1024 = 2 * (512 * N) by omega, Nat.mod_self]
  · simp [cwndStart, h.lenAcks, hslots]
  · intro x hx
    simp only [cwndStart]
    rw [List.getElem?_set, h.nextMss, hlast, h.lenAcks, hslots, h.acks x (by omega)]
    by_cases hx' : N - 1 = x
    · rw [if_pos hx', if_pos (by omega), if_pos (by omega)]
    · rw [if_neg hx']
      unfold flatAck
      split_ifs <;> first | rfl | omega

namespace Lapped

variable {N b t : ℕ} {w : Cwnd}

theorem maxMss (h : Lapped N b t w) : cwndMaxMss w = N := maxMss_of_size h.size

theorem lastMss (h : Lapped N b t w) : cwndLastMss w = b := by
  have hb := h.base
  exact lastMss_of_lastSeq h.lastSeq (by rw [h.size]; omega)

theorem nextMss (h : Lapped N b t w) : cwndNextMss w = t := by
  have hb := h.base
  have ht := h.inside
  exact nextMss_of_nextSeq h.nextSeq (by rw [h.size]; omega)

theorem slotOf_eq (h : Lapped N b t w) (x : ℕ) : slotOf w (x * packetSize) = x % N :=
  slotOf_boundary h.size x

theorem getAck (h : Lapped N b t w) {x : ℕ} (hx : x < N) :
    cwndGetAck w (x * packetSize) = if x < t ∨ b ≤ x then 0 else -1 := by
  unfold cwndGetAck
  rw [h.slotOf_eq, Nat.mod_eq_of_lt hx, List.getD_eq_getElem?_getD, h.acks x hx]
  rfl

/-- The 32-bit difference has wrapped, and `cwnd_checkAdd` compares what `2 ^ 32` leaves over a
whole number of rings. -/
theorem checkAdd_eq (h : Lapped N b t w) (hd : b ≤ 2 ^ 22 % N) (ht : 2 ^ 22 % N - b + t < N) :
    cwndCheckAdd w = decide (2 * (2 ^ 22 % N - b + t) < N) := by
  have hb := h.base
  have hbound := h.bound
  have hin := h.inside
  have hdist : u32Sub w.nextSeq w.lastSeq % w.size = 1024 * (2 ^ 22 % N - b + t) := by
    have hdiv := Nat.div_add_mod (2 ^ 22) N
    rw [h.nextSeq, h.lastSeq, h.size, u32Sub_of_lt (by omega) (by omega),
      show 1024 * t + 2 ^ 32 - 1024 * b = 1024 * (2 ^ 22 - b + t) by omega, Nat.mul_mod_mul_left,
      show 2 ^ 22 - b + t = N * (2 ^ 22 / N) + (2 ^ 22 % N - b + t) by omega, Nat.mul_add_mod,
      Nat.mod_eq_of_lt ht]
  have hiff : 1024 * (2 ^ 22 % N - b + t) ≥ 512 * N ↔ ¬ 2 * (2 ^ 22 % N - b + t) < N := by omega
  unfold cwndCheckAdd
  rw [hdist, h.cWnd, decide_eq_decide.2 hiff, decide_not, Bool.not_not]

theorem addPkt (h : Lapped N b t w) (hadd : cwndCheckAdd w = true) (ht : t + 1 < b)
    (pkt : Packet) : Lapped N b (t + 1) (cwndAddPkt w pkt).1 := by
  have hb := h.base
  have hbound := h.bound
  unfold cwndAddPkt
  rw [if_pos hadd]
  refine ⟨hbound, hb, ht, h.cWnd, h.size, h.lastSeq, ?_, ?_, ?_⟩
  · simp only [cwndStart]
    rw [h.nextSeq, h.size]
    simp only [packetSize]
    rw [u32_of_lt (by omega), Nat.mod_eq_of_lt (by omega)]
    omega
  · simp [cwndStart, h.lenAcks]
  · intro x hx
    simp only [cwndStart]
    rw [List.getElem?_set, h.nextMss, h.lenAcks, h.acks x hx]
    by_cases hx' : t = x
    · rw [if_pos hx', if_pos (by omega), if_pos (by omega)]
    · rw [if_neg hx']
      split_ifs <;> first | rfl | omega

theorem numReceivedAcks (h : Lapped N b t w) : cwndNumReceivedAcks w = 0 := by
  unfold cwndNumReceivedAcks countAcks
  rw [h.maxMss, List.countP_eq_zero]
  intro x hx
  rw [h.getAck (List.mem_range.1 hx)]
  split_ifs <;> decide

theorem numPendingAcks (h : Lapped N b t w) : cwndNumPendingAcks w = N - b + t := by
  have hb := h.base
  have hin := h.inside
  unfold cwndNumPendingAcks countAcks
  rw [h.maxMss, Cyclic.countP_pos b]
  refine Cyclic.countP_of_iff (a := 0) (b := N - b + t) (by omega) fun p hp => ?_
  rcases Cyclic.mod_cases (N := N) (x := b + p) (by omega) with ⟨hlt, hmod⟩ | ⟨hge, hmod⟩
  · rw [hmod, h.getAck hlt, if_pos (by omega)]
    simp
    omega
  · rw [hmod, h.getAck (by omega)]
    split_ifs <;> simp <;> omega

/-- The search ends at the first slot. -/
theorem lastPendingAckMss (h : Lapped N b t w) : cwndLastPendingAckMss w = some (b : ℤ) := by
  have hin := h.inside
  have hack := h.getAck h.base
  rw [if_pos (.inr le_rfl)] at hack
  unfold cwndLastPendingAckMss
  rw [h.lastMss, h.nextMss, pendingScan, if_neg (by rw [hack]; simp), Option.map_some,
    if_pos (by omega)]

end Lapped

end Tcp118
