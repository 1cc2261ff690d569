import Tcp118.Transport.LastAccepted
import Tcp118.Transport.SenderPasses
import Tcp118.Window.Slots

/-!
# The slots that `writeTCP` and `readTCP` use

* `writePacketsSlots`, `readAckPacketSlots`, `readPacketSlots`, …: the indices of the functions of
  `tcp118.c`, in order;
* `senderSlots`, `receiverSlots`, `SlotsInRange`: the indices of every event of every run;
* `Confined.step`: a window that stays in one part of its ring keeps doing so;
* `Confined.writePacketsSlots`: `writePackets`, whose index is not reduced modulo the ring, then
  does not leave it;
* `exists_unaligned`, `exists_overfull`: runs that leave the allocated slots;
* `slotsInRange_iff`: the exact condition.
-/

namespace Tcp118

/-! ### Indices -/

/-- The loop of `writePackets`. -/
def writeLoopSlots (cwndW : Cwnd) : (left : ℕ) → (i : ℤ) → List ℤ
  | 0, _ => []
  | left + 1, i =>
    getAckSlots cwndW (toU32 (i * packetSize)) ++
      (if cwndGetAck cwndW (toU32 (i * packetSize)) = 1 then [] else [i]) ++
        writeLoopSlots cwndW left (i + 1)

def writePacketsSlots (cwndW : Cwnd) : List ℤ :=
  countSlots cwndW ++ lastPendingSlots cwndW ++
    match cwndLastPendingAckMss cwndW with
    | some i => writeLoopSlots cwndW (cwndNumPendingAcks cwndW) i
    | none => []

def readAckPacketSlots (stack : Packet) (recv : Option Datagram) (cwndW : Cwnd) : List ℤ :=
  countSlots cwndW ++
    if cwndNumPendingAcks cwndW = 0 then []
    else
      match recv with
      | none => []
      | some d =>
        let buf := recvBuf stack d
        if recvLen d = packetSize then
          if getACK buf = true ∧ verifies buf = true then
            lastPendingSlots cwndW ++
              if cwndCheckIn cwndW (getACKNum buf) = true then
                setAllPrevAckSlots cwndW (getACKNum buf) ++
                  countSlots (cwndSetAllPrevAck cwndW (getACKNum buf))
              else []
          else if getACK buf = true ∧ verifies buf = true then
            setAllPrevAckSlots cwndW (u32Sub (cwndNextSeq cwndW) packetSize)
          else []
        else []

def readPacketSlots (stack : Packet) (recv : Option Datagram) (cwndR : Cwnd) : List ℤ :=
  match recv with
  | none => []
  | some d =>
    let buf := recvBuf stack d
    if getClose buf = true then []
    else
      lastPendingSlots cwndR ++
        match expSeq cwndR with
        | some seq =>
          if verifies buf = true ∧ getSeqNum buf = seq ∧ getACK buf = false then addPktSlots cwndR
          else []
        | none => []

def writeAckPacketSlots (cwndR : Cwnd) : List ℤ :=
  lastPendingSlots cwndR ++
    match ackSeq cwndR with
    | some lastSeq =>
      countSlots cwndR ++
        if cwndNumPendingAcks cwndR = 0 ∧ cwndGetStarted cwndR = true then []
        else if cwndGetStarted cwndR = true then
          countSlots cwndR ++ setAllPrevAckSlots cwndR lastSeq
        else []
    | none => []

/-- The search of `readTCP` for its pending packet. -/
def pendingPacketSlots (cwndR : Cwnd) : List ℤ :=
  lastPendingSlots cwndR ++
    match cwndLastPendingAckMss cwndR with
    | some i =>
      if i ≠ -1 then
        let nextSeq := toU32 (i * packetSize)
        let nextSeq := if nextSeq = noSeq then u32Sub (cwndNextSeq cwndR) packetSize else nextSeq
        lastPendingSlots cwndR ++ getPktSeqSlots cwndR nextSeq
      else []
    | none => []

/-- The body of `readTCP`'s loop behind `readPacket`, its condition included. -/
def deliverSlots (lost corr : Bool) (behind heap : List UInt8) (R : Receiver) : List ℤ :=
  countSlots R.cwndR ++ pendingPacketSlots R.cwndR ++ writeAckPacketSlots R.cwndR ++
    match deliver lost corr behind heap R with
    | some (R', _) => if getLast R'.pkt = false then countSlots R'.cwndR else []
    | none => []

/-- The indices an event of `writeTCP` uses. -/
def senderSlots (pkts : List Packet) : SenderEvent → Sender → List ℤ
  | .step _ _, S =>
    match S.phase with
    | .top => countSlots S.cwndW
    | .fill => if S.i < pkts.length then addPktSlots S.cwndW else []
    | .shift => countSlots S.cwndW ++ writePacketsSlots S.shiftWnd.cwndW
    | .readAck => countSlots S.cwndW
    | _ => []
  | .recv stack recv, S =>
    match S.phase with
    | .recvAck => readAckPacketSlots stack recv S.cwndW
    | _ => []

/-- The indices an event of `readTCP` uses. -/
def receiverSlots : ReceiverEvent → Receiver → List ℤ
  | .step lost corr behind heap, R =>
    match R.phase with
    | .top => countSlots R.cwndR
    | .deliver => deliverSlots lost corr behind heap R
    | _ => []
  | .recv stack recv, R =>
    match R.phase with
    | .read => readPacketSlots stack recv R.cwndR
    | _ => []

/-- In every run of `writeTCP` and of `readTCP`, all indices lie below the number of slots that
`cwnd_init` allocates. -/
def SlotsInRange (cWnd : ℕ) : Prop :=
  (∀ pkts S event, (senderSystem pkts cWnd).Reachable S →
    Allocated (2 * cWnd / packetSize) (senderSlots pkts event S)) ∧
  ∀ R event, (receiverSystem cWnd).Reachable R →
    Allocated (2 * cWnd / packetSize) (receiverSlots event R)

/-! ### Functions that keep to the ring -/

namespace Whole

variable {N : ℕ} {w : Cwnd}

theorem readAckPacketSlots (h : Whole N w) (stack : Packet) (recv : Option Datagram)
    (hack : ∀ seqNum, Whole N (cwndSetAllPrevAck w seqNum)) :
    Allocated N (readAckPacketSlots stack recv w) := by
  unfold Tcp118.readAckPacketSlots
  rw [allocated_append]
  refine ⟨h.count, ?_⟩
  split_ifs
  · exact allocated_nil
  · cases recv with
    | none => exact allocated_nil
    | some d =>
      dsimp only
      split_ifs
      · rw [allocated_append, allocated_append]
        exact ⟨h.lastPending, h.setAllPrevAckSlots _, (hack _).count⟩
      · rw [List.append_nil]
        exact h.lastPending
      · exact allocated_nil
      · exact allocated_nil

theorem readPacketSlots (h : Whole N w) (stack : Packet) (recv : Option Datagram) :
    Allocated N (readPacketSlots stack recv w) := by
  unfold Tcp118.readPacketSlots
  cases recv with
  | none => exact allocated_nil
  | some d =>
    dsimp only
    split_ifs
    · exact allocated_nil
    · rw [allocated_append]
      refine ⟨h.lastPending, ?_⟩
      split
      · split_ifs
        · exact h.addPktSlots
        · exact allocated_nil
      · exact allocated_nil

theorem writeAckPacketSlots (h : Whole N w) : Allocated N (writeAckPacketSlots w) := by
  unfold Tcp118.writeAckPacketSlots
  rw [allocated_append]
  refine ⟨h.lastPending, ?_⟩
  split
  · rw [allocated_append]
    refine ⟨h.count, ?_⟩
    split_ifs
    · exact allocated_nil
    · rw [allocated_append]
      exact ⟨h.count, h.setAllPrevAckSlots _⟩
    · exact allocated_nil
  · exact allocated_nil

end Whole

/-! ### Confined windows -/

namespace Confined

variable {N β k : ℕ} {w w' : Cwnd}

/-- Every step keeps the window in one part of its ring. -/
theorem step (h : Confined N β k w) (hstep : WindowStep w w') :
    ∃ β' k', Confined N β' k' w' := by
  cases hstep with
  | same => exact ⟨β, k, h⟩
  | add buf hadd => exact ⟨β, k + 1, h.addPkt hadd buf⟩
  | ack seqNum => exact ⟨β, k, h.setAllPrevAck seqNum⟩
  | shift hg =>
    have hfull : cwndCheckAdd w = false := by
      unfold shiftGuard at hg
      simp only [Bool.and_eq_true, beq_iff_eq] at hg
      exact hg.2
    exact ⟨_, 0, h.shiftWnd hfull⟩

theorem nextMss (h : Confined N β k w) : cwndNextMss w = (β + k) % N := by
  have hlt : (β + k) % N < N := Nat.mod_lt _ (by have := h.large; omega)
  exact nextMss_of_nextSeq h.nextSeq (by rw [h.size]; omega)

/-- The search passes over acknowledged packets only, and ends inside the window. -/
theorem pendingScan (h : Confined N β k w) (fuel : ℕ) :
    ∀ p i, p ≤ k → (∀ x, β ≤ x → x < β + p → cwndGetAck w (x * packetSize) = 1) →
      pendingScan w fuel ((β + p) % N) = some i →
      ∃ q, q ≤ k ∧ i = (β + q) % N ∧
        ∀ x, β ≤ x → x < β + q → cwndGetAck w (x * packetSize) = 1 := by
  have hle := h.le_ring
  induction fuel with
  | zero => exact fun p i _ _ hs => nomatch hs
  | succ fuel ih =>
    intro p i hp hbefore hs
    rw [Tcp118.pendingScan, h.nextMss, h.whole.maxMss, Cyclic.pos_succ] at hs
    split_ifs at hs with hc
    · obtain ⟨hack, hne⟩ := hc
      have hlt : p < k := by
        rcases Nat.lt_or_ge p k with hlt | hge
        · exact hlt
        · exact absurd (by rw [show p = k by omega]) hne
      rw [Nat.mod_eq_of_lt (by omega)] at hack
      refine ih (p + 1) i (by omega) (fun x hx hx' => ?_) hs
      rcases Nat.lt_or_ge x (β + p) with hxp | hxp
      · exact hbefore x hx hxp
      · rwa [show x = β + p by omega]
    · exact ⟨p, hp, (Option.some.inj hs).symm, hbefore⟩

/-- Behind acknowledged packets only the rest of the window can be pending. -/
theorem numPendingAcks_le (h : Confined N β k w) {q : ℕ}
    (hbefore : ∀ x, β ≤ x → x < β + q → cwndGetAck w (x * packetSize) = 1) :
    cwndNumPendingAcks w ≤ k - q := by
  have hle := h.le_ring
  have hcount := Cyclic.countP_interval (N := N) (β + q) (β + k)
  rw [Nat.min_eq_left hle, Nat.add_sub_add_left] at hcount
  unfold cwndNumPendingAcks countAcks
  rw [h.whole.maxMss, ← hcount]
  refine List.countP_mono_left fun x hx hzero => ?_
  have hxN := List.mem_range.1 hx
  rw [beq_iff_eq] at hzero
  have hentry := (getAck_boundary_iff h.size hxN (by decide)).1 hzero
  obtain ⟨hge, hlt⟩ := h.pending x hentry
  rw [decide_eq_true_iff]
  refine ⟨?_, hlt⟩
  by_contra hnot
  rw [hbefore x hge (by omega)] at hzero
  exact absurd hzero (by decide)

/-- `writePackets` starts inside the window, and the pending packets end inside it. -/
theorem lastPendingAckMss (h : Confined N β k w) {i : ℤ}
    (hi : cwndLastPendingAckMss w = some i) :
    i = -1 ∧ cwndNumPendingAcks w = 0 ∨
      ∃ x : ℕ, i = x ∧ x < N ∧ x + cwndNumPendingAcks w ≤ N := by
  have hle := h.le_ring
  have hβ := h.lt_ring
  have hlast : cwndLastMss w = (β + 0) % N := by
    rw [Nat.add_zero, Nat.mod_eq_of_lt hβ]
    exact lastMss_of_lastSeq h.lastSeq (by rw [h.size]; omega)
  unfold cwndLastPendingAckMss at hi
  obtain ⟨s, hs, rfl⟩ := Option.map_eq_some_iff.1 hi
  rw [hlast] at hs
  obtain ⟨q, hq, rfl, hbefore⟩ := h.pendingScan _ 0 s (Nat.zero_le k)
    (fun x hx hx' => absurd hx' (by omega)) hs
  have hcount := h.numPendingAcks_le hbefore
  rw [h.nextMss]
  by_cases hqk : q = k
  · subst hqk
    rw [if_neg (by simp)]
    exact .inl ⟨rfl, by omega⟩
  · have hlt : β + q < N := by omega
    rw [Nat.mod_eq_of_lt hlt]
    split_ifs with hne
    · exact .inr ⟨_, rfl, hlt, by omega⟩
    · -- a full ring cannot end where it starts
      exfalso
      have hin := h.inside
      have hN := h.large
      unfold secondStart at hin
      rcases Cyclic.mod_cases (N := N) (x := β + k) (by omega) with ⟨_, hmod⟩ | ⟨_, hmod⟩ <;> omega

/-- The index of `writePackets` stays in the ring. -/
theorem writePacketsSlots (h : Confined N β k w) : Allocated N (writePacketsSlots w) := by
  have hloop : ∀ left i : ℕ, i + left ≤ N → Allocated N (writeLoopSlots w left (i : ℤ)) := by
    intro left
    induction left with
    | zero => exact fun i _ => allocated_nil
    | succ left ih =>
      intro i hi
      have hrest := ih (i + 1) (by omega)
      rw [Nat.cast_add, Nat.cast_one] at hrest
      rw [writeLoopSlots, allocated_append, allocated_append]
      refine ⟨⟨h.whole.getAck _, ?_⟩, hrest⟩
      split_ifs
      · exact allocated_nil
      · rw [allocated_singleton]
        omega
  unfold Tcp118.writePacketsSlots
  rw [allocated_append, allocated_append]
  refine ⟨⟨h.whole.count, h.whole.lastPending⟩, ?_⟩
  cases hi : cwndLastPendingAckMss w with
  | none => exact allocated_nil
  | some i =>
    dsimp only
    rcases h.lastPendingAckMss hi with ⟨-, hzero⟩ | ⟨x, rfl, -, hx⟩
    · rw [hzero]
      exact allocated_nil
    · exact hloop _ _ hx

/-- The pending packet is looked up in the ring. -/
theorem pendingPacketSlots (h : Confined N β k w) : Allocated N (pendingPacketSlots w) := by
  have hb := h.bound
  unfold Tcp118.pendingPacketSlots
  rw [allocated_append]
  refine ⟨h.whole.lastPending, ?_⟩
  cases hi : cwndLastPendingAckMss w with
  | none => exact allocated_nil
  | some i =>
    dsimp only
    rcases h.lastPendingAckMss hi with ⟨rfl, -⟩ | ⟨x, rfl, hx, -⟩
    · exact allocated_nil
    · have hseq : toU32 ((x : ℤ) * packetSize) = 1024 * x := by
        rw [← Nat.cast_mul, toU32_natCast (by simp only [packetSize]; omega), Nat.mul_comm,
          packetSize]
      have hne : 1024 * x ≠ noSeq := by
        rw [noSeq, toU32_neg_one]
        omega
      rw [if_pos (by omega), hseq, if_neg hne, allocated_append]
      exact ⟨h.whole.lastPending, h.whole.getPktSeqSlots (by omega)⟩

end Confined

/-! ### Runs inside the ring -/

section Safe

variable {N β k : ℕ}

theorem windowStep_of_writeAckPacket {lost corr : Bool} {w w' : Cwnd} {out : Option Packet}
    {ret : Bool} (h : writeAckPacket lost corr w = some (w', out, ret)) : WindowStep w w' := by
  unfold writeAckPacket at h
  obtain ⟨lastSeq, -, h⟩ := Option.bind_eq_some_iff.1 h
  dsimp only at h
  by_cases hdup : cwndNumPendingAcks w = 0 ∧ cwndGetStarted w = true
  · rw [if_pos hdup, Option.pure_def, Option.some.injEq, Prod.mk.injEq] at h
    rw [← h.1]
    exact .same
  · by_cases hstart : cwndGetStarted w = true
    · rw [if_neg hdup, if_pos hstart, Option.pure_def, Option.some.injEq, Prod.mk.injEq] at h
      rw [← h.1]
      exact .ack lastSeq
    · rw [if_neg hdup, if_neg hstart, Option.pure_def, Option.some.injEq, Prod.mk.injEq] at h
      rw [← h.1]
      exact .same

theorem windowStep_of_deliver {lost corr : Bool} {behind heap : List UInt8} {R R' : Receiver}
    {out : Option Packet} (h : deliver lost corr behind heap R = some (R', out)) :
    WindowStep R.cwndR R'.cwndR := by
  obtain ⟨⟨ret, hw⟩, -⟩ := deliver_spec h
  exact windowStep_of_writeAckPacket hw

/-- The step lemma. -/
theorem windowStep_of_receiverNext {event : ReceiverEvent} {R R' : Receiver}
    (h : receiverNext event R = some R') : WindowStep R.cwndR R'.cwndR := by
  cases event with
  | step lost corr behind heap =>
    obtain ⟨⟨R'', out⟩, hstep, rfl⟩ := Option.map_eq_some_iff.1 h
    unfold receiverStep at hstep
    split at hstep
    · cases hstep
      dsimp only
      split_ifs with hg
      · exact .shift hg
      · exact .same
    · exact windowStep_of_deliver hstep
    · cases hstep
      exact .same
    · cases hstep
  | recv stack recv =>
    change receiverRecv stack recv R = some R' at h
    unfold receiverRecv at h
    split at h
    · obtain ⟨⟨w', r⟩, hread, rfl⟩ := Option.map_eq_some_iff.1 h
      have hw' := readPacket_accepted hread
      dsimp only
      cases hacc : accepted stack recv R.cwndR with
      | none =>
        rw [hacc] at hw'
        rw [hw']
        exact .same
      | some pkt =>
        rw [hacc] at hw'
        rw [hw']
        exact .add pkt (accepted_eq_some hacc).2
    · cases h
      exact .same
    · cases h

theorem Confined.senderSlots {S : Sender} (h : Confined N β k S.cwndW) (pkts : List Packet)
    (event : SenderEvent) : Allocated N (senderSlots pkts event S) := by
  cases event with
  | step lost corr =>
    unfold Tcp118.senderSlots
    dsimp only
    split
    · exact h.whole.count
    · split_ifs
      · exact h.whole.addPktSlots
      · exact allocated_nil
    · obtain ⟨β', k', h'⟩ := h.step (windowStep_shiftWnd S)
      rw [allocated_append]
      exact ⟨h.whole.count, h'.writePacketsSlots⟩
    · exact h.whole.count
    · exact allocated_nil
  | recv stack recv =>
    unfold Tcp118.senderSlots
    dsimp only
    split
    · exact h.whole.readAckPacketSlots stack recv fun seqNum => (h.setAllPrevAck seqNum).whole
    · exact allocated_nil

theorem Confined.receiverSlots {R : Receiver} (h : Confined N β k R.cwndR)
    (event : ReceiverEvent) : Allocated N (receiverSlots event R) := by
  cases event with
  | step lost corr behind heap =>
    unfold Tcp118.receiverSlots
    dsimp only
    split
    · exact h.whole.count
    · unfold deliverSlots
      rw [allocated_append, allocated_append, allocated_append]
      refine ⟨⟨⟨h.whole.count, h.pendingPacketSlots⟩, h.whole.writeAckPacketSlots⟩, ?_⟩
      cases hd : deliver lost corr behind heap R with
      | none => exact allocated_nil
      | some r =>
        obtain ⟨β', k', h'⟩ := h.step (windowStep_of_deliver hd)
        dsimp only
        split_ifs
        · exact h'.whole.count
        · exact allocated_nil
    · exact allocated_nil
  | recv stack recv =>
    unfold Tcp118.receiverSlots
    dsimp only
    split
    · exact h.whole.readPacketSlots stack recv
    · exact allocated_nil

/-- A whole ring with a small remainder is never left. -/
theorem slotsInRange_of (hN : 2 ≤ N) (hb : 1024 * N < 2 ^ 31) (hd : 2 * (2 ^ 22 % N) < N) :
    SlotsInRange (512 * N) := by
  have hslots : 2 * (512 * N) / packetSize = N := by simp only [packetSize]; omega
  constructor
  · intro pkts S event hreach
    obtain ⟨β, k, h⟩ := hreach.invariant (I := fun S => ∃ β k, Confined N β k S.cwndW)
      (by
        rintro _ ⟨heap, rfl⟩
        exact ⟨0, 0, confined_init hN hb hd heap⟩)
      (by
        rintro S₁ S₂ - ⟨β, k, h⟩ ⟨event, -, hnext⟩
        exact h.step (windowStep_of_senderNext hnext))
    rw [hslots]
    exact h.senderSlots pkts event
  · intro R event hreach
    obtain ⟨β, k, h⟩ := hreach.invariant (I := fun R => ∃ β k, Confined N β k R.cwndR)
      (by
        rintro _ ⟨heap, rfl⟩
        exact ⟨0, 0, confined_init hN hb hd heap⟩)
      (by
        rintro R₁ R₂ - ⟨β, k, h⟩ ⟨event, -, hnext⟩
        exact h.step (windowStep_of_receiverNext hnext))
    rw [hslots]
    exact h.receiverSlots event

end Safe

/-! ### Runs that leave the ring -/

section Unsafe

variable {c N : ℕ} {pkts : List Packet} {S : Sender}

theorem senderSlots_fill (hphase : S.phase = .fill) (hi : S.i < pkts.length) (lost corr : Bool) :
    senderSlots pkts (.step lost corr) S = addPktSlots S.cwndW := by
  unfold senderSlots
  simp only [hphase, hi, if_true]

theorem senderSlots_shift (hphase : S.phase = .shift) (lost corr : Bool) :
    senderSlots pkts (.step lost corr) S =
      countSlots S.cwndW ++ writePacketsSlots S.shiftWnd.cwndW := by
  unfold senderSlots
  simp only [hphase]

/-- A ring with a part of a slot at its end: the second window is filled up to that part. -/
theorem exists_unaligned (pkts : List Packet) (hlarge : 1024 ≤ c) (hb : 2 * c < 2 ^ 31)
    (hpart : 2 * c % 1024 ≠ 0) (hlen : 2 * c / 1024 < pkts.length) :
    ∃ S, (senderSystem pkts c).Reachable S ∧
      ¬ Allocated (2 * c / 1024) (senderSlots pkts (.step true false) S) := by
  obtain ⟨S, h, hphase, hS, hi⟩ := exists_second_window hlarge hb (by omega : _ < pkts.length)
  obtain ⟨S', h', hphase', hS', hi'⟩ := exists_added
    (P := fun k w => Flat c ((c + 1023) / 1024) k 0 w) (m := 2 * c / 1024 - (c + 1023) / 1024)
    (fun k w pkt hk hw => ⟨by rw [hw.checkAdd_eq]; exact decide_eq_true (by omega),
      hw.addPkt (by omega) (by omega) pkt⟩)
    (2 * c / 1024 - (c + 1023) / 1024) 0 S (by omega) h hphase hS (by omega)
  rw [Nat.zero_add] at hS'
  refine ⟨S', h', fun hall => ?_⟩
  have hadd : cwndCheckAdd S'.cwndW = true := by
    rw [hS'.checkAdd_eq]
    exact decide_eq_true (by omega)
  rw [senderSlots_fill hphase' (by omega), addPktSlots, if_pos hadd, allocated_singleton,
    hS'.nextMss] at hall
  omega

/-- Behind the end of the ring the index of `writePackets` runs on. -/
theorem Lapped.mem_writePacketsSlots {b t : ℕ} {w : Cwnd} (h : Lapped N b (t + 1) w) :
    (N : ℤ) ∈ writePacketsSlots w := by
  have hb := h.base
  have hbound := h.bound
  have hpos : 0 < b := Nat.lt_of_le_of_lt (Nat.zero_le _) h.inside
  have hloop : ∀ d left i, i + d = N → d < left → (N : ℤ) ∈ writeLoopSlots w left (i : ℤ) := by
    intro d
    induction d with
    | zero =>
      intro left i hi hlt
      obtain ⟨left, rfl⟩ := Nat.exists_eq_succ_of_ne_zero (by omega : left ≠ 0)
      obtain rfl : i = N := by omega
      have hack : cwndGetAck w (toU32 ((i : ℤ) * packetSize)) ≠ 1 := by
        have hzero := h.getAck (x := 0) (by omega)
        rw [if_pos (.inl (Nat.succ_pos t))] at hzero
        unfold cwndGetAck at hzero ⊢
        rw [h.slotOf_eq, Nat.zero_mod] at hzero
        rw [← Nat.cast_mul, toU32_natCast (by simp only [packetSize]; omega), h.slotOf_eq,
          Nat.mod_self, hzero]
        decide
      rw [writeLoopSlots, if_neg hack]
      simp
    | succ d ih =>
      intro left i hi hlt
      obtain ⟨left, rfl⟩ := Nat.exists_eq_succ_of_ne_zero (by omega : left ≠ 0)
      have hrest := ih left (i + 1) (by omega) (by omega)
      rw [Nat.cast_add, Nat.cast_one] at hrest
      rw [writeLoopSlots]
      exact List.mem_append_right _ hrest
  unfold writePacketsSlots
  rw [h.lastPendingAckMss, h.numPendingAcks]
  exact List.mem_append_right _ (hloop (N - b) _ b (by omega) (by omega))

/-- A whole ring with a large remainder: the second window takes a packet behind the end of the
ring, and `writePackets` does not follow it there. -/
theorem exists_overfull (pkts : List Packet) (hN : 2 ≤ N) (hb : 1024 * N < 2 ^ 31)
    (hd : N ≤ 2 * (2 ^ 22 % N)) (hlen : pkts.length = N + 1) :
    ∃ S, (senderSystem pkts (512 * N)).Reachable S ∧
      ¬ Allocated N (senderSlots pkts (.step true false) S) := by
  have hdN := Nat.mod_lt (2 ^ 22) (by omega : 0 < N)
  have hceil : (512 * N + 1023) / 1024 = (N + 1) / 2 := by omega
  have hN' : 3 ≤ N := by
    rcases Nat.lt_or_ge N 3 with hlt | hge
    · obtain rfl : N = 2 := by omega
      norm_num at hd
    · exact hge
  obtain ⟨S, h, hphase, hS, hi⟩ := exists_second_window (c := 512 * N) (by omega) (by omega)
    (by omega : _ < pkts.length)
  rw [hceil] at hS hi
  -- up to the last slot
  obtain ⟨S₁, h₁, hphase₁, hS₁, hi₁⟩ := exists_added
    (P := fun k w => Flat (512 * N) ((N + 1) / 2) k 0 w) (m := N - (N + 1) / 2 - 1)
    (fun k w pkt hk hw => ⟨by rw [hw.checkAdd_eq]; exact decide_eq_true (by omega),
      hw.addPkt (by omega) (by omega) pkt⟩)
    (N - (N + 1) / 2 - 1) 0 S (by omega) h hphase hS (by omega)
  rw [Nat.zero_add] at hS₁
  have hadd₁ : cwndCheckAdd S₁.cwndW = true := by
    rw [hS₁.checkAdd_eq]
    exact decide_eq_true (by omega)
  -- the last slot, and the first one again
  obtain ⟨S₂, h₂, hphase₂, hS₂, hi₂⟩ := exists_added
    (P := fun k w => if k = 0 then w = S₁.cwndW else Lapped N ((N + 1) / 2) (k - 1) w) (m := 2)
    (fun k w pkt hk hw => by
      rcases (by omega : k = 0 ∨ k = 1) with rfl | rfl
      · rw [if_pos rfl] at hw
        rw [hw, if_neg (by omega)]
        exact ⟨hadd₁, hS₁.lapped (by omega) (by omega) hadd₁ pkt⟩
      · rw [if_neg (by omega)] at hw
        rw [if_neg (by omega)]
        have hadd : cwndCheckAdd w = true := by
          rw [hw.checkAdd_eq (by omega) (by omega)]
          exact decide_eq_true (by omega)
        exact ⟨hadd, hw.addPkt hadd (by omega) pkt⟩)
    2 0 S₁ le_rfl h₁ hphase₁ (by rw [if_pos rfl]) (by omega)
  rw [if_neg (by omega)] at hS₂
  have hguard : shiftGuard S₂.cwndW = false := by
    unfold shiftGuard
    rw [hS₂.numReceivedAcks, hS₂.maxMss]
    have hne : (0 == N / 2) = false := beq_eq_false_iff_ne.2 (by omega)
    rw [hne, Bool.false_and]
  have hsame : ({ S₂ with phase := .shift } : Sender).shiftWnd = { S₂ with phase := .shift } := by
    unfold Sender.shiftWnd
    rw [if_neg (by rw [hguard]; decide)]
  refine ⟨_, reachable_shift h₂ hphase₂ (.inr (by omega)), fun hall => ?_⟩
  rw [senderSlots_shift rfl, hsame, allocated_append] at hall
  have hout := hall.2 _ hS₂.mem_writePacketsSlots
  omega

end Unsafe

/-- **All indices lie in the allocated slots, in every run, exactly when `c_wnd` is a multiple of
half of `PACKET_SIZE` and `2 ^ 32 % (2 * c_wnd) < c_wnd`.** -/
theorem slotsInRange_iff {cWnd : ℕ} (hlarge : 1024 ≤ cWnd) (hb : 2 * cWnd < 2 ^ 31) :
    SlotsInRange cWnd ↔ 2 * cWnd % packetSize = 0 ∧ 2 ^ 32 % (2 * cWnd) < cWnd := by
  have hrem : ∀ N, 2 ^ 32 % (2 * (512 * N)) = 1024 * (2 ^ 22 % N) := by
    intro N
    rw [show (2 : ℕ) ^ 32 = 1024 * 2 ^ 22 by norm_num, show 2 * (512 * N) = 1024 * N by omega,
      Nat.mul_mod_mul_left]
  constructor
  · intro hall
    have hpart : 2 * cWnd % packetSize = 0 := by
      by_contra hpart
      obtain ⟨S, h, hout⟩ := exists_unaligned
        (List.replicate (2 * cWnd / 1024 + 1) zeroPacket) hlarge hb hpart
        (by rw [List.length_replicate]; omega)
      exact hout (hall.1 _ S _ h)
    obtain ⟨N, rfl⟩ : ∃ N, cWnd = 512 * N :=
      ⟨cWnd / 512, by simp only [packetSize] at hpart; omega⟩
    refine ⟨hpart, ?_⟩
    rw [hrem]
    by_contra hd
    obtain ⟨S, h, hout⟩ := exists_overfull (List.replicate (N + 1) zeroPacket)
      (by omega : 2 ≤ N) (by omega) (by omega) (by rw [List.length_replicate])
    have hin := hall.1 _ S (.step true false) h
    rw [show 2 * (512 * N) / packetSize = N by simp only [packetSize]; omega] at hin
    exact hout hin
  · rintro ⟨hpart, hd⟩
    obtain ⟨N, rfl⟩ : ∃ N, cWnd = 512 * N :=
      ⟨cWnd / 512, by simp only [packetSize] at hpart; omega⟩
    rw [hrem] at hd
    exact slotsInRange_of (by omega) (by omega) (by omega)

/-- The window of the client. -/
theorem slotsInRange_4096 : SlotsInRange 4096 :=
  (slotsInRange_iff (by norm_num) (by norm_num)).2 (by norm_num [packetSize])

/-- A window of 1100 bytes has two slots; the packet of a third one is stored behind them. -/
theorem not_slotsInRange_1100 : ¬ SlotsInRange 1100 := by
  intro hall
  obtain ⟨S, h, hout⟩ := exists_unaligned (c := 1100)
    (packetsOf (List.replicate 2025 65) 1100 2025)
    (by norm_num) (by norm_num) (by norm_num) (by rw [length_packetsOf]; decide)
  exact hout (hall.1 _ S _ h)

end Tcp118
