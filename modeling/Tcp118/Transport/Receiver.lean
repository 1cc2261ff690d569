import Tcp118.Transport.ReceiverWindow
import Tcp118.Protocol.Basic

/-!
# `readTCP`

The receiver as a machine whose steps are the pieces of `readTCP` between two calls of the socket.

* `Receiver`, `receiverInit`, `receiverStep`, `receiverRecv`: the machine;
* `Shape.deliver_of_pending`, `Shape.deliver_of_none`: what the end of a pass does;
* `expSeq_eq`, `readPacket_some`, `prevSeq_eq`: its functions on a window over a numbered list;
* `ReceiverInv`: the invariant of the loops;
* `ReceiverInv.step`: the step lemma, with what the step does (`ReceiverEffect`);
* `ReceiverInv.recv_some`, `ReceiverInv.recv_read`: what a datagram does.

No socket call stands between the acknowledgement of a packet and the copy of its body, so the two
are one step.
-/

namespace Tcp118

/-- Where `readTCP` is: at the start of its loop (`top`), in the `recvfrom` of `readPacket`, behind
`readPacket` (`deliver`), before `writeClosePacket`, in the `recvfrom` of `readClosePacket`, and
after the return. -/
inductive ReceiverPhase
  | top
  | read
  | deliver
  | close
  | readClose
  | exited
  deriving DecidableEq

/-- The local state of `readTCP`.  The packets whose bodies have been appended to `msgBody`,
`appended`, are no variable of the source. -/
structure Receiver where
  phase : ReceiverPhase
  cwndR : Cwnd
  pkt : Option Packet
  message : Message
  appended : List Packet

/-- `readTCP` before its loop. -/
def receiverInit (cWnd : ℕ) (heap : ℕ → Packet) : Receiver :=
  ⟨.top, cwndInit cWnd heap, none, Message.empty, []⟩

/-- The body of the loop from `readPacket` on, up to the next socket call behind the
acknowledgement; `behind` and `heap` are the bytes behind the packet and behind its duplicated
body. -/
def deliver (lost corr : Bool) (behind heap : List UInt8) (R : Receiver) :
    Option (Receiver × Option Packet) := do
  let pkt ← pendingPacket R.cwndR
  let (cwndR, out, _) ← writeAckPacket lost corr R.cwndR
  let R := match pkt with
    | some pkt =>
      { R with
        message := appendBody R.message pkt behind heap
        appended := R.appended ++ [pkt] }
    | none => R
  let again := getLast pkt = false ∧ cwndNumPendingAcks cwndR = 0
  return ({ R with cwndR := cwndR, pkt := pkt, phase := if again then .top else .close }, out)

/-- One step of `readTCP` outside `recvfrom`, with the datagram it sends. -/
def receiverStep (lost corr : Bool) (behind heap : List UInt8) (R : Receiver) :
    Option (Receiver × Option Packet) :=
  match R.phase with
  | .top =>
    let cwndR := if shiftGuard R.cwndR then cwndShiftWnd R.cwndR else R.cwndR
    some ({ R with
      cwndR := cwndR
      phase := if getLast R.pkt = false then .read else .deliver }, none)
  | .deliver => deliver lost corr behind heap R
  | .close => some ({ R with phase := .readClose }, writeClosePacket lost corr)
  | _ => none

/-- The return of `recvfrom`. -/
def receiverRecv (stack : Packet) (recv : Option Datagram) (R : Receiver) : Option Receiver :=
  match R.phase with
  | .read =>
    (readPacket stack recv R.cwndR).map fun r => { R with cwndR := r.1, phase := .deliver }
  | .readClose => some { R with phase := if readClosePacket stack recv then .exited else .close }
  | _ => none

/-- The side of the transfer a state belongs to. -/
def Receiver.side (R : Receiver) : Protocol.ReceiverSide :=
  match R.phase with
  | .top => .waiting
  | .read => .waiting
  | .deliver => if cwndNumPendingAcks R.cwndR = 0 then .waiting else .holding
  | .close => .closing
  | .readClose => .closing
  | .exited => .left

theorem Receiver.side_eq_left_iff {R : Receiver} : R.side = .left ↔ R.phase = .exited := by
  unfold Receiver.side
  cases R.phase with
  | deliver =>
    constructor
    · intro h
      split_ifs at h
    · intro h
      cases h
  | _ => simp

/-- The receiver is in its receive loop. -/
theorem Receiver.receiving_iff {R : Receiver} : R.side = .waiting ∨ R.side = .holding ↔
    R.phase = .top ∨ R.phase = .read ∨ R.phase = .deliver := by
  unfold Receiver.side
  cases R.phase with
  | deliver => simp [em]
  | _ => simp

/-! ### The functions of the loop -/

section Functions

variable {n base acked added : ℕ} {w : Cwnd}

/-- The number of a packet is that of its slot. -/
theorem mul_slot {x : ℕ} (hx : base ≤ x) :
    1024 * ((base % (2 * n) + (x - base)) % (2 * n)) = seqOf n x := by
  rw [Indexed.slot x hx, seqOf, Nat.mul_comm, packetSize]

/-- Between packets `readPacket` expects the next one. -/
theorem expSeq_eq (h : Indexed n base added added w) : expSeq w = some (seqOf n added) := by
  rw [h.shape.expSeq_eq, h.nextSeq]

/-- `readPacket` adds the packet it expects and ignores anything else. -/
theorem readPacket_some (h : Indexed n base added added w) {stack pkt : Packet} {d : Datagram}
    (hbuf : recvBuf stack d = pkt) :
    ∃ r, readPacket stack (some d) w =
      some (if getClose pkt = false ∧ verifies pkt = true ∧ getSeqNum pkt = seqOf n added ∧
        getACK pkt = false then (cwndAddPkt w pkt).1 else w, r) := by
  rw [← h.nextSeq]
  exact h.shape.readPacket_some hbuf

/-- Between packets the number before `next_seq` is that of the last packet; the 32-bit difference
wraps with the ring. -/
theorem prevSeq_eq (h : Indexed n base acked added w) (hpos : 0 < added) :
    u32Sub (seqOf n added) packetSize % (1024 * (2 * n)) = seqOf n (added - 1) := by
  obtain ⟨x, rfl⟩ : ∃ x, added = x + 1 := ⟨added - 1, by omega⟩
  have hx : x % (2 * n) < 2 * n := Nat.mod_lt _ (by have := h.pos; omega)
  have hprev := (prevSeq_eq_iff h.shape.bound hx).2 (.inr h.ring)
  rw [Nat.mod_add_mod] at hprev
  rw [Nat.add_sub_cancel]
  unfold seqOf
  rw [Nat.mul_comm _ packetSize, Nat.mul_comm _ packetSize]
  exact hprev

end Functions

/-! ### The invariant -/

/-- What a phase adds: `readPacket` is reached with room for a packet, and behind it the window
holds at most the next packet of the list. -/
def ReceiverPhase.Sound (pkts : List Packet) (n base taken added : ℕ) (R : Receiver) :
    ReceiverPhase → Prop
  | .top => added = taken ∧ getLast R.pkt = false
  | .read => added = taken ∧ taken < base + n
  | .deliver => added = taken ∨ added = taken + 1 ∧
      ∃ pkt, pkts[taken]? = some pkt ∧ R.cwndR.packets[taken % (2 * n)]? = some pkt
  | _ => added = taken

/-- The invariant of `readTCP`: its window is over the list, with the packets before `added` added
and the appended ones read. -/
structure ReceiverInv (pkts : List Packet) (n base added : ℕ) (R : Receiver) : Prop where
  window : Indexed n base R.appended.length added R.cwndR
  appended : R.appended = pkts.take R.appended.length
  started : R.cwndR.start = decide (0 < added)
  sound : R.phase.Sound pkts n base R.appended.length added R

/-- What one step of the receiver does to the transfer. -/
inductive ReceiverEffect (pkts : List Packet) (n : ℕ) (lost corr : Bool) (R R' : Receiver) :
    Option Packet → Prop
  | quiet : R'.side = R.side → R'.appended = R.appended →
      ReceiverEffect pkts n lost corr R R' none
  | deliver (pkt : Packet) : R.side = .holding →
      pkts[R.appended.length]? = some pkt → R'.appended = R.appended ++ [pkt] →
      R'.side = (if getLast (some pkt) = true then .closing else .waiting) →
      ReceiverEffect pkts n lost corr R R' (if lost then none else
        some (if corr then zeroPacket else ackPacket (seqOf n R.appended.length)))
  | ackAgain : R.side = .waiting → R'.side = .waiting → 0 < R.appended.length →
      R'.appended = R.appended →
      ReceiverEffect pkts n lost corr R R' (some (ackPacket (seqOf n (R.appended.length - 1))))
  | sendClose (out : Option Packet) : R.side = .closing → R'.side = .closing →
      R'.appended = R.appended →
      out = none ∨ out = some closePacket ∨ out = some zeroPacket →
      ReceiverEffect pkts n lost corr R R' out

theorem receiverInv_init {n : ℕ} (pkts : List Packet) (hn : 0 < n) (hring : 2 * n ∣ 2 ^ 22)
    (hb : 1024 * (2 * n) < 2 ^ 31) (heap : ℕ → Packet) :
    ReceiverInv pkts n 0 0 (receiverInit (1024 * n) heap) where
  window := indexed_init hn hring hb heap
  appended := rfl
  started := rfl
  sound := ⟨rfl, rfl⟩

section Steps

variable {pkts : List Packet} {n base added : ℕ} {R R' : Receiver} {out : Option Packet}

theorem ReceiverInv.length_le (h : ReceiverInv pkts n base added R) :
    R.appended.length ≤ pkts.length := by
  have hlen := congrArg List.length h.appended
  rw [List.length_take] at hlen
  omega

/-- The invariant does not depend on the phase but for what the phase adds. -/
theorem ReceiverInv.withPhase (h : ReceiverInv pkts n base added R) {phase : ReceiverPhase}
    (hsound : phase.Sound pkts n base R.appended.length added R) :
    ReceiverInv pkts n base added { R with phase := phase } :=
  ⟨h.window, h.appended, h.started, by cases phase <;> exact hsound⟩

/-- Appending the next packet of a list to the part of it before that packet. -/
theorem append_eq_take {l : List Packet} {pkt : Packet} (h : l = pkts.take l.length)
    (hpkt : pkts[l.length]? = some pkt) :
    l ++ [pkt] = pkts.take (l ++ [pkt]).length := by
  rw [List.length_append, List.length_singleton, List.take_add_one, ← h, hpkt,
    Option.toList_some]

/-- From the start of the loop one step leads to `readPacket`. -/
theorem receiverStep_top (htop : R.phase = .top) (hlast : getLast R.pkt = false)
    (lost corr : Bool) (behind heap : List UInt8) :
    ∃ R', receiverStep lost corr behind heap R = some (R', none) ∧ R'.phase = .read ∧
      R'.appended = R.appended := by
  unfold receiverStep
  simp only [htop, hlast, if_true]
  exact ⟨_, rfl, rfl, rfl⟩

/-- A pending packet is acknowledged and its body appended. -/
theorem Shape.deliver_of_pending {β j : ℕ} (h : Shape n β (j + 1) j R.cwndR)
    (hstart : R.cwndR.start = true) {pkt : Packet}
    (hpkt : R.cwndR.packets[(β + j) % (2 * n)]? = some pkt) (lost corr : Bool)
    (behind heap : List UInt8) :
    deliver lost corr behind heap R = some
      ({ R with
          cwndR := cwndSetAllPrevAck R.cwndR (1024 * ((β + j) % (2 * n)))
          pkt := some pkt
          message := appendBody R.message pkt behind heap
          appended := R.appended ++ [pkt]
          phase := if getLast (some pkt) = false then .top else .close },
        if lost then none else
          some (if corr then zeroPacket else ackPacket (1024 * ((β + j) % (2 * n))))) := by
  have hdone := h.setAllPrevAck_slot (Nat.lt_succ_self j)
  rw [Nat.max_eq_right (Nat.le_succ j)] at hdone
  have hnone : cwndNumPendingAcks (cwndSetAllPrevAck R.cwndR (1024 * ((β + j) % (2 * n)))) = 0 := by
    rw [hdone.numPendingAcks, Nat.sub_self]
  unfold deliver
  rw [h.pendingPacket_of_pending (Nat.lt_succ_self j) hpkt,
    h.writeAckPacket_of_pending (Nat.lt_succ_self j) hstart]
  simp only [Option.bind_eq_bind, Option.bind_some, Option.pure_def, hnone, and_true]

/-- With nothing pending only a duplicate acknowledgement is sent, and none before the first
packet. -/
theorem Shape.deliver_of_none {β k : ℕ} (h : Shape n β k k R.cwndR) (lost corr : Bool)
    (behind heap : List UInt8) :
    deliver lost corr behind heap R = some ({ R with pkt := none, phase := .top },
      if R.cwndR.start then
        some (ackPacket (u32Sub R.cwndR.nextSeq packetSize % (1024 * (2 * n)))) else none) := by
  have hnone : cwndNumPendingAcks R.cwndR = 0 := by rw [h.numPendingAcks, Nat.sub_self]
  unfold deliver
  cases hstart : R.cwndR.start with
  | true =>
    simp only [h.pendingPacket_of_none, h.writeAckPacket_of_none hstart, Option.bind_eq_bind,
      Option.bind_some, Option.pure_def, hnone, getLast, and_self, if_true]
  | false =>
    simp only [h.pendingPacket_of_none, h.writeAckPacket_of_not_started hstart,
      Option.bind_eq_bind, Option.bind_some, Option.pure_def, hnone, getLast, and_self, if_true,
      if_false, Bool.false_eq_true]

theorem deliver_of_pending {taken : ℕ} (h : Indexed n base taken (taken + 1) R.cwndR)
    (hstart : R.cwndR.start = true) {pkt : Packet}
    (hpkt : R.cwndR.packets[taken % (2 * n)]? = some pkt) (lost corr : Bool)
    (behind heap : List UInt8) :
    deliver lost corr behind heap R = some
      ({ R with
          cwndR := cwndSetAllPrevAck R.cwndR (seqOf n taken)
          pkt := some pkt
          message := appendBody R.message pkt behind heap
          appended := R.appended ++ [pkt]
          phase := if getLast (some pkt) = false then .top else .close },
        if lost then none else some (if corr then zeroPacket else ackPacket (seqOf n taken))) := by
  have hs := h.shape
  rw [Nat.succ_sub h.base_le] at hs
  rw [← Indexed.slot taken h.base_le] at hpkt
  rw [hs.deliver_of_pending hstart hpkt, mul_slot h.base_le]

theorem deliver_of_none (h : Indexed n base added added R.cwndR)
    (hstart : R.cwndR.start = decide (0 < added)) (lost corr : Bool) (behind heap : List UInt8) :
    deliver lost corr behind heap R = some ({ R with pkt := none, phase := .top },
      if 0 < added then some (ackPacket (seqOf n (added - 1))) else none) := by
  rw [h.shape.deliver_of_none, hstart]
  by_cases hpos : 0 < added
  · rw [decide_eq_true hpos, if_pos rfl, if_pos hpos, h.nextSeq, prevSeq_eq h hpos]
  · rw [decide_eq_false hpos, if_neg hpos]
    rfl

/-- The step lemma. -/
theorem ReceiverInv.step {lost corr : Bool} {behind heap : List UInt8}
    (h : ReceiverInv pkts n base added R)
    (hstep : receiverStep lost corr behind heap R = some (R', out)) :
    (∃ base', ReceiverInv pkts n base' added R') ∧
      ReceiverEffect pkts n lost corr R R' out := by
  obtain ⟨phase, w, pkt, message, appended⟩ := R
  obtain ⟨hw, happ, hstart, hsound⟩ := h
  dsimp only at hw happ hstart hsound
  unfold receiverStep at hstep
  cases phase with
  | top =>
    obtain ⟨rfl, hlast⟩ := hsound
    simp only [hlast, if_true] at hstep
    cases hstep
    refine ⟨?_, .quiet rfl rfl⟩
    by_cases hg : appended.length = base + n
    · have hw' := hw
      rw [hg] at hw'
      have hshift := hw'.shiftWnd
      rw [if_pos (hw.shiftGuard_iff.2 hg)]
      rw [← hg] at hshift
      exact ⟨appended.length, hshift, happ, hstart, rfl, Nat.lt_add_of_pos_right hw.pos⟩
    · rw [if_neg fun e => hg (hw.shiftGuard_iff.1 e)]
      have := hw.added_le
      exact ⟨base, hw, happ, hstart, rfl, by dsimp only; omega⟩
  | deliver =>
    dsimp only at hstep
    rcases hsound with rfl | ⟨rfl, pkt', hpkt, hslot⟩
    · -- nothing pending: a duplicate acknowledgement, or none before the first packet
      have hside : Receiver.side ⟨.deliver, w, pkt, message, appended⟩ = .waiting := by
        unfold Receiver.side
        rw [if_pos]
        rw [hw.numPendingAcks, Nat.sub_self]
      rw [deliver_of_none (R := ⟨.deliver, w, pkt, message, appended⟩) hw hstart] at hstep
      cases hstep
      refine ⟨⟨base, hw, happ, hstart, rfl, rfl⟩, ?_⟩
      by_cases hpos : 0 < appended.length
      · rw [if_pos hpos]
        exact .ackAgain hside rfl hpos rfl
      · rw [if_neg hpos]
        exact .quiet hside.symm rfl
    · have hstart' : w.start = true := by rw [hstart]; exact decide_eq_true (Nat.succ_pos _)
      have hpend : cwndNumPendingAcks w ≠ 0 := by
        rw [hw.numPendingAcks, Nat.add_sub_cancel_left]
        exact Nat.one_ne_zero
      have hside : Receiver.side ⟨.deliver, w, pkt, message, appended⟩ = .holding := by
        unfold Receiver.side
        rw [if_neg hpend]
      have hdone := hw.setAllPrevAck hw.base_le (Nat.lt_succ_self _)
      rw [Nat.max_eq_right (Nat.le_succ _)] at hdone
      rw [deliver_of_pending hw hstart' hslot] at hstep
      cases hstep
      have hlen : (appended ++ [pkt']).length = appended.length + 1 := by simp
      refine ⟨⟨base, by rw [hlen]; exact hdone, append_eq_take happ hpkt, ?_, ?_⟩,
        .deliver pkt' hside hpkt rfl ?_⟩
      · rw [start_setAllPrevAck]
        exact hstart
      · dsimp only
        by_cases hlast : getLast (some pkt') = false
        · rw [if_pos hlast]
          exact ⟨hlen.symm, hlast⟩
        · rw [if_neg hlast]
          exact hlen.symm
      · unfold Receiver.side
        cases getLast (some pkt') <;> rfl
  | close =>
    cases hstep
    refine ⟨⟨base, hw, happ, hstart, hsound⟩, .sendClose _ rfl rfl rfl ?_⟩
    unfold writeClosePacket
    cases lost <;> cases corr <;> simp
  | read => cases hstep
  | readClose => cases hstep
  | exited => cases hstep

/-- The receiver receives in two places. -/
theorem receiverRecv_phase {stack : Packet} {recv : Option Datagram}
    (h : receiverRecv stack recv R = some R') : R.phase = .read ∨ R.phase = .readClose := by
  unfold receiverRecv at h
  split at h
  · exact .inl ‹_›
  · exact .inr ‹_›
  · cases h

/-- What `readTCP` does with a datagram while it waits for data: it takes the packet it expects and
ignores any other. -/
theorem ReceiverInv.recv_some (h : ReceiverInv pkts n base added R) (hphase : R.phase = .read)
    {stack pkt : Packet} {d : Datagram} (hbuf : recvBuf stack d = pkt) :
    receiverRecv stack (some d) R = some { R with
      phase := .deliver
      cwndR := if getClose pkt = false ∧ verifies pkt = true ∧
        getSeqNum pkt = seqOf n R.appended.length ∧ getACK pkt = false
        then (cwndAddPkt R.cwndR pkt).1 else R.cwndR } := by
  have hsound := h.sound
  rw [hphase] at hsound
  have hw := h.window
  rw [hsound.1] at hw
  obtain ⟨r, hr⟩ := readPacket_some hw hbuf
  unfold receiverRecv
  rw [hphase]
  dsimp only
  rw [hr, Option.map_some]

theorem ReceiverInv.recv_read (h : ReceiverInv pkts n base added R) (hphase : R.phase = .read)
    (stack pkt : Packet) :
    receiverRecv stack (some (datagram pkt)) R = some { R with
      phase := .deliver
      cwndR := if getClose pkt = false ∧ verifies pkt = true ∧
        getSeqNum pkt = seqOf n R.appended.length ∧ getACK pkt = false
        then (cwndAddPkt R.cwndR pkt).1 else R.cwndR } :=
  h.recv_some hphase (recvBuf_datagram stack pkt)

theorem receiverRecv_read_timeout (hphase : R.phase = .read) (stack : Packet) :
    receiverRecv stack none R = some { R with phase := .deliver } := by
  unfold receiverRecv
  rw [hphase]
  rfl

theorem receiverRecv_readClose (hphase : R.phase = .readClose) (stack pkt : Packet) :
    receiverRecv stack (some (datagram pkt)) R = some { R with
      phase := if getClose pkt = true ∧ verifies pkt = true then .exited else .close } := by
  unfold receiverRecv readClosePacket
  rw [hphase]
  simp only [recvBuf_datagram, recvLen_datagram, decide_true, Bool.true_and, Bool.and_eq_true]

theorem receiverRecv_readClose_timeout (hphase : R.phase = .readClose) (stack : Packet) :
    receiverRecv stack none R = some { R with phase := .close } := by
  unfold receiverRecv
  rw [hphase]
  rfl

/-- Without a packet accepted, the loop goes on behind `readPacket` with nothing pending. -/
theorem ReceiverInv.ignored (h : ReceiverInv pkts n base added R) (hphase : R.phase = .read) :
    ReceiverInv pkts n base added { R with phase := .deliver } ∧
      Receiver.side { R with phase := .deliver } = .waiting := by
  have hsound := h.sound
  rw [hphase] at hsound
  refine ⟨h.withPhase (.inl hsound.1), ?_⟩
  unfold Receiver.side
  rw [if_pos]
  rw [h.window.numPendingAcks, hsound.1, Nat.sub_self]

/-- The next packet of the list is accepted. -/
theorem ReceiverInv.accepted (h : ReceiverInv pkts n base added R) (hphase : R.phase = .read)
    {pkt : Packet} (hpkt : pkts[R.appended.length]? = some pkt) :
    ReceiverInv pkts n base (added + 1)
        { R with phase := .deliver, cwndR := (cwndAddPkt R.cwndR pkt).1 } ∧
      Receiver.side { R with phase := .deliver, cwndR := (cwndAddPkt R.cwndR pkt).1 } =
        .holding := by
  have hsound := h.sound
  rw [hphase] at hsound
  obtain ⟨hadded, hroom⟩ := hsound
  have hroom' : added < base + n := by omega
  have hw := h.window.addPkt hroom' pkt
  refine ⟨⟨hw, h.appended, ?_, .inr ⟨by dsimp only; omega, pkt, hpkt, ?_⟩⟩, ?_⟩
  · rw [Shape.start_addPkt (h.window.checkAdd_iff.2 hroom'), decide_eq_true (Nat.succ_pos added)]
  · rw [h.window.packets_addPkt hroom', if_pos (by rw [hadded])]
  · unfold Receiver.side
    rw [if_neg]
    rw [hw.numPendingAcks]
    omega

end Steps

end Tcp118
