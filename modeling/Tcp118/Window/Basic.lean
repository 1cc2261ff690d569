import Tcp118.Packet.Basic

/-!
# `cwnd118.c`: the congestion window

A window is a ring of `2 * c_wnd / PACKET_SIZE` slots.  Slot `s` belongs to the sequence numbers
from `s * PACKET_SIZE` on; its entry in `acks` is `-1` when it is free, `0` when its packet is
pending and `1` when its packet has been acknowledged (or, on the receiving side, read).

* `Cwnd`, `cwndInit`, `cwndMaxMss`, …: the record and its observers;
* `cwndSetAck`, `cwndSetAllPrevAck`, `cwndLastPendingAckMss`: acknowledgements;
* `cwndCheckIn`, `cwndCheckAdd`, `cwndAddPkt`, `cwndShiftWnd`: the window itself;
* `lastMss_of_lastSeq`, `slotOf_boundary`, …: the slots of a window on slot boundaries.

Sequence numbers are `uint32_t` values.  A search that does not come to an end is `none`.
-/

namespace Tcp118

/-- `cwnd_t`. -/
structure Cwnd where
  cWnd : ℕ
  size : ℕ
  start : Bool
  lastSeq : ℕ
  nextSeq : ℕ
  acks : List ℤ
  packets : List Packet

/-- `cwnd_init`; `heap` is what the freshly allocated packet buffers hold. -/
def cwndInit (cwndSize : ℕ) (heap : ℕ → Packet) : Cwnd where
  cWnd := cwndSize
  size := u32 (cwndSize * 2)
  start := false
  lastSeq := 0
  nextSeq := 0
  acks := List.replicate (u32 (cwndSize * 2) / packetSize) (-1)
  packets := (List.range (u32 (cwndSize * 2) / packetSize)).map heap

def cwndStart (cwnd : Cwnd) : Cwnd := { cwnd with start := true }

def cwndGetStarted (cwnd : Cwnd) : Bool := cwnd.start

def cwndMaxMss (cwnd : Cwnd) : ℕ := cwnd.size / packetSize

def cwndLastSeq (cwnd : Cwnd) : ℕ := cwnd.lastSeq

def cwndNextSeq (cwnd : Cwnd) : ℕ := cwnd.nextSeq

def cwndLastMss (cwnd : Cwnd) : ℕ := cwnd.lastSeq / packetSize % cwnd.size

def cwndNextMss (cwnd : Cwnd) : ℕ := cwnd.nextSeq / packetSize % cwnd.size

/-! ### Acknowledgements -/

/-- The slot of a sequence number. -/
def slotOf (cwnd : Cwnd) (seqNum : ℕ) : ℕ := seqNum % cwnd.size / packetSize

def cwndGetAck (cwnd : Cwnd) (seqNum : ℕ) : ℤ := cwnd.acks.getD (slotOf cwnd seqNum) (-1)

/-- The number of slots whose entry is `v`: the loop of the two functions that follow. -/
def countAcks (cwnd : Cwnd) (v : ℤ) : ℕ :=
  (List.range (cwndMaxMss cwnd)).countP fun i => cwndGetAck cwnd (i * packetSize) == v

def cwndNumPendingAcks (cwnd : Cwnd) : ℕ := countAcks cwnd 0

def cwndNumReceivedAcks (cwnd : Cwnd) : ℕ := countAcks cwnd 1

def cwndCheckIn (cwnd : Cwnd) (seqNum : ℕ) : Bool :=
  let tempNext :=
    if cwnd.nextSeq < cwnd.lastSeq then u32 (cwnd.nextSeq + cwnd.size) else cwnd.nextSeq
  decide (seqNum ≥ cwnd.lastSeq) && decide (seqNum < tempNext)

def cwndSetAck (cwnd : Cwnd) (seqNum : ℕ) : Cwnd :=
  if cwndCheckIn cwnd seqNum then { cwnd with acks := cwnd.acks.set (slotOf cwnd seqNum) 1 }
  else cwnd

def cwndResetAck (cwnd : Cwnd) : Cwnd :=
  { cwnd with acks := List.replicate (cwnd.size / packetSize) (-1) }

/-- `for (i = from; …) cwnd_setAck(cwnd, i * PACKET_SIZE)`, with `count` steps. -/
def setAcks (cwnd : Cwnd) (start count : ℕ) : Cwnd :=
  (List.range' start count).foldl (fun w i => cwndSetAck w (u32 (i * packetSize))) cwnd

def cwndSetAllPrevAck (cwnd : Cwnd) (seqNum : ℕ) : Cwnd :=
  let seqNum := if seqNum < cwndLastSeq cwnd then u32 (seqNum + cwnd.size) else seqNum
  let nextSeq :=
    if cwnd.nextSeq < cwndLastSeq cwnd then u32 (cwnd.nextSeq + cwnd.size) else cwnd.nextSeq
  if seqNum < nextSeq then
    setAcks cwnd (cwndLastMss cwnd) (seqNum / packetSize + 1 - cwndLastMss cwnd)
  else cwnd

/-- The loop of `cwnd_lastPendingAckMss` from slot `i`, for at most `fuel` tests. -/
def pendingScan (cwnd : Cwnd) : (fuel i : ℕ) → Option ℕ
  | 0, _ => none
  | fuel + 1, i =>
    if cwndGetAck cwnd (i * packetSize) = 1 ∧ i ≠ cwndNextMss cwnd then
      pendingScan cwnd fuel ((i + 1) % cwndMaxMss cwnd)
    else some i

/-- `cwnd_lastPendingAckMss`.  The loop variable is a slot from the second test on, so a loop
that passes one test more than there are slots never ends; this is `none`. -/
def cwndLastPendingAckMss (cwnd : Cwnd) : Option ℤ :=
  (pendingScan cwnd (cwndMaxMss cwnd + 1) (cwndLastMss cwnd)).map fun i =>
    if i ≠ cwndNextMss cwnd then (i : ℤ) else -1

/-! ### The window -/

def cwndCheckAdd (cwnd : Cwnd) : Bool :=
  !decide (u32Sub cwnd.nextSeq cwnd.lastSeq % cwnd.size ≥ cwnd.cWnd)

/-- `cwnd_addPkt`, with its return value. -/
def cwndAddPkt (cwnd : Cwnd) (buf : Packet) : Cwnd × Bool :=
  if cwndCheckAdd cwnd then
    (cwndStart { cwnd with
      packets := cwnd.packets.set (cwndNextMss cwnd) buf
      acks := cwnd.acks.set (cwndNextMss cwnd) 0
      nextSeq := u32 (cwnd.nextSeq + packetSize) % cwnd.size }, true)
  else (cwnd, false)

/-- `cwnd_getPktSeq`: `NULL` unless the packet is pending. -/
def cwndGetPktSeq (cwnd : Cwnd) (seq : ℕ) : Option Packet :=
  if cwndGetAck cwnd seq ≠ 0 then none else cwnd.packets[seq / packetSize]?

/-- `cwnd_shiftWnd`: "should be used once all ACKS for a window have been satisfied". -/
def cwndShiftWnd (cwnd : Cwnd) : Cwnd := cwndResetAck { cwnd with lastSeq := cwnd.nextSeq }

/-- The guard under which `writeTCP` and `readTCP` shift their windows. -/
def shiftGuard (cwnd : Cwnd) : Bool :=
  cwndNumReceivedAcks cwnd == cwndMaxMss cwnd / 2 && cwndCheckAdd cwnd == false

/-! ### Slot boundaries -/

section Boundaries

variable {w : Cwnd} {s N : ℕ}

/-- The two remainders that are taken "just in case" change nothing. -/
theorem lastMss_of_lastSeq (hseq : w.lastSeq = 1024 * s) (hs : s < w.size) : cwndLastMss w = s := by
  unfold cwndLastMss
  rw [hseq, packetSize, Nat.mul_div_cancel_left s (by omega), Nat.mod_eq_of_lt hs]

theorem nextMss_of_nextSeq (hseq : w.nextSeq = 1024 * s) (hs : s < w.size) : cwndNextMss w = s := by
  unfold cwndNextMss
  rw [hseq, packetSize, Nat.mul_div_cancel_left s (by omega), Nat.mod_eq_of_lt hs]

theorem maxMss_of_size (hsize : w.size = 1024 * N) : cwndMaxMss w = N := by
  unfold cwndMaxMss
  rw [hsize, packetSize, Nat.mul_div_cancel_left N (by omega)]

/-- The slot of a packet boundary. -/
theorem slotOf_boundary (hsize : w.size = 1024 * N) (s : ℕ) :
    slotOf w (s * packetSize) = s % N := by
  unfold slotOf
  rw [hsize, packetSize, Nat.mul_comm s, Nat.mul_mod_mul_left,
    Nat.mul_div_cancel_left _ (by omega)]

/-- The entry of a slot that is not free. -/
theorem getAck_boundary_iff (hsize : w.size = 1024 * N) (hs : s < N) {a : ℤ} (ha : a ≠ -1) :
    cwndGetAck w (s * packetSize) = a ↔ w.acks[s]? = some a := by
  unfold cwndGetAck
  rw [slotOf_boundary hsize, Nat.mod_eq_of_lt hs, List.getD_eq_getElem?_getD]
  cases hack : w.acks[s]? with
  | none => simp [ha.symm]
  | some b => simp

end Boundaries

end Tcp118
