import Tcp118.Packet.Segmentation
import Tcp118.Window.Basic

/-!
# `tcp118.c`: reading and writing single datagrams

Each function is modelled by what it does to its window and what it sends, given what `recvfrom`
delivers (`none` is a timeout) and how the probabilities of loss and corruption fall.  A receive
buffer is not initialised: `stack` is what it holds before `recvfrom` writes to it.

* `writePackets`, `readAckPacket`, `writeClosePacket`, `readClosePacketSender`: the sending side;
* `readPacket`, `writeAckPacket`, `readClosePacket`, `appendBody`: the receiving side.

A call that does not return, because the pending-slot search does not, is `none`.
-/

namespace Tcp118

/-- What one `recvfrom` delivers. -/
abbrev Datagram := List UInt8

/-- The receive buffer after a datagram has been written over what it held. -/
def recvBuf (stack : Packet) (d : Datagram) : Packet :=
  Packet.ofBytes fun i => d.getD i (stack.byte i)

/-- The return value of `recvfrom(sockfd, buf, PACKET_SIZE, …)` for a datagram. -/
def recvLen (d : Datagram) : ℕ := min d.length packetSize

/-- The test every receiver applies. -/
def verifies (pkt : Packet) : Bool := checksum pkt.byte packetSize == 0

/-- `-1 * PACKET_SIZE` as a `uint32_t`: the sequence number of no slot. -/
def noSeq : ℕ := toU32 (-1 * packetSize)

/-! ### Sending data -/

/-- The packet `writePackets` takes from slot `i`, if the array has that slot. -/
def packetAt (cwndW : Cwnd) (i : ℤ) : Option Packet :=
  if 0 ≤ i then cwndW.packets[i.toNat]? else none

/-- The loop of `writePackets` over the slots from `i` on, with `left` steps to go; the result is
what it tries to send, in order. -/
def writeLoop (cwndW : Cwnd) : (left : ℕ) → (i : ℤ) → List (ℤ × Option Packet)
  | 0, _ => []
  | left + 1, i =>
    if cwndGetAck cwndW (toU32 (i * packetSize)) = 1 then writeLoop cwndW left (i + 1)
    else (i, packetAt cwndW i) :: writeLoop cwndW left (i + 1)

/-- `writePackets`: the slots and packets it tries to send; a loss is decided for each of them
when it is sent.  Data packets are never corrupted (`p_check(p_corr) && false`). -/
def writePackets (cwndW : Cwnd) : Option (List (ℤ × Option Packet)) := do
  let i ← cwndLastPendingAckMss cwndW
  return writeLoop cwndW (cwndNumPendingAcks cwndW) i

/-- `readAckPacket`, with its return value.  The condition of the branch for a close packet is
the one of the branch before it. -/
def readAckPacket (stack : Packet) (recv : Option Datagram) (cwndW : Cwnd) : Cwnd × Bool :=
  if cwndNumPendingAcks cwndW = 0 then (cwndW, false)
  else
    match recv with
    | none => (cwndW, false)
    | some d =>
      let buf := recvBuf stack d
      if recvLen d = packetSize then
        if getACK buf = true ∧ verifies buf = true then
          if cwndCheckIn cwndW (getACKNum buf) = true then
            (cwndSetAllPrevAck cwndW (getACKNum buf), true)
          else (cwndW, false)
        else if getACK buf = true ∧ verifies buf = true then
          -- "set all packets as received"
          (cwndSetAllPrevAck cwndW (u32Sub (cwndNextSeq cwndW) packetSize), false)
        else (cwndW, false)
      else (cwndW, false)

/-! ### Receiving data -/

/-- The sequence number `readPacket` expects. -/
def expSeq (cwndR : Cwnd) : Option ℕ := do
  let i ← cwndLastPendingAckMss cwndR
  let seq := toU32 (i * packetSize)
  return if seq = noSeq then cwndNextSeq cwndR else seq

/-- `readPacket`, with its return value.  It does not look at the length `recvfrom` returns. -/
def readPacket (stack : Packet) (recv : Option Datagram) (cwndR : Cwnd) : Option (Cwnd × ℤ) :=
  match recv with
  | none => some (cwndR, -1)
  | some d =>
    let buf := recvBuf stack d
    if getClose buf = true then some (cwndR, 0)
    else do
      let seq ← expSeq cwndR
      if verifies buf = true ∧ getSeqNum buf = seq ∧ getACK buf = false then
        return ((cwndAddPkt cwndR buf).1, packetSize)
      else
        return (cwndR, 0)

/-- An acknowledgement as `writeAckPacket` builds it. -/
def ackPacket (seq : ℕ) : Packet := generatePacket seq seq true true false [] 0

/-- The number `writeAckPacket` acknowledges. -/
def ackSeq (cwndR : Cwnd) : Option ℕ := do
  let i ← cwndLastPendingAckMss cwndR
  let lastSeq := toU32 (i * packetSize)
  if lastSeq = noSeq then
    let lastSeq := u32Sub (cwndNextSeq cwndR) packetSize % cwndR.size
    return if lastSeq = noSeq then 0 else lastSeq
  else return lastSeq

/-- `writeAckPacket`: the window it leaves, the datagram it sends, and its return value.  Only an
acknowledgement sent for the first time is subject to `p_loss` and `p_corr`. -/
def writeAckPacket (lost corr : Bool) (cwndR : Cwnd) : Option (Cwnd × Option Packet × Bool) := do
  let lastSeq ← ackSeq cwndR
  if cwndNumPendingAcks cwndR = 0 ∧ cwndGetStarted cwndR = true then
    return (cwndR, some (ackPacket lastSeq), false)
  else if cwndGetStarted cwndR = true then
    let pkt := if corr then zeroPacket else ackPacket lastSeq
    return (cwndSetAllPrevAck cwndR lastSeq, if lost then none else some pkt, true)
  else
    return (cwndR, none, false)

/-- The packet `readTCP` finds pending in its window after `readPacket`. -/
def pendingPacket (cwndR : Cwnd) : Option (Option Packet) := do
  let i ← cwndLastPendingAckMss cwndR
  if i ≠ -1 then
    let nextSeq := toU32 (i * packetSize)
    let nextSeq := if nextSeq = noSeq then u32Sub (cwndNextSeq cwndR) packetSize else nextSeq
    return cwndGetPktSeq cwndR nextSeq
  else
    return none

/-- `memcpy(&(msgBody[msgLen]), getBody(pkt), currLen)`: the bytes it copies, where `heap` are the
bytes behind the string that `getBody` returns. -/
def copiedBody (pkt : Packet) (behind heap : List UInt8) : List UInt8 :=
  (List.range (getSize pkt)).map fun i => (getBody pkt behind ++ heap).getD i 0

/-- `msgBody` and `msgLen`. -/
structure Message where
  msgBody : List UInt8
  msgLen : ℕ

/-- The message before anything has been received: `MAX_BODY_SIZE` zero bytes. -/
def Message.empty : Message := ⟨List.replicate maxBodySize 0, 0⟩

/-- `readTCP` reallocates `msgBody`, copies the body of `pkt` behind the bytes it has, and adds
its size to `msgLen`. -/
def appendBody (m : Message) (pkt : Packet) (behind heap : List UInt8) : Message where
  msgBody := m.msgBody.take m.msgLen ++ copiedBody pkt behind heap
  msgLen := m.msgLen + getSize pkt

/-! ### Closing -/

/-- A close packet as `writeClosePacket` builds it. -/
def closePacket : Packet := generatePacket 0 0 false true true [] 0

/-- `writeClosePacket`: the datagram it sends. -/
def writeClosePacket (lost corr : Bool) : Option Packet :=
  let pkt := if corr then zeroPacket else closePacket
  if lost then none else some pkt

/-- The test of `readClosePacket`. -/
def readClosePacket (stack : Packet) (recv : Option Datagram) : Bool :=
  match recv with
  | none => false
  | some d =>
    let buf := recvBuf stack d
    decide (recvLen d = packetSize) && (getClose buf && verifies buf)

/-- What `readClosePacketSender` returns for the datagram that ends its loop. -/
def closeAnswer (stack : Packet) (d : Datagram) : Bool :=
  let buf := recvBuf stack d
  if recvLen d = packetSize then
    if getClose buf = true ∧ verifies buf = true then false
    else verifies buf
  else false

end Tcp118
