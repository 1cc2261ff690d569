import Tcp118.Library.StepSystem
import Tcp118.Transport.Receiver
import Tcp118.Transport.Sender

/-!
# One transfer: `writeTCP`, `readTCP` and the two directions of a socket

* `Joint`: both machines and the datagrams in flight in each direction, first in, first out;
* `Event`: who moves, and how loss, corruption and the contents of uninitialised memory fall;
* `Joint.step`: what an event does;
* `transferSystem`: the runs of the transfer of a buffer;
* `startOfTransfer`: the start of one.

Besides what the two programs do to their own datagrams (`p_loss`, `p_corr`), the network may drop
any datagram and zero any acknowledgement or close packet.  After `readTCP` has returned, its
program may send anything.
-/

namespace Tcp118

/-- A joint state. -/
structure Joint where
  sender : Sender
  receiver : Receiver
  fwd : List Packet
  rev : List Packet

/-- What happens next. -/
inductive Event
  | sender (lost corr : Bool)
  | senderRecv (stack : Packet)
  | senderTimeout (stack : Packet)
  | receiver (lost corr : Bool) (behind heap : List UInt8)
  | receiverRecv (stack : Packet)
  | receiverTimeout (stack : Packet)
  | dropFwd (i : ℕ)
  | dropRev (i : ℕ)
  | zeroFwd (i : ℕ)
  | zeroRev (i : ℕ)
  | follow (pkt : Packet)

/-- Replace datagram `i`, if it is an acknowledgement or a close packet, by the zero packet. -/
def zeroAt (channel : List Packet) (i : ℕ) : Option (List Packet) :=
  match channel[i]? with
  | some pkt => if getACK pkt || getClose pkt then some (channel.set i zeroPacket) else none
  | none => none

/-- What an event does to a joint state, if it can happen there. -/
def Joint.step (pkts : List Packet) : Event → Joint → Option Joint
  | .sender lost corr, J =>
    (senderStep pkts lost corr J.sender).map fun r =>
      { J with sender := r.1, fwd := J.fwd ++ r.2.toList }
  | .senderRecv stack, J =>
    match J.rev with
    | [] => none
    | pkt :: rev =>
      (senderRecv stack (some (datagram pkt)) J.sender).map fun S =>
        { J with sender := S, rev := rev }
  | .senderTimeout stack, J =>
    (senderRecv stack none J.sender).map fun S => { J with sender := S }
  | .receiver lost corr behind heap, J =>
    (receiverStep lost corr behind heap J.receiver).map fun r =>
      { J with receiver := r.1, rev := J.rev ++ r.2.toList }
  | .receiverRecv stack, J =>
    match J.fwd with
    | [] => none
    | pkt :: fwd =>
      (receiverRecv stack (some (datagram pkt)) J.receiver).map fun R =>
        { J with receiver := R, fwd := fwd }
  | .receiverTimeout stack, J =>
    (receiverRecv stack none J.receiver).map fun R => { J with receiver := R }
  | .dropFwd i, J => if i < J.fwd.length then some { J with fwd := J.fwd.eraseIdx i } else none
  | .dropRev i, J => if i < J.rev.length then some { J with rev := J.rev.eraseIdx i } else none
  | .zeroFwd i, J => (zeroAt J.fwd i).map fun fwd => { J with fwd := fwd }
  | .zeroRev i, J => (zeroAt J.rev i).map fun rev => { J with rev := rev }
  | .follow pkt, J =>
    if J.receiver.phase = .exited then some { J with rev := J.rev ++ [pkt] } else none

/-- Both sides start with windows of `W` bytes; at most close packets of an earlier transfer are
in flight. -/
structure Joint.Initial (W : ℕ) (J : Joint) : Prop where
  sender : ∃ heap, J.sender = senderInit W heap
  receiver : ∃ heap, J.receiver = receiverInit W heap
  fwd : ∀ pkt ∈ J.fwd, pkt = closePacket
  rev : ∀ pkt ∈ J.rev, pkt = closePacket

/-- The packets that `writeTCP` sends for a buffer; its `size_t` argument is narrowed to the
`uint32_t` argument of `bufToPackets`. -/
def sentPackets (buf : List UInt8) (W : ℕ) : List Packet := packetsOf buf W (u32 buf.length)

theorem bufToPackets_sentPackets (buf : List UInt8) {W : ℕ} (hpos : 0 < 2 * W)
    (hc : 2 * W < 2 ^ 32) :
    bufToPackets (some buf) (u32 buf.length) W = some (sentPackets buf W) :=
  bufToPackets_some buf hpos hc _

/-- The runs of the transfer of a buffer whose events are all allowed. -/
def transferRuns (buf : List UInt8) (W : ℕ) (allowed : Event → Joint → Prop) : StepSystem Joint :=
  .ofEvents (Joint.Initial W) (Joint.step (sentPackets buf W)) allowed

/-- The runs of the transfer of a buffer. -/
def transferSystem (buf : List UInt8) (W : ℕ) : StepSystem Joint :=
  transferRuns buf W fun _ _ => True

/-- `writeTCP` is in its transmission loop. -/
def Joint.Transmitting (J : Joint) : Prop := J.sender.side = .transmitting

/-- `readTCP` is in its receive loop. -/
def Joint.Receiving (J : Joint) : Prop :=
  J.receiver.side = .waiting ∨ J.receiver.side = .holding

/-! ### One byte in windows of 4096 bytes -/

/-- The start of the transfer. -/
def startOfTransfer : Joint :=
  ⟨senderInit 4096 fun _ => zeroPacket, receiverInit 4096 fun _ => zeroPacket, [], []⟩

theorem startOfTransfer_initial : startOfTransfer.Initial (2 ^ 12) :=
  ⟨⟨_, rfl⟩, ⟨_, rfl⟩, fun _ hp => absurd hp List.not_mem_nil,
    fun _ hp => absurd hp List.not_mem_nil⟩

theorem startOfTransfer_reachable :
    (transferSystem [65] (2 ^ 12)).Reachable startOfTransfer := .of_init startOfTransfer_initial

end Tcp118
