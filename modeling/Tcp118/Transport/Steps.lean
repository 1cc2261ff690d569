import Tcp118.Transport.Progress

/-!
# Steps as runs

`reaches_sender`, `reaches_senderRecv`, …: a step of one side, the return of one of its receive
calls, and the loss of a first datagram, as runs of the transfer.
-/

namespace Tcp118

variable {buf : List UInt8} {W : ℕ} {J : Joint}

theorem reaches_sender {lost corr : Bool} {S : Sender} {out : Option Packet}
    (h : senderStep (sentPackets buf W) lost corr J.sender = some (S, out)) :
    (transferSystem buf W).Reaches J { J with sender := S, fwd := J.fwd ++ out.toList } := by
  apply reaches_step (.sender lost corr)
  simp only [Joint.step, h, Option.map_some]

theorem reaches_senderRecv {stack pkt : Packet} {rest : List Packet} {S : Sender}
    (hrev : J.rev = pkt :: rest)
    (h : senderRecv stack (some (datagram pkt)) J.sender = some S) :
    (transferSystem buf W).Reaches J { J with sender := S, rev := rest } := by
  apply reaches_step (.senderRecv stack)
  simp only [Joint.step, hrev, h, Option.map_some]

theorem reaches_senderTimeout {stack : Packet} {S : Sender}
    (h : senderRecv stack none J.sender = some S) :
    (transferSystem buf W).Reaches J { J with sender := S } := by
  apply reaches_step (.senderTimeout stack)
  simp only [Joint.step, h, Option.map_some]

theorem reaches_recv {stack pkt : Packet} {rest : List Packet} {R : Receiver}
    (hfwd : J.fwd = pkt :: rest)
    (h : receiverRecv stack (some (datagram pkt)) J.receiver = some R) :
    (transferSystem buf W).Reaches J { J with receiver := R, fwd := rest } := by
  apply reaches_step (.receiverRecv stack)
  simp only [Joint.step, hfwd, h, Option.map_some]

theorem reaches_recvTimeout {stack : Packet} {R : Receiver}
    (h : receiverRecv stack none J.receiver = some R) :
    (transferSystem buf W).Reaches J { J with receiver := R } := by
  apply reaches_step (.receiverTimeout stack)
  simp only [Joint.step, h, Option.map_some]

/-- The first datagram to the receiver may be dropped. -/
theorem reaches_tailFwd {pkt : Packet} {rest : List Packet} (hfwd : J.fwd = pkt :: rest) :
    (transferSystem buf W).Reaches J { J with fwd := rest } := by
  apply reaches_step (.dropFwd 0)
  simp [Joint.step, hfwd]

/-- The first datagram to the sender may be dropped. -/
theorem reaches_tailRev {pkt : Packet} {rest : List Packet} (hrev : J.rev = pkt :: rest) :
    (transferSystem buf W).Reaches J { J with rev := rest } := by
  apply reaches_step (.dropRev 0)
  simp [Joint.step, hrev]

end Tcp118
