import Tcp118.Transport.Endpoints
import Tcp118.Transport.Recovery

/-!
# Retransmissions that are put off for ever

`readAckPacket` takes an acknowledgement of a packet of the window for a success even if the packet
has been acknowledged before, and its caller then reads on instead of sending again.  The receiver
repeats its last acknowledgement at each timeout.

* `Joint.Idle`, `Event.AckFirst`: both wait on empty channels, and the receiver's timeouts come
  first;
* `Stalled`, `Stalled.next`: the acknowledgement is repeated and taken again and again;
* `Resuming`, `Resuming.step`: otherwise the sender comes to send again;
* `retransmission_inevitable_iff`: the exact condition.
-/

namespace Tcp118

open Protocol
open StepSystem (Rank rank rank_lt_iff)

/-- Both sides wait, and nothing is in flight. -/
structure Joint.Idle (J : Joint) : Prop where
  sender : J.sender.phase = .recvAck
  receiver : J.receiver.phase = .read
  fwd : J.fwd = []
  rev : J.rev = []

/-- Nothing is lost or zeroed; where both sides wait on empty channels, the receiver times out, if
it has a packet to acknowledge again, and otherwise the sender. -/
def Event.AckFirst : Event → Joint → Prop
  | .sender lost corr, _ => lost = false ∧ corr = false
  | .receiver lost corr _ _, _ => lost = false ∧ corr = false
  | .senderRecv _, _ => True
  | .receiverRecv _, _ => True
  | .receiverTimeout _, J => J.Idle ∧ J.receiver.cwndR.start = true
  | .senderTimeout _, J => J.Idle ∧ J.receiver.cwndR.start = false
  | _, _ => False

/-- The runs in which the acknowledgements come first. -/
def ackFirstRuns (buf : List UInt8) (W : ℕ) : StepSystem Joint := transferRuns buf W Event.AckFirst

/-- The sender has sent something, or has left its transmission loop. -/
def Joint.Resumed (J : Joint) : Prop := J.fwd ≠ [] ∨ ¬ J.Transmitting

/-! ### The same acknowledgement for ever -/

/-- The receiver has taken a packet of the sender's window and waits for another one, and its last
acknowledgement, which is that of a packet of the window, is on its round. -/
structure Stalled (pkts : List Packet) (n : ℕ) (J : Joint) : Prop where
  sender : ∃ acked, SenderInv pkts n acked J.sender ∧ acked ≤ J.receiver.appended.length
  receiver : ∃ base, ReceiverInv pkts n base J.receiver.appended.length J.receiver
  shifted_lt : J.sender.shifted < J.receiver.appended.length
  lt_i : J.receiver.appended.length < J.sender.i
  fwd : J.fwd = []
  turn : J.sender.phase = .recvAck ∧ J.receiver.phase = .read ∧ J.rev = [] ∨
    J.sender.phase = .recvAck ∧ J.receiver.phase = .deliver ∧ J.rev = [] ∨
    J.sender.phase = .recvAck ∧ (J.receiver.phase = .top ∨ J.receiver.phase = .read) ∧
      J.rev = [ackPacket (seqOf n (J.receiver.appended.length - 1))] ∨
    J.sender.phase = .readAck ∧ J.receiver.phase = .read ∧ J.rev = []

theorem Stalled.not_resumed {pkts : List Packet} {n : ℕ} {J : Joint} (h : Stalled pkts n J) :
    ¬ J.Resumed := by
  rintro (hfwd | hleft)
  · exact hfwd h.fwd
  · apply hleft
    rcases h.turn with ⟨hphase, -⟩ | ⟨hphase, -⟩ | ⟨hphase, -⟩ | ⟨hphase, -⟩ <;>
      rw [Joint.Transmitting, Sender.side, hphase]

/-- It goes on like this. -/
theorem Stalled.next {pkts : List Packet} {n : ℕ} {J : Joint} (h : Stalled pkts n J) :
    ∃ event J', event.AckFirst J ∧ J.step pkts event = some J' ∧ Stalled pkts n J' := by
  obtain ⟨acked, hS, hacked⟩ := h.sender
  obtain ⟨base, hR⟩ := h.receiver
  have hlt := h.shifted_lt
  have hlt' := h.lt_i
  have hpos : 0 < J.receiver.appended.length := by omega
  have hsound := hR.sound
  rcases h.turn with ⟨hs, hr, hrev⟩ | ⟨hs, hr, hrev⟩ | ⟨hs, hr | hr, hrev⟩ | ⟨hs, hr, hrev⟩
  · -- the receiver times out
    refine ⟨.receiverTimeout zeroPacket,
      { J with receiver := { J.receiver with phase := .deliver } },
      ⟨⟨hs, hr, h.fwd, hrev⟩, hR.started.trans (decide_eq_true hpos)⟩, ?_,
      ⟨acked, hS, hacked⟩, ⟨base, (hR.ignored hr).1⟩, hlt, hlt', h.fwd, .inr (.inl ⟨hs, rfl, hrev⟩)⟩
    rw [Joint.step, receiverRecv_read_timeout hr, Option.map_some]
  · -- it acknowledges its last packet again
    have hstep : receiverStep false false [] [] J.receiver = some
        ({ J.receiver with pkt := none, phase := .top },
          some (ackPacket (seqOf n (J.receiver.appended.length - 1)))) := by
      unfold receiverStep
      rw [hr]
      dsimp only
      rw [deliver_of_none hR.window hR.started, if_pos hpos]
    refine ⟨.receiver false false [] [], { J with
      receiver := { J.receiver with pkt := none, phase := .top }
      rev := [ackPacket (seqOf n (J.receiver.appended.length - 1))] }, ⟨rfl, rfl⟩, ?_,
      ⟨acked, hS, hacked⟩, (hR.step hstep).1, hlt, hlt', h.fwd,
      .inr (.inr (.inl ⟨hs, .inl rfl, rfl⟩))⟩
    rw [Joint.step, hstep, hrev]
    rfl
  · -- it comes to wait again
    rw [hr] at hsound
    obtain ⟨R', hstep, hphase, happ⟩ := receiverStep_top hr hsound.2 false false [] []
    have hR' := (hR.step hstep).1
    rw [← happ] at hacked hlt hlt' hR' hrev
    refine ⟨.receiver false false [] [], { J with receiver := R' }, ⟨rfl, rfl⟩, ?_,
      ⟨acked, hS, hacked⟩, hR', hlt, hlt', h.fwd, .inr (.inr (.inl ⟨hs, .inr hphase, hrev⟩))⟩
    rw [Joint.step, hstep, Option.map_some, Option.toList_none, List.append_nil]
  · -- the sender takes the acknowledgement
    obtain ⟨w, hrecv, hS'⟩ := hS.recv_ack (q := J.receiver.appended.length - 1) hs (by omega)
      (by omega) zeroPacket
    refine ⟨.senderRecv zeroPacket, { J with
      sender := { J.sender with cwndW := w, phase := .readAck }
      rev := [] }, trivial, ?_, ⟨_, hS', by dsimp only; omega⟩, ⟨base, hR⟩, hlt, hlt', h.fwd,
      .inr (.inr (.inr ⟨rfl, hr, rfl⟩))⟩
    rw [Joint.step, hrev]
    dsimp only
    rw [hrecv, Option.map_some]
  · -- and reads on, because a packet is pending
    have hpend : cwndNumPendingAcks J.sender.cwndW ≠ 0 := by
      rw [hS.window.numPendingAcks]
      omega
    refine ⟨.sender false false, { J with sender := { J.sender with phase := .recvAck } },
      ⟨rfl, rfl⟩, ?_, ⟨acked, hS.withPhase (show acked < J.sender.i by omega), hacked⟩, ⟨base, hR⟩,
      hlt, hlt', h.fwd, .inl ⟨rfl, hr, hrev⟩⟩
    rw [Joint.step, senderStep, hs]
    dsimp only
    rw [if_neg hpend, Option.map_some, Option.toList_none, List.append_nil]

/-! ### The sender comes to send again -/

/-- What stays as it is until the sender sends again. -/
structure Waking (pkts : List Packet) (n acked : ℕ) (J : Joint) : Prop where
  sender : SenderInv pkts n acked J.sender
  receiver : ∃ base added, ReceiverInv pkts n base added J.receiver
  acked_le : acked ≤ J.receiver.appended.length
  transmitting : J.Transmitting
  fwd : J.fwd = []

/-- The receiver has taken nothing of the sender's window, or all of it. -/
def Joint.TookNoneOrAll (J : Joint) : Prop :=
  J.receiver.appended.length = J.sender.shifted ∨ J.receiver.appended.length = J.sender.i

/-- How near the sender is to a datagram, the last stage first: it is about to send what is
pending; nothing is pending; the repeated acknowledgement is in flight; the receiver is about to
send it; both wait. -/
inductive Resuming (pkts : List Packet) (n acked : ℕ) (J : Joint) : Rank → Prop
  | sending : acked < J.sender.i → J.sender.Preparing pkts n acked →
      J.receiver.phase = .top ∨ J.receiver.phase = .read → J.rev = [] →
      Resuming pkts n acked J (rank 1 (J.sender.remaining pkts.length acked)
        (J.sender.stepsToRecv acked) J.receiver.phase.stepsToRecv)
  | done : acked = J.sender.i → J.receiver.phase = .top ∨ J.receiver.phase = .read → J.rev = [] →
      Resuming pkts n acked J (rank 2 (J.sender.remaining pkts.length acked)
        (J.sender.stepsToMore n pkts.length) J.receiver.phase.stepsToRecv)
  | returning : J.sender.phase = .recvAck → J.receiver.phase = .top ∨ J.receiver.phase = .read →
      J.TookNoneOrAll → 0 < J.receiver.appended.length →
      J.rev = [ackPacket (seqOf n (J.receiver.appended.length - 1))] →
      Resuming pkts n acked J (rank 3 J.receiver.phase.stepsToRecv 0 0)
  | answering : J.sender.phase = .recvAck → J.receiver.phase = .deliver →
      J.receiver.side = .waiting → J.TookNoneOrAll → 0 < J.receiver.appended.length → J.rev = [] →
      Resuming pkts n acked J (rank 4 0 0 0)
  | idle : J.Idle → J.TookNoneOrAll → Resuming pkts n acked J (rank 5 0 0 0)

/-- What an event brings. -/
def Wakes (pkts : List Packet) (n : ℕ) (w : Rank) (J : Joint) : Prop :=
  J.Resumed ∨ ∃ acked w', w' < w ∧ Waking pkts n acked J ∧ Resuming pkts n acked J w'

section Events

variable {pkts : List Packet} {n acked : ℕ} {J : Joint} {w : Rank}

theorem Resuming.sender {corr : Bool} {S' : Sender} {out : Option Packet}
    (hr : Resuming pkts n acked J w) (h : Waking pkts n acked J)
    (hstep : senderStep pkts false corr J.sender = some (S', out)) :
    Wakes pkts n w { J with sender := S', fwd := J.fwd ++ out.toList } := by
  obtain ⟨hS, -⟩ := h.sender.step hstep
  cases hr with
  | sending hlt hprep hwait hrev =>
    cases h.sender.pass hlt h.transmitting hstep with
    | add _ hlen hi hs hphase =>
      refine .inr ⟨acked, _, rank_lt_iff.2 (.inr ⟨rfl, .inl ?_⟩),
        ⟨hS, h.receiver, h.acked_le, ?_, ?_⟩, .sending ?_ (.inr (.inl hphase)) hwait hrev⟩
      · dsimp only [Sender.remaining]
        rw [hi, hs]
        omega
      · rw [Joint.Transmitting, Sender.side, hphase]
      · rw [h.fwd]
        rfl
      · dsimp only
        omega
    | fill hphase | shift hphase | write hphase =>
      refine .inr ⟨acked, _, rank_lt_iff.2 (.inr ⟨rfl, .inr ⟨rfl, .inl ?_⟩⟩),
        ⟨hS, h.receiver, h.acked_le, rfl, ?_⟩,
        .sending hlt (by simp [Sender.Preparing]) hwait hrev⟩
      · simp only [Sender.stepsToRecv, hphase, length_slotsFrom]
        exact Nat.lt_succ_self _
      · rw [h.fwd]
        rfl
    | send y hy hlt' hphase =>
      have hlen := h.sender.i_le
      have hpkt : pkts[y]? = some pkts[y] := List.getElem?_eq_getElem (by omega)
      refine .inl (.inl ?_)
      rw [hpkt]
      exact List.append_ne_nil_of_right_ne_nil _ (List.cons_ne_nil _ _)
    | written hphase =>
      simp only [Sender.Preparing, hphase, reduceCtorEq, false_or, SenderPhase.write.injEq] at hprep
      have hlen := congrArg List.length hprep
      rw [length_slotsFrom, List.length_nil] at hlen
      omega
    | wait hphase => simp [Sender.Preparing, hphase] at hprep
  | done hall hwait hrev =>
    obtain ⟨rfl, hleft | ⟨hside, ⟨hless, hsame | hfill⟩ | ⟨hi, hs, hless⟩⟩⟩ :=
      h.sender.step_acked hall h.transmitting hstep
    · exact .inl (.inr hleft)
    · refine .inr ⟨acked, _, rank_lt_iff.2 (.inr ⟨rfl, .inl hless⟩),
        ⟨hS, h.receiver, h.acked_le, hside, ?_⟩, .done (hall.trans hsame.symm) hwait hrev⟩
      rw [h.fwd]
      rfl
    · rcases hS.window.acked_le.eq_or_lt with hall' | hlt
      · refine .inr ⟨acked, _, rank_lt_iff.2 (.inr ⟨rfl, .inl hless⟩),
          ⟨hS, h.receiver, h.acked_le, hside, ?_⟩, .done hall' hwait hrev⟩
        rw [h.fwd]
        rfl
      · refine .inr ⟨acked, _, rank_lt_iff.2 (.inl (by norm_num)),
          ⟨hS, h.receiver, h.acked_le, hside, ?_⟩, .sending hlt (.inr (.inl hfill)) hwait hrev⟩
        rw [h.fwd]
        rfl
    · refine .inr ⟨acked, _, rank_lt_iff.2 (.inr ⟨rfl, .inr ⟨?_, .inl hless⟩⟩),
        ⟨hS, h.receiver, h.acked_le, hside, ?_⟩, .done (hall.trans hi.symm) hwait hrev⟩
      · exact Sender.remaining_congr hi hs _ _
      · rw [h.fwd]
        rfl
  | returning hphase =>
    rw [senderStep, hphase] at hstep
    cases hstep
  | answering hphase =>
    rw [senderStep, hphase] at hstep
    cases hstep
  | idle hidle =>
    rw [senderStep, hidle.sender] at hstep
    cases hstep

/-- The sender takes the repeated acknowledgement: it is behind the window, or that of all that is
pending. -/
theorem Resuming.recv_sender {stack pkt : Packet} {rest : List Packet} {S' : Sender}
    (hr : Resuming pkts n acked J w) (h : Waking pkts n acked J) (hchannel : J.rev = pkt :: rest)
    (hrecv : senderRecv stack (some (datagram pkt)) J.sender = some S') :
    Wakes pkts n w { J with sender := S', rev := rest } := by
  cases hr with
  | returning hphase hwait hpart hpos hrev =>
    obtain ⟨rfl, rfl⟩ := List.cons.inj (hchannel.symm.trans hrev)
    have hsound := h.sender.sound
    rw [hphase] at hsound
    have hlt : acked < J.sender.i := hsound
    have hbase := h.sender.window.base_le
    have hle := h.acked_le
    have hroom := h.sender.window.added_le
    have hn := h.sender.window.pos
    rcases hpart with hnone | hall
    · rw [h.sender.recv_ack_old hphase (by omega) (by omega) (by omega)] at hrecv
      cases hrecv
      exact .inr ⟨acked, _, rank_lt_iff.2 (.inl (by norm_num)),
        ⟨h.sender.withPhase trivial, h.receiver, h.acked_le, rfl, h.fwd⟩,
        .sending hlt (.inl rfl) hwait rfl⟩
    · obtain ⟨w', hw, hS⟩ := h.sender.recv_ack (q := J.receiver.appended.length - 1) hphase
        (by omega) (by omega) stack
      rw [hw] at hrecv
      cases hrecv
      have hmax : max acked (J.receiver.appended.length - 1 + 1) = J.receiver.appended.length := by
        omega
      rw [hmax] at hS
      exact .inr ⟨_, _, rank_lt_iff.2 (.inl (by norm_num)),
        ⟨hS, h.receiver, le_rfl, rfl, h.fwd⟩, .done hall hwait rfl⟩
  | sending _ _ _ hrev => rw [hrev] at hchannel; cases hchannel
  | done _ _ hrev => rw [hrev] at hchannel; cases hchannel
  | answering _ _ _ _ _ hrev => rw [hrev] at hchannel; cases hchannel
  | idle hidle => rw [hidle.rev] at hchannel; cases hchannel

theorem Resuming.receiver {behind heap : List UInt8} {R' : Receiver} {out : Option Packet}
    (hr : Resuming pkts n acked J w) (h : Waking pkts n acked J)
    (hstep : receiverStep false false behind heap J.receiver = some (R', out)) :
    Wakes pkts n w { J with receiver := R', rev := J.rev ++ out.toList } := by
  obtain ⟨base, added, hR⟩ := h.receiver
  obtain ⟨⟨base', hR'⟩, -⟩ := hR.step hstep
  -- outside `deliver` the receiver only comes to wait
  have hquiet : J.receiver.phase = .top ∨ J.receiver.phase = .read → out = none ∧
      R'.phase = .read ∧ R'.appended = J.receiver.appended ∧
        R'.phase.stepsToRecv < J.receiver.phase.stepsToRecv := by
    rintro (hphase | hphase)
    · have hsound := hR.sound
      rw [hphase] at hsound
      obtain ⟨R₁, hs, hphase', happ⟩ := receiverStep_top hphase hsound.2 false false behind heap
      cases hs.symm.trans hstep
      refine ⟨rfl, hphase', happ, ?_⟩
      rw [hphase, hphase']
      exact Nat.one_pos
    · rw [receiverStep, hphase] at hstep
      cases hstep
  cases hr with
  | sending hlt hprep hwait hrev =>
    obtain ⟨rfl, hread, happ, hless⟩ := hquiet hwait
    rw [Option.toList_none, List.append_nil]
    refine .inr ⟨acked, _, rank_lt_iff.2 (.inr ⟨rfl, .inr ⟨rfl, .inr ⟨rfl, hless⟩⟩⟩),
      ⟨h.sender, ⟨base', added, hR'⟩, ?_, h.transmitting, h.fwd⟩,
      .sending hlt hprep (.inr hread) hrev⟩
    dsimp only
    rw [happ]
    exact h.acked_le
  | done hall hwait hrev =>
    obtain ⟨rfl, hread, happ, hless⟩ := hquiet hwait
    rw [Option.toList_none, List.append_nil]
    refine .inr ⟨acked, _, rank_lt_iff.2 (.inr ⟨rfl, .inr ⟨rfl, .inr ⟨rfl, hless⟩⟩⟩),
      ⟨h.sender, ⟨base', added, hR'⟩, ?_, h.transmitting, h.fwd⟩, .done hall (.inr hread) hrev⟩
    dsimp only
    rw [happ]
    exact h.acked_le
  | returning hphase hwait hpart hpos hrev =>
    obtain ⟨rfl, hread, happ, hless⟩ := hquiet hwait
    rw [Option.toList_none, List.append_nil]
    have hle := h.acked_le
    unfold Joint.TookNoneOrAll at hpart
    rw [← happ] at hle hpart hpos hrev
    exact .inr ⟨acked, _, rank_lt_iff.2 (.inr ⟨rfl, .inl hless⟩),
      ⟨h.sender, ⟨base', added, hR'⟩, hle, h.transmitting, h.fwd⟩,
      .returning hphase (.inr hread) hpart hpos hrev⟩
  | answering hphase hdeliver hside hpart hpos hrev =>
    have hadded : added = J.receiver.appended.length := by
      have hsound := hR.sound
      rw [hdeliver] at hsound
      rcases hsound with hnone | ⟨hone, -⟩
      · exact hnone
      · rw [Receiver.side, hdeliver, hR.window.numPendingAcks, hone, Nat.add_sub_cancel_left]
          at hside
        cases hside
    subst hadded
    rw [receiverStep, hdeliver] at hstep
    dsimp only at hstep
    rw [deliver_of_none hR.window hR.started, if_pos hpos] at hstep
    cases hstep
    refine .inr ⟨acked, _, rank_lt_iff.2 (.inl (by norm_num)),
      ⟨h.sender, ⟨base', _, hR'⟩, h.acked_le, h.transmitting, h.fwd⟩,
      .returning hphase (.inl rfl) hpart hpos ?_⟩
    dsimp only
    rw [hrev, List.nil_append, Option.toList_some]
  | idle hidle =>
    rw [receiverStep, hidle.receiver] at hstep
    cases hstep

/-- A timeout comes only where both wait. -/
theorem Resuming.of_idle (hr : Resuming pkts n acked J w) (h : Waking pkts n acked J)
    (hidle : J.Idle) : w = rank 5 0 0 0 ∧ J.TookNoneOrAll := by
  cases hr with
  | sending _ hprep => simp [Sender.Preparing, hidle.sender] at hprep
  | done hall =>
    have hsound := h.sender.sound
    rw [hidle.sender] at hsound
    exact absurd hall (Nat.ne_of_lt hsound)
  | returning _ _ _ _ hrev => rw [hidle.rev] at hrev; cases hrev
  | answering _ hdeliver => rw [hidle.receiver] at hdeliver; cases hdeliver
  | idle _ hpart => exact ⟨rfl, hpart⟩

/-- An event brings the sender nearer to a datagram. -/
theorem Resuming.step {event : Event} {J' : Joint} (hr : Resuming pkts n acked J w)
    (h : Waking pkts n acked J) (hallowed : event.AckFirst J)
    (hstep : J.step pkts event = some J') : Wakes pkts n w J' := by
  cases event with
  | sender lost corr =>
    obtain ⟨rfl, rfl⟩ := hallowed
    obtain ⟨⟨S', out⟩, hs, rfl⟩ := Option.map_eq_some_iff.1 hstep
    exact hr.sender h hs
  | senderRecv stack =>
    rw [Joint.step] at hstep
    cases hrev : J.rev with
    | nil => rw [hrev] at hstep; cases hstep
    | cons pkt rest =>
      rw [hrev] at hstep
      obtain ⟨S', hs, rfl⟩ := Option.map_eq_some_iff.1 hstep
      exact hr.recv_sender h hrev hs
  | senderTimeout stack =>
    obtain ⟨hidle, -⟩ := hallowed
    obtain ⟨rfl, hpart⟩ := hr.of_idle h hidle
    have hsound := h.sender.sound
    rw [hidle.sender] at hsound
    rw [Joint.step, senderRecv_timeout stack hidle.sender] at hstep
    cases hstep
    exact .inr ⟨acked, _, rank_lt_iff.2 (.inl (by norm_num)),
      ⟨h.sender.withPhase trivial, h.receiver, h.acked_le, rfl, h.fwd⟩,
      .sending hsound (.inl rfl) (.inr hidle.receiver) hidle.rev⟩
  | receiver lost corr behind heap =>
    obtain ⟨rfl, rfl⟩ := hallowed
    obtain ⟨⟨R', out⟩, hs, rfl⟩ := Option.map_eq_some_iff.1 hstep
    exact hr.receiver h hs
  | receiverRecv stack =>
    rw [Joint.step, h.fwd] at hstep
    cases hstep
  | receiverTimeout stack =>
    obtain ⟨hidle, hstart⟩ := hallowed
    obtain ⟨rfl, hpart⟩ := hr.of_idle h hidle
    obtain ⟨base, added, hR⟩ := h.receiver
    obtain ⟨hR', hside⟩ := hR.ignored hidle.receiver
    have hsound := hR.sound
    rw [hidle.receiver] at hsound
    have hpos : 0 < J.receiver.appended.length := by
      rw [hR.started, decide_eq_true_iff] at hstart
      exact hsound.1 ▸ hstart
    rw [Joint.step, receiverRecv_read_timeout hidle.receiver] at hstep
    cases hstep
    exact .inr ⟨acked, _, rank_lt_iff.2 (.inl (by norm_num)),
      ⟨h.sender, ⟨base, added, hR'⟩, h.acked_le, h.transmitting, h.fwd⟩,
      .answering hidle.sender rfl hside hpart hpos hidle.rev⟩
  | dropFwd i => exact absurd hallowed id
  | dropRev i => exact absurd hallowed id
  | zeroFwd i => exact absurd hallowed id
  | zeroRev i => exact absurd hallowed id
  | follow pkt => exact absurd hallowed id

/-- Some event can happen. -/
theorem Resuming.next (hr : Resuming pkts n acked J w) (h : Waking pkts n acked J) :
    ∃ event J', event.AckFirst J ∧ J.step pkts event = some J' := by
  have hsender : J.sender.phase ≠ .recvAck →
      ∃ event J', event.AckFirst J ∧ J.step pkts event = some J' := by
    intro hphase
    obtain ⟨r, hr⟩ := h.sender.exists_step h.transmitting hphase false false
    exact ⟨.sender false false, _, ⟨rfl, rfl⟩, by rw [Joint.step, hr, Option.map_some]⟩
  obtain ⟨base, added, hR⟩ := h.receiver
  cases hr with
  | sending _ hprep => exact hsender fun e => by simp [Sender.Preparing, e] at hprep
  | done hall =>
    refine hsender fun e => ?_
    have hsound := h.sender.sound
    rw [e] at hsound
    exact absurd hall (Nat.ne_of_lt hsound)
  | returning hphase _ _ _ hrev =>
    refine ⟨.senderRecv zeroPacket, ?_⟩
    simp only [Joint.step, hrev, senderRecv, hphase, Option.map_some]
    exact ⟨_, trivial, rfl⟩
  | answering _ hdeliver =>
    obtain ⟨r, hr⟩ := hR.exists_step (fun e => by rw [hdeliver] at e; cases e)
      (fun e => by rw [hdeliver] at e; cases e) (fun e => by rw [hdeliver] at e; cases e)
      false false [] []
    exact ⟨.receiver false false [] [], _, ⟨rfl, rfl⟩, by rw [Joint.step, hr, Option.map_some]⟩
  | idle hidle =>
    cases hstart : J.receiver.cwndR.start with
    | true =>
      refine ⟨.receiverTimeout zeroPacket, ?_⟩
      rw [Joint.step, receiverRecv_read_timeout hidle.receiver, Option.map_some]
      exact ⟨_, ⟨hidle, hstart⟩, rfl⟩
    | false =>
      refine ⟨.senderTimeout zeroPacket, ?_⟩
      rw [Joint.step, senderRecv_timeout zeroPacket hidle.sender, Option.map_some]
      exact ⟨_, ⟨hidle, hstart⟩, rfl⟩

end Events

/-! ### The exact conditions -/

section Runs

variable {buf : List UInt8} {n : ℕ} {J : Joint} (hn : 0 < n) (hring : 2 * n ∣ 2 ^ 22)
  (hb : 1024 * (2 * n) < 2 ^ 31)
include hn hring hb

theorem inevitable_resumed_iff (h : (transferSystem buf (1024 * n)).Reachable J)
    (hidle : J.Idle) :
    (ackFirstRuns buf (1024 * n)).Inevitable Joint.Resumed J ↔ J.TookNoneOrAll := by
  obtain ⟨acked, _, _, hrel, hinv⟩ := Related.of_reachable hn hring hb h
  have hacked : acked ≤ J.receiver.appended.length := hinv.counts.acked_le
  have htaken : J.receiver.appended.length ≤ J.sender.i := hinv.counts.taken_le
  have hbase := hrel.sender.window.base_le
  constructor
  · intro hinevitable
    by_contra hpart
    unfold Joint.TookNoneOrAll at hpart
    obtain ⟨base, added, hR⟩ := hrel.receiver
    have hsound := hR.sound
    rw [hidle.receiver] at hsound
    rw [hsound.1] at hR
    have hstalled : Stalled (sentPackets buf (1024 * n)) n J :=
      ⟨⟨acked, hrel.sender, hacked⟩, ⟨base, hR⟩, by omega, by omega, hidle.fwd,
        .inl ⟨hidle.sender, hidle.receiver, hidle.rev⟩⟩
    refine StepSystem.not_inevitable hstalled (fun J hJ => ⟨hJ.not_resumed, ?_⟩) hinevitable
    obtain ⟨event, J', hallowed, hstep, hJ'⟩ := hJ.next
    exact ⟨J', ⟨event, hallowed, hstep⟩, hJ'⟩
  · intro hpart
    have hsend : J.Transmitting := by rw [Joint.Transmitting, Sender.side, hidle.sender]
    refine StepSystem.inevitable_of_work
      (I := fun J w => ∃ acked, Waking (sentPackets buf (1024 * n)) n acked J ∧
        Resuming (sentPackets buf (1024 * n)) n acked J w)
      ⟨acked, ⟨hrel.sender, hrel.receiver, hacked, hsend, hidle.fwd⟩, .idle hidle hpart⟩ ?_ ?_
    · rintro J w ⟨acked, hJ, hr⟩
      obtain ⟨event, J', hallowed, hstep⟩ := hr.next hJ
      exact ⟨J', event, hallowed, hstep⟩
    · rintro J J' w ⟨acked, hJ, hr⟩ ⟨event, hallowed, hstep⟩
      rcases hr.step hJ hallowed hstep with hresumed | ⟨acked', w', hless, hJ', hr'⟩
      · exact .inl hresumed
      · exact .inr ⟨w', hless, acked', hJ', hr'⟩

/-- The sender comes to send its first packets. -/
theorem quiet_first (hwnd : 1 < n) (hmore : 1 < (sentPackets buf (1024 * n)).length)
    (heap : ℕ → Packet) :
    ∃ S, Quiet (sentPackets buf (1024 * n)) (senderInit (1024 * n) heap) S ∧
      SenderInv (sentPackets buf (1024 * n)) n 0 S ∧ 1 < S.i ∧ S.shifted = 0 ∧
      S.phase = .write (slotsFrom (sentPackets buf (1024 * n)) n 0 S.i) := by
  have hinit : SenderInv (sentPackets buf (1024 * n)) n 0 (senderInit (1024 * n) heap) :=
    senderInv_init _ hn hring hb _
  have hstep : senderStep (sentPackets buf (1024 * n)) true false (senderInit (1024 * n) heap) =
      some ({ senderInit (1024 * n) heap with phase := .fill }, none) := by
    rw [senderStep, senderInit]
    dsimp only
    rw [if_pos (.inr (by omega))]
  obtain ⟨S₁, hquiet₁, hS₁, hphase₁, hshifted, hfull⟩ := quiet_fill (hinit.step hstep).1 rfl
  obtain ⟨S, hquiet, hS, hi, hwrite, -⟩ := quiet_shift hS₁ hphase₁
  have hbase := hS.window.base_le
  rw [← hi] at hwrite hfull
  refine ⟨S, (Quiet.single hstep).trans (hquiet₁.trans hquiet), hS, ?_, by omega, hwrite⟩
  rcases hfull with hend | hroom
  · omega
  · change S.i = 0 + n at hroom
    omega

/-- Of the first packets one arrives, and everything else is lost. -/
theorem exists_first_taken (hwnd : 1 < n) (hmore : 1 < (sentPackets buf (1024 * n)).length) :
    ∃ S J, (transferSystem buf (1024 * n)).Reachable J ∧
      SenderInv (sentPackets buf (1024 * n)) n 0 S ∧ 1 < S.i ∧ S.shifted = 0 ∧
      J.sender = { S with phase := .readAck } ∧ J.receiver.phase = .top ∧
      J.receiver.appended.length = 1 ∧ J.fwd = [] ∧ J.rev = [] := by
  have hnum : Numbered n (sentPackets buf (1024 * n)) := numbered_packetsOf hring hb _ _
  obtain ⟨S, hquiet, hS, hi, hshifted, hwrite⟩ :=
    quiet_first hn hring hb hwnd hmore fun _ => zeroPacket
  have hstart : (transferSystem buf (1024 * n)).Reachable
      ⟨senderInit (1024 * n) fun _ => zeroPacket, receiverInit (1024 * n) fun _ => zeroPacket,
        [], []⟩ :=
    .of_init ⟨⟨_, rfl⟩, ⟨_, rfl⟩, fun _ h => absurd h List.not_mem_nil,
      fun _ h => absurd h List.not_mem_nil⟩
  obtain ⟨R, hR, hread, happ⟩ : ∃ R, receiverStep false false [] []
      (receiverInit (1024 * n) fun _ => zeroPacket) = some (R, none) ∧ R.phase = .read ∧
        R.appended = [] := ⟨_, rfl, rfl, rfl⟩
  have h₁ := hstart.trans ((reaches_quiet hquiet).trans (reaches_receiver
    (J := ⟨S, receiverInit (1024 * n) fun _ => zeroPacket, [], []⟩) hR))
  obtain ⟨_, _, _, hrel, -⟩ := Related.of_reachable hn hring hb h₁
  obtain ⟨base, added, hinv⟩ := hrel.receiver
  obtain ⟨R', hreach, hphase, happ', hstarted, hw, pkt, hpkt, hslot⟩ :=
    reaches_holding hnum hinv hread rfl hS.i_le hwrite (Nat.zero_le _)
      (by rw [happ]; exact Nat.zero_lt_of_lt hi)
  have hlast : getLast (some pkt) = false := by
    rw [Bool.eq_false_iff]
    intro e
    have hend := ((hnum.last hpkt).1 e).2
    rw [happ, List.length_nil] at hend
    omega
  have hdeliver := deliver_of_pending hw hstarted hslot true false [] []
  rw [if_pos hlast] at hdeliver
  exact ⟨S, _, (h₁.trans hreach).trans (reaches_deliver hphase hdeliver), hS, hi, hshifted, rfl,
    rfl, by simp [happ', happ], rfl, rfl⟩

/-- Then both come to wait. -/
theorem exists_idle_partial (hwnd : 1 < n) (hmore : 1 < (sentPackets buf (1024 * n)).length) :
    ∃ J, (transferSystem buf (1024 * n)).Reachable J ∧ J.Idle ∧ ¬ J.TookNoneOrAll := by
  obtain ⟨S, J, h, hS, hi, hshifted, hsender, htop, htaken, hfwd, hrev⟩ :=
    exists_first_taken hn hring hb hwnd hmore
  obtain ⟨_, _, _, hrel, -⟩ := Related.of_reachable hn hring hb h
  obtain ⟨base, added, hinv⟩ := hrel.receiver
  have hsound := hinv.sound
  rw [htop] at hsound
  obtain ⟨R, hstep, hread, happ⟩ := receiverStep_top htop hsound.2 false false [] []
  have hwait := quiet_readAck (S := { S with phase := .readAck }) (hS.withPhase trivial) rfl
    (Nat.zero_lt_of_lt hi)
  rw [← hsender] at hwait
  refine ⟨_, h.trans ((reaches_receiver hstep).trans (reaches_quiet hwait)),
    ⟨rfl, hread, hfwd, ?_⟩, ?_⟩
  · dsimp only
    rw [hrev, Option.toList_none, List.append_nil]
  · unfold Joint.TookNoneOrAll
    dsimp only
    rw [happ, htaken, hsender]
    dsimp only
    omega

end Runs

/-- **When the sender is certain to send again.**  Both sides wait and nothing is in flight.  If
from now on nothing is lost, and the receiver's timeouts come before the sender's wherever they make
it repeat an acknowledgement, then the sender is certain to send again, or to leave its loop,
exactly if the receiver has taken nothing or everything of the packets in the sender's window. -/
theorem retransmission_inevitable_iff {buf : List UInt8} {e : ℕ} {J : Joint} (he : 10 ≤ e)
    (he' : e ≤ 29) (h : (transferSystem buf (2 ^ e)).Reachable J) (hidle : J.Idle) :
    (ackFirstRuns buf (2 ^ e)).Inevitable Joint.Resumed J ↔ J.TookNoneOrAll := by
  obtain ⟨n, hW, hn, hring, hb⟩ := exists_packets_of_pow he he'
  rw [hW] at h ⊢
  exact inevitable_resumed_iff hn hring hb h hidle

theorem retransmission_inevitable_1013 :
    ∃ J, (transferSystem (List.replicate 1013 65) (2 ^ 12)).Reachable J ∧ J.Idle ∧
      ¬ J.TookNoneOrAll ∧ ((ackFirstRuns (List.replicate 1013 65) (2 ^ 12)).Inevitable
        Joint.Resumed J ↔ J.TookNoneOrAll) := by
  have hlength : (sentPackets (List.replicate 1013 65) (1024 * 4)).length = 2 := by
    rw [length_sentPackets (by rw [List.length_replicate]; norm_num), List.length_replicate]
  obtain ⟨J, h, hidle, hpart⟩ :
      ∃ J, (transferSystem (List.replicate 1013 65) (1024 * 4)).Reachable J ∧ J.Idle ∧
        ¬ J.TookNoneOrAll :=
    exists_idle_partial (by norm_num) (by norm_num) (by norm_num) (by norm_num)
      (by rw [hlength]; norm_num)
  exact ⟨J, h, hidle, hpart, retransmission_inevitable_iff (by norm_num) (by norm_num) h hidle⟩

/-- **The transfers that may stall.**  Some run leads to a state in which both sides wait, nothing
is in flight, and the sender may be kept from sending again for ever, exactly if the window and the
buffer take more than one packet. -/
theorem transfer_may_stall_iff {buf : List UInt8} {e : ℕ} (he : 10 ≤ e) (he' : e ≤ 29)
    (hlen : buf.length < 2 ^ 31) :
    (∃ J, (transferSystem buf (2 ^ e)).Reachable J ∧ J.Idle ∧
        ¬ (ackFirstRuns buf (2 ^ e)).Inevitable Joint.Resumed J) ↔
      packetSize < 2 ^ e ∧ maxBodySize < buf.length := by
  obtain ⟨n, hW, hn, hring, hb⟩ := exists_packets_of_pow he he'
  rw [hW]
  have hlength := length_sentPackets hlen (1024 * n)
  have hcond : packetSize < 1024 * n ∧ maxBodySize < buf.length ↔
      1 < n ∧ 1 < (sentPackets buf (1024 * n)).length := by
    rw [hlength, packetSize, maxBodySize]
    omega
  rw [hcond]
  constructor
  · rintro ⟨J, h, hidle, hstall⟩
    rw [inevitable_resumed_iff hn hring hb h hidle] at hstall
    obtain ⟨acked, _, _, hrel, hinv⟩ := Related.of_reachable hn hring hb h
    unfold Joint.TookNoneOrAll at hstall
    have hacked : acked ≤ J.receiver.appended.length := hinv.counts.acked_le
    have htaken : J.receiver.appended.length ≤ J.sender.i := hinv.counts.taken_le
    have hbase := hrel.sender.window.base_le
    have hroom := hrel.sender.window.added_le
    have hi := hrel.sender.i_le
    omega
  · rintro ⟨hwnd, hmore⟩
    obtain ⟨J, h, hidle, hpart⟩ := exists_idle_partial hn hring hb hwnd hmore
    exact ⟨J, h, hidle, fun hno => hpart ((inevitable_resumed_iff hn hring hb h hidle).1 hno)⟩

theorem transfer_may_stall_1013 :
    ∃ J, (transferSystem (List.replicate 1013 65) (2 ^ 12)).Reachable J ∧ J.Idle ∧
      ¬ (ackFirstRuns (List.replicate 1013 65) (2 ^ 12)).Inevitable Joint.Resumed J :=
  (transfer_may_stall_iff (by norm_num) (by norm_num)
    (by rw [List.length_replicate]; norm_num)).2
    ⟨by norm_num [packetSize], by rw [List.length_replicate, maxBodySize]; norm_num⟩

end Tcp118
