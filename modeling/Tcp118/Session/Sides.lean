import Tcp118.Session.Basic
import Tcp118.Library.StaleFront

/-!
# Faults, and what the sides send and take

* `Fault.apply_append`, `Fault.forall_mem`, `Fault.staleFront`: what the network does to a channel;
* `reaches_faultFwd`, `reaches_faultRev`: to a transfer;
* `receiverStep_ignorable`: what a receiver may send;
* `Sender.Leaving.step`, `Sender.Leaving.recv`: a sender behind its transmission loop;
* `SenderInv.timeout`, `SenderInv.recv_control`: what a sender makes of a control packet that comes
  before any acknowledgement;
* `Call.Between.step`, `Call.Between.recv`: a program between two transfers stays there.
-/

namespace Tcp118

open Protocol

/-! ### Faults -/

section Faults

variable {fault : Fault} {channel channel' front back : List Packet} {i : ℕ}

theorem Fault.apply_drop (i : ℕ) (channel : List Packet) :
    (Fault.drop i).apply channel =
      if i < channel.length then some (channel.eraseIdx i) else none := rfl

theorem Fault.apply_zero (i : ℕ) (channel : List Packet) :
    (Fault.zero i).apply channel = zeroAt channel i := rfl

theorem Fault.drop_cases (h : (Fault.drop i).apply channel = some channel') :
    i < channel.length ∧ channel' = channel.eraseIdx i := by
  rw [Fault.apply_drop] at h
  split_ifs at h with hi
  cases h
  exact ⟨hi, rfl⟩

theorem Fault.drop_first (pkt : Packet) (channel : List Packet) :
    (Fault.drop 0).apply (pkt :: channel) = some channel := rfl

theorem zeroAt_of_flag {pkt : Packet} (hpkt : channel[i]? = some pkt)
    (hflag : getACK pkt = true ∨ getClose pkt = true) :
    zeroAt channel i = some (channel.set i zeroPacket) := by
  unfold zeroAt
  rw [hpkt]
  dsimp only
  rw [if_pos (by simpa using hflag)]

/-- A fault of a channel in two parts is a fault of one of them. -/
theorem Fault.apply_append (h : fault.apply (front ++ back) = some channel) :
    (∃ front', fault.apply front = some front' ∧ channel = front' ++ back) ∨
      ∃ fault' back', Fault.apply fault' back = some back' ∧ channel = front ++ back' := by
  cases fault with
  | drop i =>
    obtain ⟨hi, rfl⟩ := Fault.drop_cases h
    rw [List.length_append] at hi
    rcases Nat.lt_or_ge i front.length with hlt | hge
    · exact .inl ⟨_, if_pos hlt, List.eraseIdx_append_of_lt_length hlt back⟩
    · exact .inr ⟨.drop (i - front.length), _, if_pos (by omega),
        List.eraseIdx_append_of_length_le hge back⟩
  | zero i =>
    obtain ⟨pkt, hpkt, hflag, rfl⟩ := zeroAt_cases h
    rcases Nat.lt_or_ge i front.length with hlt | hge
    · rw [List.getElem?_append_left hlt] at hpkt
      rw [List.set_append_left _ _ hlt]
      exact .inl ⟨_, zeroAt_of_flag hpkt hflag, rfl⟩
    · rw [List.getElem?_append_right hge] at hpkt
      rw [List.set_append_right _ _ hge]
      exact .inr ⟨.zero (i - front.length), _, zeroAt_of_flag hpkt hflag, rfl⟩

/-- What holds of every datagram of a channel and of the zero packet holds after a fault. -/
theorem Fault.forall_mem {P : Packet → Prop} (h : fault.apply channel = some channel')
    (hzero : P zeroPacket) (hall : ∀ pkt ∈ channel, P pkt) : ∀ pkt ∈ channel', P pkt := by
  intro pkt hpkt
  cases fault with
  | drop i =>
    obtain ⟨-, rfl⟩ := Fault.drop_cases h
    exact hall pkt (List.mem_of_mem_eraseIdx hpkt)
  | zero i =>
    obtain ⟨_, -, -, rfl⟩ := zeroAt_cases h
    rcases List.mem_or_eq_of_mem_set hpkt with hmem | rfl
    · exact hall pkt hmem
    · exact hzero

/-- Nothing happens to an empty channel. -/
theorem Fault.ne_nil (h : fault.apply channel = some channel') : channel ≠ [] := by
  rintro rfl
  cases fault <;> cases h

/-- A fault of a channel with a stale front is a fault of the front or of the rest. -/
theorem Fault.staleFront {P : Packet → Prop} {C : Prop} {live : List Packet}
    (h : StaleFront P C channel live) (hzero : P zeroPacket)
    (hfault : fault.apply channel = some channel') :
    StaleFront P C channel' live ∨
      ∃ fault' live', Fault.apply fault' live = some live' ∧ StaleFront P C channel' live' := by
  obtain ⟨stale, rfl, hP, hC⟩ := h
  rcases Fault.apply_append hfault with ⟨front, hfront, rfl⟩ | ⟨fault', live', hlive, rfl⟩
  · exact .inl ⟨front, rfl, Fault.forall_mem hfront hzero hP, fun _ => hC (Fault.ne_nil hfront)⟩
  · exact .inr ⟨fault', live', hlive, stale, rfl, hP, hC⟩

end Faults

section Runs

variable {buf : List UInt8} {W : ℕ} {J : Joint}

theorem reaches_faultFwd {fault : Fault} {channel : List Packet}
    (h : fault.apply J.fwd = some channel) :
    (transferSystem buf W).Reaches J { J with fwd := channel } := by
  cases fault with
  | drop i =>
    obtain ⟨hi, rfl⟩ := Fault.drop_cases h
    exact reaches_step (.dropFwd i) (if_pos hi)
  | zero i =>
    apply reaches_step (.zeroFwd i)
    rw [Fault.apply_zero] at h
    simp only [Joint.step, h, Option.map_some]

theorem reaches_faultRev {fault : Fault} {channel : List Packet}
    (h : fault.apply J.rev = some channel) :
    (transferSystem buf W).Reaches J { J with rev := channel } := by
  cases fault with
  | drop i =>
    obtain ⟨hi, rfl⟩ := Fault.drop_cases h
    exact reaches_step (.dropRev i) (if_pos hi)
  | zero i =>
    apply reaches_step (.zeroRev i)
    rw [Fault.apply_zero] at h
    simp only [Joint.step, h, Option.map_some]

end Runs

/-! ### What the sides send and take -/

section Sides

variable {pkts : List Packet} {n acked : ℕ} {S S' : Sender} {R R' : Receiver}
  {lost corr : Bool} {out : Option Packet} {stack pkt : Packet} {got : Option Datagram}

/-- `writeAckPacket` sends an acknowledgement or a zeroed one. -/
theorem writeAckPacket_ignorable {w w' : Cwnd} {b : Bool}
    (h : writeAckPacket lost corr w = some (w', out, b)) (hpkt : pkt ∈ out.toList) :
    Ignorable pkt := by
  obtain ⟨seq, -, hseq⟩ := Option.bind_eq_some_iff.1 h
  have hack : pkt ∈ (some (ackPacket seq)).toList → Ignorable pkt := fun hmem => by
    rw [List.mem_singleton.1 hmem]
    exact ignorable_ackPacket seq
  have hzero : pkt ∈ (some zeroPacket).toList → Ignorable pkt := fun hmem => by
    rw [List.mem_singleton.1 hmem]
    exact IsControl.ignorable (.inr rfl)
  by_cases hagain : cwndNumPendingAcks w = 0 ∧ cwndGetStarted w = true
  · rw [if_pos hagain] at hseq
    cases hseq
    exact hack hpkt
  rw [if_neg hagain] at hseq
  by_cases hstarted : cwndGetStarted w = true
  · rw [if_pos hstarted] at hseq
    cases hseq
    cases lost
    · cases corr
      · exact hack hpkt
      · exact hzero hpkt
    · exact absurd hpkt List.not_mem_nil
  · rw [if_neg hstarted] at hseq
    cases hseq
    exact absurd hpkt List.not_mem_nil

/-- Whatever a receiver sends, another receiver ignores. -/
theorem receiverStep_ignorable {behind heap : List UInt8}
    (h : receiverStep lost corr behind heap R = some (R', out)) :
    ∀ pkt ∈ out.toList, Ignorable pkt := by
  intro pkt hpkt
  unfold receiverStep at h
  cases hphase : R.phase with
  | deliver =>
    rw [hphase] at h
    obtain ⟨p, -, hrest⟩ := Option.bind_eq_some_iff.1 h
    obtain ⟨⟨w, out', b⟩, hack, heq⟩ := Option.bind_eq_some_iff.1 hrest
    cases heq
    exact writeAckPacket_ignorable hack hpkt
  | top => rw [hphase] at h; cases h; exact absurd hpkt List.not_mem_nil
  | close => rw [hphase] at h; cases h; exact (writeClosePacket_control hpkt).ignorable
  | read => rw [hphase] at h; cases h
  | readClose => rw [hphase] at h; cases h
  | exited => rw [hphase] at h; cases h

theorem Sender.Leaving.step (h : S.Leaving)
    (hstep : senderStep pkts lost corr S = some (S', out)) :
    S'.Leaving ∧ ∀ pkt ∈ out.toList, IsControl pkt := by
  obtain ⟨hside, hout⟩ := senderStep_of_closing h.side hstep
  exact ⟨⟨hside, Sender.counting_of_step hstep⟩, hout⟩

theorem Sender.Leaving.recv (h : S.Leaving) (hrecv : senderRecv stack got S = some S') :
    S'.Leaving :=
  ⟨senderRecv_of_closing h.side hrecv, h.counting.recv hrecv⟩

/-- A timeout acknowledges nothing. -/
theorem SenderInv.timeout (h : SenderInv pkts n acked S)
    (hrecv : senderRecv stack none S = some S') : SenderInv pkts n acked S' := by
  rcases senderRecv_phase hrecv with hphase | ⟨k, hphase⟩
  · rw [senderRecv_timeout stack hphase] at hrecv
    cases hrecv
    exact h.withPhase trivial
  · have hsound := h.sound
    rw [hphase] at hsound
    rw [senderRecv_readClose_timeout hphase] at hrecv
    cases hrecv
    refine h.withPhase ?_
    split_ifs <;> exact hsound

/-- As long as nothing has been acknowledged, a control packet has the effect of a timeout. -/
theorem SenderInv.recv_control (h : SenderInv pkts n 0 S) (hpos : 0 < pkts.length)
    (hpkt : IsControl pkt) (hrecv : senderRecv stack (some (datagram pkt)) S = some S') :
    senderRecv stack none S = some S' := by
  rcases senderRecv_phase hrecv with hphase | ⟨k, hphase⟩
  · rw [senderRecv_of_not_ack hphase (.inl hpkt.not_ack)] at hrecv
    rw [senderRecv_timeout stack hphase, hrecv]
  · have hsound : 0 = pkts.length := by
      have hsound := h.sound
      rwa [hphase] at hsound
    omega

/-- A `readTCP` that has returned does nothing more. -/
theorem receiverStep_of_exited {behind heap : List UInt8} (h : R.phase = .exited) :
    receiverStep lost corr behind heap R = none := by
  unfold receiverStep
  rw [h]

theorem receiverRecv_of_exited (h : R.phase = .exited) : receiverRecv stack got R = none := by
  unfold receiverRecv
  rw [h]

theorem Sender.returned_iff : S.returned = true ↔ ∃ b, S.phase = .exited b := by
  unfold Sender.returned
  cases S.phase <;> simp

end Sides

/-! ### Between two transfers -/

section Between

variable {c c' : Call} {lost corr : Bool} {behind heap : List UInt8} {out : Option Packet}
  {stack pkt : Packet}

/-- A step of an idle receiver, with the window of the client. -/
theorem Receiver.Idle.client_step {R R' : Receiver} (h : R.Idle clientWnd)
    (hstep : receiverStep lost corr behind heap R = some (R', out)) :
    R'.Idle clientWnd ∧ out = none :=
  Receiver.Idle.step (n := 4) (by norm_num) (by norm_num) (by norm_num) h hstep

/-- Between two transfers a program sends nothing that a new transfer has to take. -/
theorem Call.Between.step (h : c.Between clientWnd)
    (hstep : c.step lost corr behind heap = some (c', out)) :
    c'.Between clientWnd ∧ ∀ pkt ∈ out.toList, Ignorable pkt := by
  cases h with
  | leaving hleaving =>
    obtain ⟨⟨S, out'⟩, hs, heq⟩ := Option.map_eq_some_iff.1 hstep
    cases heq
    obtain ⟨hleaving', hout⟩ := hleaving.step hs
    exact ⟨.leaving hleaving', fun pkt hpkt => (hout pkt hpkt).ignorable⟩
  | idle hidle =>
    obtain ⟨⟨R, out'⟩, hs, heq⟩ := Option.map_eq_some_iff.1 hstep
    cases heq
    exact ⟨.idle (hidle.client_step hs).1, receiverStep_ignorable hs⟩

theorem Call.Between.timeout (h : c.Between clientWnd) (hrecv : c.recv stack none = some c') :
    c'.Between clientWnd := by
  cases h with
  | leaving hleaving =>
    obtain ⟨S, hs, rfl⟩ := Option.map_eq_some_iff.1 hrecv
    exact .leaving (hleaving.recv hs)
  | idle hidle =>
    obtain ⟨R, hs, rfl⟩ := Option.map_eq_some_iff.1 hrecv
    exact .idle (hidle.recv_timeout hs)

theorem Call.Between.recv (h : c.Between clientWnd) (hpkt : Ignorable pkt)
    (hrecv : c.recv stack (some (datagram pkt)) = some c') : c'.Between clientWnd := by
  cases h with
  | leaving hleaving =>
    obtain ⟨S, hs, rfl⟩ := Option.map_eq_some_iff.1 hrecv
    exact .leaving (hleaving.recv hs)
  | idle hidle =>
    obtain ⟨R, hs, rfl⟩ := Option.map_eq_some_iff.1 hrecv
    exact .idle (hidle.recv_timeout (hidle.recv_ignorable hpkt hs))

end Between

end Tcp118
