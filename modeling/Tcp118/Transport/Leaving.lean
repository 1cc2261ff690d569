import Tcp118.Transport.Returns
import Tcp118.Transport.SenderRuns

/-!
# A sender that leaves too early

Ten timeouts in a row end the closing loop of `writeTCP`, whether or not its peer has heard of the
end.

* `Sender.Counting`: the index of that loop stays below ten;
* `senderStep_of_closing`, `senderRecv_of_closing`: a sender that is leaving;
* `quiet_leave`: from the closing loop to the return, with everything lost;
* `reaches_stranded_of_closing`, `reaches_stranded_of_canLeave`: the peer may be left behind as long
  as it has not returned;
* `readTCP_may_strand`: so the return of `readTCP` is never certain before it happens.
-/

namespace Tcp118

open Protocol

/-- The index of the loop of `readClosePacketSender`. -/
def Sender.Counting (S : Sender) : Prop := ∀ k, S.phase = .readClose k → k < 10

section Counting

variable {pkts : List Packet} {S S' : Sender}

/-- The loop starts at `0`. -/
theorem Sender.counting_of_step {lost corr : Bool} {out : Option Packet}
    (hstep : senderStep pkts lost corr S = some (S', out)) : S'.Counting := by
  intro k hk
  unfold senderStep at hstep
  cases hphase : S.phase with
  | close =>
    rw [hphase] at hstep
    cases hstep
    cases hk
    norm_num
  | readClose j => rw [hphase] at hstep; cases hstep
  | exited b => rw [hphase] at hstep; cases hstep
  | recvAck => rw [hphase] at hstep; cases hstep
  | top | readAck =>
    rw [hphase] at hstep
    dsimp only at hstep
    split_ifs at hstep <;> cases hstep <;> cases hk
  | fill =>
    rw [hphase] at hstep
    dsimp only at hstep
    split at hstep
    · split_ifs at hstep
      · cases hstep
        cases hk
      · cases hstep
        cases hk
    · cases hstep
      cases hk
  | shift =>
    rw [hphase] at hstep
    obtain ⟨todo, -, heq⟩ := Option.map_eq_some_iff.1 hstep
    cases heq
    cases hk
  | write todo =>
    rw [hphase] at hstep
    cases todo with
    | nil => cases hstep; cases hk
    | cons entry todo =>
      obtain ⟨pkt, -, heq⟩ := Option.map_eq_some_iff.1 hstep
      cases heq
      cases hk

theorem Sender.Counting.recv {stack : Packet} {recv : Option Datagram} (h : S.Counting)
    (hrecv : senderRecv stack recv S = some S') : S'.Counting := by
  intro k hk
  rcases senderRecv_phase hrecv with hphase | ⟨j, hphase⟩
  · unfold senderRecv at hrecv
    rw [hphase] at hrecv
    cases hrecv
    dsimp only at hk
    split_ifs at hk
  · have hj := h j hphase
    unfold senderRecv at hrecv
    rw [hphase] at hrecv
    dsimp only at hrecv
    split at hrecv
    · cases hrecv
      dsimp only at hk
      split_ifs at hk
    · cases hrecv
      dsimp only at hk
      split_ifs at hk with hend
      cases hk
      omega

theorem Sender.counting_init (W : ℕ) (heap : ℕ → Packet) : (senderInit W heap).Counting :=
  fun _ hk => by cases hk

theorem counting_of_reachable {buf : List UInt8} {W : ℕ} {J : Joint}
    (h : (transferSystem buf W).Reachable J) : J.sender.Counting := by
  refine h.invariant (I := fun J => J.sender.Counting) ?_ ?_
  · rintro J₀ ⟨⟨heap, hS⟩, -, -, -⟩
    rw [hS]
    exact Sender.counting_init W heap
  · rintro J J' - hc ⟨event, -, hstep⟩
    rcases J.step_sender hstep with he | ⟨lost, corr, out, hs⟩ | ⟨stack, recv, hs⟩
    · rw [he]
      exact hc
    · exact Sender.counting_of_step hs
    · exact hc.recv hs

theorem writeClosePacket_control {lost corr : Bool} {pkt : Packet}
    (h : pkt ∈ (writeClosePacket lost corr).toList) : IsControl pkt := by
  unfold writeClosePacket at h
  cases lost
  · cases corr
    · exact .inl (List.mem_singleton.1 h)
    · exact .inr (List.mem_singleton.1 h)
  · exact absurd h List.not_mem_nil

/-- Behind its transmission loop a sender sends close packets only. -/
theorem senderStep_of_closing {lost corr : Bool} {out : Option Packet}
    (hside : S.side ≠ .transmitting) (h : senderStep pkts lost corr S = some (S', out)) :
    S'.side ≠ .transmitting ∧ ∀ pkt ∈ out.toList, IsControl pkt := by
  unfold Sender.side at hside
  unfold senderStep at h
  cases hphase : S.phase with
  | close =>
    rw [hphase] at h
    cases h
    exact ⟨fun e => (by cases e), fun pkt hpkt => writeClosePacket_control hpkt⟩
  | readClose k => rw [hphase] at h; cases h
  | exited b => rw [hphase] at h; cases h
  | top => rw [hphase] at hside; exact absurd rfl hside
  | fill => rw [hphase] at hside; exact absurd rfl hside
  | shift => rw [hphase] at hside; exact absurd rfl hside
  | write todo => rw [hphase] at hside; exact absurd rfl hside
  | readAck => rw [hphase] at hside; exact absurd rfl hside
  | recvAck => rw [hphase] at hside; exact absurd rfl hside

theorem senderRecv_of_closing {stack : Packet} {recv : Option Datagram}
    (hside : S.side ≠ .transmitting) (h : senderRecv stack recv S = some S') :
    S'.side ≠ .transmitting := by
  rcases senderRecv_phase h with hphase | ⟨k, hphase⟩
  · rw [Sender.side, hphase] at hside
    exact absurd rfl hside
  · unfold senderRecv at h
    rw [hphase] at h
    dsimp only at h
    split at h
    · cases h
      unfold Sender.side
      dsimp only
      split_ifs <;> exact fun e => by cases e
    · cases h
      unfold Sender.side
      dsimp only
      split_ifs <;> exact fun e => by cases e

/-- The timeouts of the closing loop. -/
theorem quiet_timeouts {k : ℕ} (hk : k < 10) (hphase : S.phase = .readClose k) :
    Quiet pkts S { S with phase := .exited false } := by
  induction hd : 9 - k generalizing S k with
  | zero =>
    have hrecv := senderRecv_readClose_timeout hphase zeroPacket
    rw [if_pos (by omega)] at hrecv
    exact Relation.ReflTransGen.single (.inr hrecv)
  | succ d ih =>
    have hrecv := senderRecv_readClose_timeout hphase zeroPacket
    rw [if_neg (by omega)] at hrecv
    exact (Quiet.trans (Relation.ReflTransGen.single (.inr hrecv))
      (ih (S := { S with phase := .readClose (k + 1) }) (by omega) rfl (by omega)))

/-- From anywhere behind the transmission loop the sender may return. -/
theorem quiet_leave (pkts : List Packet) (hside : S.side ≠ .transmitting) (hc : S.Counting) :
    ∃ b, Quiet pkts S { S with phase := .exited b } := by
  cases hs : S.side with
  | transmitting => exact absurd hs hside
  | closing =>
    rcases Sender.side_eq_closing_iff.1 hs with hphase | ⟨k, hphase⟩
    · have hstep : senderStep pkts true false S =
          some ({ S with phase := .readClose 0 }, none) := by
        unfold senderStep
        rw [hphase]
        rfl
      exact ⟨false, (Quiet.single hstep).trans
        (quiet_timeouts (S := { S with phase := .readClose 0 }) (by norm_num) rfl)⟩
    · exact ⟨false, quiet_timeouts (hc k hphase) hphase⟩
  | left b =>
    have hphase := Sender.side_eq_left_iff.1 hs
    refine ⟨b, ?_⟩
    rw [← hphase]
    exact .refl S

end Counting

section Stranding

variable {buf : List UInt8} {n : ℕ} {J : Joint}

/-- A receiver that waits for a close packet may be left without one. -/
theorem reaches_stranded_of_closing {W : ℕ} (h : (transferSystem buf W).Reachable J)
    (hend : ¬ J.Transmitting) (hside : J.receiver.side = .closing) :
    ∃ J', (transferSystem buf W).Reaches J J' ∧ Stranded J' := by
  obtain ⟨b, hquiet⟩ := quiet_leave (sentPackets buf W) hend (counting_of_reachable h)
  refine ⟨_, (reaches_quiet hquiet).trans (reaches_dropFwd _), hside, ⟨b, rfl⟩, ?_⟩
  exact List.not_mem_nil

variable (hn : 0 < n) (hring : 2 * n ∣ 2 ^ 22) (hb : 1024 * (2 * n) < 2 ^ 31)
include hn hring hb

/-- So may one whose peer still transmits, if the transmission can end at all. -/
theorem reaches_stranded_of_canLeave (hflag : finalFlag (sentPackets buf (1024 * n)) = true)
    (h : (transferSystem buf (1024 * n)).Reachable J) (hsend : J.Transmitting)
    (hleave : CanLeave buf (1024 * n) J) :
    ∃ J', (transferSystem buf (1024 * n)).Reaches J J' ∧ Stranded J' := by
  obtain ⟨J', hreach, hend⟩ := hleave
  obtain ⟨J₁, J₂, hwithin, hsend₁, ⟨event, hallowed, hevent⟩, hend₂⟩ :=
    hreach.exists_exit hsend hend
  have hreach₁ := hwithin.of_within
  have hreach₂ := hreach₁.trans (.single ⟨event, hallowed, hevent⟩)
  -- the step that ends the transmission loop is one of the sender
  have hreceiver : J₂.receiver = J₁.receiver := by
    rcases J₁.step_one hevent with he | he
    · rw [Joint.Transmitting, he] at hend₂
      exact absurd hsend₁ hend₂
    · exact he
  have hside : J₂.receiver.side = .closing := by
    rcases closing_or_left hn hring hb hflag (h.trans hreach₂) hend₂ with hside | hleft
    · exact hside
    · obtain ⟨_, _, _, -, hinv⟩ := Related.of_reachable hn hring hb (h.trans hreach₁)
      rw [hreceiver] at hleft
      exact absurd hsend₁ (hinv.phases.left hleft)
  obtain ⟨J₃, hreach₃, hstranded⟩ :=
    reaches_stranded_of_closing (h.trans hreach₂) hend₂ hside
  exact ⟨J₃, hreach₂.trans hreach₃, hstranded⟩

/-- As long as `readTCP` has not returned, a run leads to a state from which it cannot. -/
theorem reaches_not_canReturn (h : (transferSystem buf (1024 * n)).Reachable J)
    (hphase : J.receiver.phase ≠ .exited) :
    ∃ J', (transferSystem buf (1024 * n)).Reaches J J' ∧ ¬ CanReturn buf (1024 * n) J' := by
  by_cases hreturn : CanReturn buf (1024 * n) J
  swap
  · exact ⟨J, .refl J, hreturn⟩
  have hflag : finalFlag (sentPackets buf (1024 * n)) = true := by
    by_contra hno
    obtain ⟨J', hreach, hret⟩ := hreturn
    exact not_receiving_of_exited hret (not_returned_of_not_flag hn hring hb hno (h.trans hreach))
  have hstranded : ∃ J', (transferSystem buf (1024 * n)).Reaches J J' ∧ Stranded J' := by
    by_cases hsend : J.Transmitting
    · have hleave : CanLeave buf (1024 * n) J := by
        obtain ⟨J', hreach, hret⟩ := hreturn
        obtain ⟨_, _, _, -, hinv⟩ := Related.of_reachable hn hring hb (h.trans hreach)
        exact ⟨J', hreach, hinv.phases.left (Receiver.side_eq_left_iff.2 hret)⟩
      exact reaches_stranded_of_canLeave hn hring hb hflag h hsend hleave
    · rcases closing_or_left hn hring hb hflag h hsend with hside | hleft
      · exact reaches_stranded_of_closing h hsend hside
      · exact absurd (Receiver.side_eq_left_iff.1 hleft) hphase
  obtain ⟨J', hreach, hs⟩ := hstranded
  exact ⟨J', hreach, hs.not_canReturn hn hring hb (h.trans hreach)⟩

end Stranding

/-- **`readTCP` is not certain to return before it has.**  From every reachable state in which it
has not returned, a run leads to one from which no run lets it return. -/
theorem readTCP_may_strand {buf : List UInt8} {e : ℕ} {J : Joint} (he : 10 ≤ e) (he' : e ≤ 29)
    (h : (transferSystem buf (2 ^ e)).Reachable J) (hphase : J.receiver.phase ≠ .exited) :
    ∃ J', (transferSystem buf (2 ^ e)).Reaches J J' ∧ ¬ CanReturn buf (2 ^ e) J' := by
  obtain ⟨n, hW, hn, hring, hb⟩ := exists_packets_of_pow he he'
  rw [hW] at h ⊢
  exact reaches_not_canReturn hn hring hb h hphase

theorem readTCP_may_strand_byte :
    ∃ J, (transferSystem [65] (2 ^ 12)).Reaches startOfTransfer J ∧ ¬ CanReturn [65] (2 ^ 12) J :=
  readTCP_may_strand (by norm_num) (by norm_num) startOfTransfer_reachable fun e => by cases e

end Tcp118
