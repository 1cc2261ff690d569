import Tcp118.Transport.Completion
import Tcp118.Transport.Recovery

/-!
# The return of both calls after a recovery

Behind the transmission loop datagrams of all kinds may still be in flight in a patient run.

* `Ending`: how near both calls are to their return;
* `Ending.step`, `Ending.next`: each patient event brings them nearer, and some event can happen;
* `Joint.Returned`: what a transfer comes to;
* `transfer_recovers_iff`: when it is certain to come there.
-/

namespace Tcp118

open Protocol
open StepSystem (Rank rank rank_lt_iff)

/-- How near both calls are to their return, the last stage first: the receiver has returned; a
close packet is in flight to it; the sender is about to send one. -/
inductive Ending (J : Joint) : Rank → Prop
  | heard : J.receiver.phase = .exited → Ending J (rank 0 J.rev.length J.sender.phase.parting 0)
  | coming {p : ℕ} : J.receiver.side = .closing → J.fwd[p]? = some closePacket →
      Ending J (rank 1 (3 * p + J.receiver.phase.stepsToRecv) J.rev.length J.sender.phase.parting)
  | unsent : J.receiver.side = .closing → J.sender.phase = .close →
      Ending J (rank 2 J.arrivals 0 0)

/-- Both calls have returned, and the caller of `readTCP` has as many bytes as the buffer, and the
buffer itself if no body of its packets has a zero byte before its last one. -/
structure Joint.Returned (buf : List UInt8) (J : Joint) : Prop where
  writeTCP : ∃ b, J.sender.phase = .exited b
  readTCP : J.receiver.phase = .exited
  msgLen : J.receiver.message.msgLen = buf.length
  bytes : Transparent buf → J.receiver.message.bytes = buf

/-! ### One side in its closing loop -/

section Sides

variable {pkts : List Packet} {S S' : Sender} {R R' : Receiver} {out : Option Packet}

theorem senderStep_close (hphase : S.phase = .close) :
    senderStep pkts false false S =
      some ({ S with phase := .readClose 0 }, some closePacket) := by
  rw [senderStep, hphase]
  rfl

theorem close_of_senderStep {lost corr : Bool} (hside : S.side ≠ .transmitting)
    (h : senderStep pkts lost corr S = some (S', out)) : S.phase = .close := by
  unfold Sender.side at hside
  unfold senderStep at h
  cases hphase : S.phase with
  | close => rfl
  | readClose k => rw [hphase] at h; cases h
  | exited b => rw [hphase] at h; cases h
  | _ => rw [hphase] at hside; exact absurd rfl hside

theorem readClose_of_senderRecv {stack : Packet} {recv : Option Datagram}
    (hside : S.side ≠ .transmitting) (h : senderRecv stack recv S = some S') :
    ∃ k, S.phase = .readClose k := by
  rcases senderRecv_phase h with hphase | hphase
  · rw [Sender.side, hphase] at hside
    exact absurd rfl hside
  · exact hphase

theorem receiverStep_closing_phase {lost corr : Bool} {behind heap : List UInt8}
    (hside : R.side = .closing) (h : receiverStep lost corr behind heap R = some (R', out)) :
    R.phase = .close ∧ R'.phase = .readClose := by
  unfold receiverStep at h
  rcases Receiver.side_eq_closing_iff.1 hside with hphase | hphase
  · rw [hphase] at h
    cases h
    exact ⟨hphase, rfl⟩
  · rw [hphase] at h
    cases h

theorem receiverRecv_closing_phase {stack pkt : Packet} (hside : R.side = .closing)
    (h : receiverRecv stack (some (datagram pkt)) R = some R') : R.phase = .readClose ∧
      (R'.phase = .exited ∨ R'.phase = .close ∧ pkt ≠ closePacket) := by
  rcases Receiver.side_eq_closing_iff.1 hside with hphase | hphase
  · unfold receiverRecv at h
    rw [hphase] at h
    cases h
  · refine ⟨hphase, ?_⟩
    rw [receiverRecv_readClose hphase] at h
    cases h
    dsimp only
    split_ifs with hclose
    · exact .inl rfl
    · refine .inr ⟨rfl, fun e => hclose ?_⟩
      rw [e]
      exact ⟨getClose_closePacket, verifies_closePacket⟩

end Sides

/-! ### The events -/

section Events

variable {pkts : List Packet} {J : Joint} {w : Rank}

theorem Ending.sender {S' : Sender} {out : Option Packet} (h : Ending J w)
    (hend : ¬ J.Transmitting) (hstep : senderStep pkts false false J.sender = some (S', out)) :
    ∃ w' < w, Ending { J with sender := S', fwd := J.fwd ++ out.toList } w' := by
  have hphase := close_of_senderStep hend hstep
  rw [senderStep_close hphase] at hstep
  cases hstep
  cases h with
  | heard hexited =>
    refine ⟨_, rank_lt_iff.2 (.inr ⟨rfl, .inr ⟨rfl, .inl ?_⟩⟩), .heard hexited⟩
    rw [hphase]
    exact Nat.lt_succ_self _
  | coming hside hp =>
    refine ⟨_, rank_lt_iff.2 (.inr ⟨rfl, .inr ⟨rfl, .inr ⟨rfl, ?_⟩⟩⟩), .coming hside
      ((List.getElem?_append_left (List.getElem?_eq_some_iff.1 hp).1).trans hp)⟩
    rw [hphase]
    exact Nat.lt_succ_self _
  | unsent hside =>
    refine ⟨_, rank_lt_iff.2 (.inl (by norm_num)), .coming (p := J.fwd.length) hside ?_⟩
    rw [Option.toList_some, List.getElem?_concat_length]

theorem Ending.recv_sender {stack pkt : Packet} {rest : List Packet} {S' : Sender}
    (h : Ending J w) (hend : ¬ J.Transmitting) (hrev : J.rev = pkt :: rest)
    (hrecv : senderRecv stack (some (datagram pkt)) J.sender = some S') :
    ∃ w' < w, Ending { J with sender := S', rev := rest } w' := by
  obtain ⟨k, hphase⟩ := readClose_of_senderRecv hend hrecv
  have hlength : rest.length < J.rev.length := by rw [hrev]; exact Nat.lt_succ_self _
  cases h with
  | heard hexited =>
    exact ⟨_, rank_lt_iff.2 (.inr ⟨rfl, .inl hlength⟩), .heard hexited⟩
  | coming hside hp =>
    exact ⟨_, rank_lt_iff.2 (.inr ⟨rfl, .inr ⟨rfl, .inl hlength⟩⟩), .coming hside hp⟩
  | unsent hside hclose => rw [hphase] at hclose; cases hclose

theorem Ending.timeout_sender {stack : Packet} {S' : Sender} (h : Ending J w)
    (hend : ¬ J.Transmitting) (hcount : J.sender.Counting)
    (hallowed : (Event.senderTimeout stack).Patient J)
    (hrecv : senderRecv stack none J.sender = some S') :
    ∃ w' < w, Ending { J with sender := S' } w' := by
  obtain ⟨k, hphase⟩ := readClose_of_senderRecv hend hrecv
  have hk := hcount k hphase
  rw [senderRecv_readClose_timeout hphase] at hrecv
  cases hrecv
  cases h with
  | heard hexited =>
    refine ⟨_, rank_lt_iff.2 (.inr ⟨rfl, .inr ⟨rfl, .inl ?_⟩⟩), .heard hexited⟩
    rw [hphase]
    dsimp only
    split_ifs <;> simp only [SenderPhase.parting] <;> omega
  | coming hside hp =>
    rcases hallowed.2 with ⟨hfwd, -⟩ | hexited
    · rw [hfwd] at hp
      cases hp
    · rw [Receiver.side_eq_left_iff.2 hexited] at hside
      cases hside
  | unsent hside hclose => rw [hphase] at hclose; cases hclose

theorem Ending.receiver {behind heap : List UInt8} {R' : Receiver} {out : Option Packet}
    (h : Ending J w)
    (hstep : receiverStep false false behind heap J.receiver = some (R', out)) :
    ∃ w' < w, Ending { J with receiver := R', rev := J.rev ++ out.toList } w' := by
  cases h with
  | heard hexited =>
    unfold receiverStep at hstep
    rw [hexited] at hstep
    cases hstep
  | coming hside hp =>
    have hside' := receiverStep_closing hside hstep
    obtain ⟨hphase, hphase'⟩ := receiverStep_closing_phase hside hstep
    refine ⟨_, rank_lt_iff.2 (.inr ⟨rfl, .inl ?_⟩), .coming hside' hp⟩
    rw [hphase, hphase']
    exact Nat.lt_succ_self _
  | unsent hside hclose =>
    have hside' := receiverStep_closing hside hstep
    obtain ⟨hphase, hphase'⟩ := receiverStep_closing_phase hside hstep
    refine ⟨_, rank_lt_iff.2 (.inr ⟨rfl, .inl ?_⟩), .unsent hside' hclose⟩
    rw [Joint.arrivals, Joint.arrivals, hphase, hphase']
    exact Nat.lt_succ_self _

theorem Ending.recv_receiver {stack pkt : Packet} {rest : List Packet} {R' : Receiver}
    (h : Ending J w) (hfwd : J.fwd = pkt :: rest)
    (hrecv : receiverRecv stack (some (datagram pkt)) J.receiver = some R') :
    ∃ w' < w, Ending { J with receiver := R', fwd := rest } w' := by
  cases h with
  | heard hexited =>
    unfold receiverRecv at hrecv
    rw [hexited] at hrecv
    cases hrecv
  | @coming p hside hp =>
    obtain ⟨hphase, hexited | ⟨hclose, hne⟩⟩ := receiverRecv_closing_phase hside hrecv
    · exact ⟨_, rank_lt_iff.2 (.inl (by norm_num)), .heard hexited⟩
    · cases p with
      | zero =>
        rw [hfwd, List.getElem?_cons_zero, Option.some.injEq] at hp
        exact absurd hp hne
      | succ p =>
        rw [hfwd, List.getElem?_cons_succ] at hp
        refine ⟨_, rank_lt_iff.2 (.inr ⟨rfl, .inl ?_⟩),
          .coming (Receiver.side_eq_closing_iff.2 (.inl hclose)) hp⟩
        rw [hphase, hclose]
        simp only [ReceiverPhase.stepsToRecv]
        omega
  | unsent hside hsender =>
    obtain ⟨hphase, hexited | ⟨hclose, -⟩⟩ := receiverRecv_closing_phase hside hrecv
    · exact ⟨_, rank_lt_iff.2 (.inl (by norm_num)), .heard hexited⟩
    · refine ⟨_, rank_lt_iff.2 (.inr ⟨rfl, .inl ?_⟩),
        .unsent (Receiver.side_eq_closing_iff.2 (.inl hclose)) hsender⟩
      simp only [Joint.arrivals, hfwd, hphase, hclose, ReceiverPhase.stepsToRecv, List.length_cons]
      omega

/-- A patient event brings both calls nearer to their return. -/
theorem Ending.step {event : Event} {J' : Joint} (h : Ending J w) (hend : ¬ J.Transmitting)
    (hcount : J.sender.Counting) (hallowed : event.Patient J)
    (hstep : J.step pkts event = some J') : ∃ w' < w, Ending J' w' := by
  cases event with
  | sender lost corr =>
    obtain ⟨rfl, rfl⟩ := hallowed
    obtain ⟨⟨S', out⟩, hs, rfl⟩ := Option.map_eq_some_iff.1 hstep
    exact h.sender hend hs
  | senderRecv stack =>
    rw [Joint.step] at hstep
    cases hrev : J.rev with
    | nil => rw [hrev] at hstep; cases hstep
    | cons pkt rest =>
      rw [hrev] at hstep
      obtain ⟨S', hs, rfl⟩ := Option.map_eq_some_iff.1 hstep
      exact h.recv_sender hend hrev hs
  | senderTimeout stack =>
    obtain ⟨S', hs, rfl⟩ := Option.map_eq_some_iff.1 hstep
    exact h.timeout_sender hend hcount hallowed hs
  | receiver lost corr behind heap =>
    obtain ⟨rfl, rfl⟩ := hallowed
    obtain ⟨⟨R', out⟩, hs, rfl⟩ := Option.map_eq_some_iff.1 hstep
    exact h.receiver hs
  | receiverRecv stack =>
    rw [Joint.step] at hstep
    cases hfwd : J.fwd with
    | nil => rw [hfwd] at hstep; cases hstep
    | cons pkt rest =>
      rw [hfwd] at hstep
      obtain ⟨R', hs, rfl⟩ := Option.map_eq_some_iff.1 hstep
      exact h.recv_receiver hfwd hs
  | receiverTimeout stack => exact absurd hallowed id
  | dropFwd i => exact absurd hallowed id
  | dropRev i => exact absurd hallowed id
  | zeroFwd i => exact absurd hallowed id
  | zeroRev i => exact absurd hallowed id
  | follow pkt => exact absurd hallowed id

/-- As long as one of the two has not returned, something can happen. -/
theorem Ending.next (h : Ending J w) (hend : ¬ J.Transmitting)
    (hopen : ¬ ((∃ b, J.sender.phase = .exited b) ∧ J.receiver.phase = .exited)) :
    ∃ event J', event.Patient J ∧ J.step pkts event = some J' := by
  by_cases hclose : J.sender.phase = .close
  · refine ⟨.sender false false, ?_⟩
    rw [Joint.step, senderStep_close hclose, Option.map_some]
    exact ⟨_, ⟨rfl, rfl⟩, rfl⟩
  cases h with
  | heard hexited =>
    obtain ⟨k, hphase⟩ : ∃ k, J.sender.phase = .readClose k := by
      cases hside : J.sender.side with
      | transmitting => exact absurd hside hend
      | closing => exact (Sender.side_eq_closing_iff.1 hside).resolve_left hclose
      | left b => exact absurd ⟨⟨b, Sender.side_eq_left_iff.1 hside⟩, hexited⟩ hopen
    cases hrev : J.rev with
    | nil =>
      refine ⟨.senderTimeout zeroPacket, ?_⟩
      rw [Joint.step, senderRecv_readClose_timeout hphase, Option.map_some]
      exact ⟨_, ⟨hrev, .inr hexited⟩, rfl⟩
    | cons pkt rest =>
      refine ⟨.senderRecv zeroPacket, ?_⟩
      simp only [Joint.step, hrev, senderRecv_readClose hphase, Option.map_some]
      exact ⟨_, trivial, rfl⟩
  | @coming p hside hp =>
    rcases Receiver.side_eq_closing_iff.1 hside with hphase | hphase
    · refine ⟨.receiver false false [] [], ?_⟩
      simp only [Joint.step, receiverStep, hphase, Option.map_some]
      exact ⟨_, ⟨rfl, rfl⟩, rfl⟩
    · cases hfwd : J.fwd with
      | nil => rw [hfwd] at hp; cases hp
      | cons pkt rest =>
        refine ⟨.receiverRecv zeroPacket, ?_⟩
        simp only [Joint.step, hfwd, receiverRecv_readClose hphase, Option.map_some]
        exact ⟨_, trivial, rfl⟩
  | unsent hside hsender => exact absurd hsender hclose

end Events

/-! ### Runs -/

section Runs

variable {buf : List UInt8} {n : ℕ} {J : Joint} (hn : 0 < n) (hring : 2 * n ∣ 2 ^ 22)
  (hb : 1024 * (2 * n) < 2 ^ 31)
include hn hring hb

/-- From the start of the closing loop of `writeTCP` both calls come to their return. -/
theorem inevitable_returned
    (hlen : (buf.length + (maxBodySize - 1)) / maxBodySize * packetSize < 2 ^ 31)
    (hflag : finalFlag (sentPackets buf (1024 * n)) = true)
    (h : (transferSystem buf (1024 * n)).Reachable J) (hclose : J.sender.phase = .close) :
    (patientRuns buf (1024 * n)).Inevitable (Joint.Returned buf) J := by
  have hend : ¬ J.Transmitting := by
    rw [Joint.Transmitting, Sender.side, hclose]
    exact fun e => by cases e
  -- the return of both is the return with the buffer
  have hreturned : ∀ J, (transferSystem buf (1024 * n)).Reachable J →
      (∃ b, J.sender.phase = .exited b) ∧ J.receiver.phase = .exited → J.Returned buf := by
    rintro J hreach ⟨hwrite, hread⟩
    obtain ⟨got, -, hmsgLen, hbytes, hgot⟩ := message_of_reachable hn hring hb hlen hreach
    obtain rfl := hgot (not_receiving_of_exited hread)
    exact ⟨hwrite, hread, hmsgLen, hbytes⟩
  have hstart : ∃ w, Ending J w := by
    rcases closing_or_left hn hring hb hflag h hend with hside | hleft
    · exact ⟨_, .unsent hside hclose⟩
    · exact ⟨_, .heard (Receiver.side_eq_left_iff.1 hleft)⟩
  obtain ⟨w, hw⟩ := hstart
  refine StepSystem.inevitable_of_work
    (I := fun J w => (transferSystem buf (1024 * n)).Reachable J ∧ ¬ J.Transmitting ∧
      ¬ ((∃ b, J.sender.phase = .exited b) ∧ J.receiver.phase = .exited) ∧ Ending J w)
    ⟨h, hend, ?_, hw⟩ ?_ ?_
  · rintro ⟨⟨b, hb⟩, -⟩
    rw [hclose] at hb
    cases hb
  · rintro J w ⟨-, hend, hopen, hw⟩
    obtain ⟨event, J', hallowed, hstep⟩ := hw.next hend hopen
    exact ⟨J', event, hallowed, hstep⟩
  · rintro J J' w ⟨hreach, hend, -, hw⟩ ⟨event, hallowed, hstep⟩
    have hreach' : (transferSystem buf (1024 * n)).Reachable J' :=
      hreach.tail ⟨event, trivial, hstep⟩
    obtain ⟨w', hless, hw'⟩ := hw.step hend (counting_of_reachable hreach) hallowed hstep
    by_cases hopen : (∃ b, J'.sender.phase = .exited b) ∧ J'.receiver.phase = .exited
    · exact .inl (hreturned J' hreach' hopen)
    · refine .inr ⟨w', hless, hreach', ?_, hopen, hw'⟩
      rcases J.step_sender hstep with he | ⟨lost, corr, out, hs⟩ | ⟨stack, recv, hs⟩
      · rw [Joint.Transmitting, he]
        exact hend
      · exact (senderStep_of_closing hend hs).1
      · exact senderRecv_of_closing hend hs

end Runs

/-- **Both calls recover.**  Whatever has happened before: while `writeTCP` transmits, a run in
which from now on nothing is lost or zeroed and nobody times out but the sender, when it would wait
for ever, is certain to come to the return of both calls, with as many bytes received as the buffer
has, its own if it is transparent, exactly if `readTCP` can return at all. -/
theorem transfer_recovers_iff {buf : List UInt8} {e : ℕ} {J : Joint} (he : 10 ≤ e) (he' : e ≤ 29)
    (hlen : (buf.length + (maxBodySize - 1)) / maxBodySize * packetSize < 2 ^ 31)
    (h : (transferSystem buf (2 ^ e)).Reachable J) (hsend : J.Transmitting) :
    (patientRuns buf (2 ^ e)).Inevitable (Joint.Returned buf) J ↔ CanReturn buf (2 ^ e) J := by
  obtain ⟨n, hW, hn, hring, hb⟩ := exists_packets_of_pow he he'
  rw [hW] at h ⊢
  have hfull : ∀ {J'}, (patientRuns buf (1024 * n)).Reaches J J' →
      (transferSystem buf (1024 * n)).Reaches J J' :=
    fun hreach => StepSystem.Reaches.mono_allowed (fun _ _ _ => trivial) hreach
  constructor
  · intro hinevitable
    obtain ⟨J', hreach, hreturned⟩ := hinevitable.exists_reaches
    exact ⟨J', hfull hreach, hreturned.readTCP⟩
  · rintro ⟨J', hreach, hexited⟩
    have hflag : finalFlag (sentPackets buf (1024 * n)) = true := by
      by_contra hno
      exact not_receiving_of_exited hexited
        (not_returned_of_not_flag hn hring hb hno (h.trans hreach))
    have hcan : CanLeave buf (1024 * n) J := by
      obtain ⟨_, _, _, -, hinv⟩ := Related.of_reachable hn hring hb (h.trans hreach)
      exact ⟨J', hreach, hinv.phases.left (Receiver.side_eq_left_iff.2 hexited)⟩
    exact (inevitable_close hn hring hb h hsend hcan).bind fun J' hreach' hclose =>
      inevitable_returned hn hring hb hlen hflag (h.trans (hfull hreach')) hclose

theorem transfer_recovers_byte :
    (patientRuns [65] (2 ^ 12)).Inevitable (Joint.Returned [65]) startOfTransfer ↔
      CanReturn [65] (2 ^ 12) startOfTransfer :=
  transfer_recovers_iff (by norm_num) (by norm_num) (by decide) startOfTransfer_reachable rfl

end Tcp118
