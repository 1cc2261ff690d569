import Tcp118.Transport.Patient

/-!
# Recovery

Whatever has been lost before, a sender that can leave its transmission loop leaves it once the
network and the programs are patient.

* `Approach`: how near the sender is to its next acknowledgement, packet or shift;
* `Approach.step`: each patient event brings it nearer, or all the way (`Onward`);
* `Recovering.step`, `inevitable_close`: the end of the transmission loop;
* `transmission_recovers_iff`: the exact condition.
-/

namespace Tcp118

open Protocol
open StepSystem (Rank rank rank_lt_iff)

/-! ### Stages -/

/-- What is left to do for the receiver with what is in flight to it. -/
def Joint.arrivals (J : Joint) : ℕ := 3 * J.fwd.length + J.receiver.phase.stepsToRecv

/-- The rest of a pass of the sender: what it has still to send, and a datagram to wait for. -/
def SenderPhase.rest : SenderPhase → ℕ
  | .write todo => todo.length + 1
  | _ => 0

/-- The stages, the last one first: nothing is pending; a new acknowledgement is in flight; the
receiver is about to send one; the first pending packet is in flight; the sender is about to send
it; the sender waits, or is about to. -/
inductive Approach (pkts : List Packet) (n acked : ℕ) (J : Joint) : Rank → Prop
  | done : acked = J.sender.i →
      Approach pkts n acked J (rank 0 (J.sender.stepsToMore n pkts.length) J.arrivals 0)
  | returning {p q : ℕ} : J.rev[p]? = some (ackPacket (seqOf n q)) → acked ≤ q → q < J.sender.i →
      Approach pkts n acked J (rank 1 p (J.sender.stepsToRecv acked) J.arrivals)
  | answering : acked < J.sender.i → J.receiver.Answers acked →
      Approach pkts n acked J (rank 2 J.rev.length (J.sender.stepsToRecv acked) 0)
  | coming {p : ℕ} {pkt : Packet} : acked < J.sender.i → J.Receiving →
      J.fwd[p]? = some pkt → pkts[acked]? = some pkt →
      Approach pkts n acked J
        (rank 3 (3 * p + J.receiver.phase.stepsToRecv) J.rev.length (J.sender.stepsToRecv acked))
  | sending : acked < J.sender.i → J.Receiving → J.sender.Preparing pkts n acked →
      Approach pkts n acked J (rank 4 (J.sender.stepsToRecv acked) J.arrivals 0)
  | waiting : acked < J.sender.i → J.Receiving →
      (∃ todo, J.sender.phase = .write todo) ∨ J.sender.phase = .readAck ∨
        J.sender.phase = .recvAck →
      Approach pkts n acked J (rank 5 J.sender.phase.rest J.arrivals
        (2 * J.rev.length + J.sender.stepsToRecv acked))

/-- What an event brings. -/
inductive Onward (pkts : List Packet) (n acked : ℕ) (J J' : Joint) (w : Rank) : Prop
  | left : ¬ J'.Transmitting → Onward pkts n acked J J' w
  | progress {acked' : ℕ} : SenderInv pkts n acked' J'.sender →
      J'.sender.remaining pkts.length acked' < J.sender.remaining pkts.length acked →
      Onward pkts n acked J J' w
  | nearer {w' : Rank} : w' < w → SenderInv pkts n acked J'.sender →
      J'.sender.remaining pkts.length acked = J.sender.remaining pkts.length acked →
      Approach pkts n acked J' w' → Onward pkts n acked J J' w

theorem Sender.remaining_congr {S S' : Sender} (hi : S'.i = S.i) (hs : S'.shifted = S.shifted)
    (m acked : ℕ) : S'.remaining m acked = S.remaining m acked := by
  rw [Sender.remaining, Sender.remaining, hi, hs]

section Events

variable {pkts : List Packet} {n acked : ℕ} {J : Joint} {w : Rank}

/-- While the sender transmits there is a stage. -/
theorem exists_approach {fwd rev : List (Option ℕ)} {final : Bool} (hnum : Numbered n pkts)
    (h : Related pkts n J acked fwd rev) (hinv : Inv n pkts.length final (J.view acked fwd rev))
    (hsend : J.Transmitting) (hleave : Leavable pkts J) : ∃ w, Approach pkts n acked J w := by
  have hle := h.sender.window.acked_le
  have hi := h.sender.i_le
  rcases hle.eq_or_lt with hall | hlt
  · exact ⟨_, .done hall⟩
  by_cases hreceive : J.Receiving
  swap
  · obtain ⟨-, htaken, hpos⟩ := finished_of_not_receiving hinv hsend hreceive
    have hadded : J.receiver.appended.length ≤ J.sender.i := hinv.counts.taken_le
    rcases hleave hsend with hr | ⟨pkt, hpkt, hfinal⟩ | hacked
    · exact absurd hr hreceive
    · obtain ⟨p, hp⟩ := List.mem_iff_getElem?.1 hpkt
      rw [(isFinalAck_iff hnum hpos pkt).1 hfinal] at hp
      exact ⟨_, .returning hp (by omega) (by omega)⟩
    · rw [h.allAcked_iff] at hacked
      omega
  have hside : J.sender.side = .transmitting := hsend
  unfold Sender.side at hside
  cases hphase : J.sender.phase with
  | top => exact ⟨_, .sending hlt hreceive (.inl hphase)⟩
  | fill => exact ⟨_, .sending hlt hreceive (.inr (.inl hphase))⟩
  | shift => exact ⟨_, .sending hlt hreceive (.inr (.inr (.inl hphase)))⟩
  | write todo => exact ⟨_, .waiting hlt hreceive (.inl ⟨todo, hphase⟩)⟩
  | readAck => exact ⟨_, .waiting hlt hreceive (.inr (.inl hphase))⟩
  | recvAck => exact ⟨_, .waiting hlt hreceive (.inr (.inr hphase))⟩
  | close => rw [hphase] at hside; cases hside
  | readClose k => rw [hphase] at hside; cases hside
  | exited b => rw [hphase] at hside; cases hside

/-! ### The sender's events -/

theorem Approach.sender {corr : Bool} {S' : Sender} {out : Option Packet}
    (hst : Approach pkts n acked J w) (h : SenderInv pkts n acked J.sender)
    (hsend : J.Transmitting)
    (hstep : senderStep pkts false corr J.sender = some (S', out)) :
    Onward pkts n acked J { J with sender := S', fwd := J.fwd ++ out.toList } w := by
  obtain ⟨hS, -⟩ := h.step hstep
  -- a pass that adds no packet comes to its end
  have hpass : acked < J.sender.i →
      S'.remaining pkts.length acked < J.sender.remaining pkts.length acked ∨
        S'.i = J.sender.i ∧ S'.shifted = J.sender.shifted ∧
          S'.stepsToRecv acked < J.sender.stepsToRecv acked :=
    fun hlt => (h.pass hlt hsend hstep).nearer.2
  cases hst with
  | done hall =>
    obtain ⟨rfl, hleft | ⟨-, ⟨hless, -⟩ | ⟨hi, hs, hless⟩⟩⟩ := h.step_acked hall hsend hstep
    · exact .left hleft
    · exact .progress hS hless
    · exact .nearer (rank_lt_iff.2 (.inr ⟨rfl, .inl hless⟩)) hS (Sender.remaining_congr hi hs _ _)
        (.done (hall.trans hi.symm))
  | returning hp hq hqi =>
    rcases hpass (by omega) with hless | ⟨hi, hs, hless⟩
    · exact .progress hS hless
    · exact .nearer (rank_lt_iff.2 (.inr ⟨rfl, .inr ⟨rfl, .inl hless⟩⟩)) hS
        (Sender.remaining_congr hi hs _ _) (.returning hp hq (hqi.trans_eq hi.symm))
  | answering hlt hanswers =>
    rcases hpass hlt with hless | ⟨hi, hs, hless⟩
    · exact .progress hS hless
    · exact .nearer (rank_lt_iff.2 (.inr ⟨rfl, .inr ⟨rfl, .inl hless⟩⟩)) hS
        (Sender.remaining_congr hi hs _ _) (.answering (hlt.trans_eq hi.symm) hanswers)
  | coming hlt hreceive hp hpkt =>
    rcases hpass hlt with hless | ⟨hi, hs, hless⟩
    · exact .progress hS hless
    · refine .nearer (rank_lt_iff.2 (.inr ⟨rfl, .inr ⟨rfl, .inr ⟨rfl, hless⟩⟩⟩)) hS
        (Sender.remaining_congr hi hs _ _)
        (.coming (hlt.trans_eq hi.symm) hreceive ?_ hpkt)
      exact List.getElem?_append_left (List.getElem?_eq_some_iff.1 hp).1 |>.trans hp
  | sending hlt hreceive hprep =>
    rcases hpass hlt with hless | ⟨hi, hs, hless⟩
    · exact .progress hS hless
    have hremaining := Sender.remaining_congr hi hs pkts.length acked
    cases h.pass hlt hsend hstep with
    | add _ _ hi' => omega
    | fill | shift | write =>
      exact .nearer (rank_lt_iff.2 (.inr ⟨rfl, .inl hless⟩)) hS hremaining
        (.sending hlt hreceive (by simp [Sender.Preparing]))
    | send y hy hlt' hphase =>
      -- the first datagram of a pass is the first pending packet
      have hfirst : y = acked := by
        simp only [Sender.Preparing, hphase, reduceCtorEq, false_or, SenderPhase.write.injEq]
          at hprep
        have hlen := congrArg List.length hprep
        rw [length_slotsFrom, length_slotsFrom] at hlen
        omega
      subst hfirst
      have hlen := h.i_le
      have hpkt : pkts[y]? = some pkts[y] := List.getElem?_eq_getElem (by omega)
      rw [hpkt]
      refine .nearer (rank_lt_iff.2 (.inl (by norm_num))) hS hremaining
        (.coming (p := J.fwd.length) hlt hreceive ?_ hpkt)
      rw [Option.toList_some, List.getElem?_concat_length]
    | written hphase =>
      simp only [Sender.Preparing, hphase, reduceCtorEq, false_or, SenderPhase.write.injEq] at hprep
      have hlen := congrArg List.length hprep
      rw [length_slotsFrom, List.length_nil] at hlen
      omega
    | wait hphase => simp [Sender.Preparing, hphase] at hprep
  | waiting hlt hreceive hwait =>
    rcases hpass hlt with hless | ⟨hi, hs, hless⟩
    · exact .progress hS hless
    have hremaining := Sender.remaining_congr hi hs pkts.length acked
    cases h.pass hlt hsend hstep with
    | add _ _ hi' => omega
    | fill hphase | shift hphase | write hphase => simp [hphase] at hwait
    | send y hy hlt' hphase =>
      refine .nearer (rank_lt_iff.2 (.inr ⟨rfl, .inl ?_⟩)) hS hremaining
        (.waiting hlt hreceive (.inl ⟨_, rfl⟩))
      simp only [SenderPhase.rest, hphase, length_slotsFrom]
      omega
    | written hphase =>
      refine .nearer (rank_lt_iff.2 (.inr ⟨rfl, .inl ?_⟩)) hS hremaining
        (.waiting hlt hreceive (.inr (.inl rfl)))
      simp only [SenderPhase.rest, hphase]
      exact Nat.succ_pos _
    | wait hphase =>
      refine .nearer (rank_lt_iff.2 (.inr ⟨rfl, .inr ⟨?_, .inr ⟨?_, ?_⟩⟩⟩)) hS hremaining
        (.waiting hlt hreceive (.inr (.inr rfl)))
      · simp only [SenderPhase.rest, hphase]
      · simp only [Joint.arrivals, Option.toList_none, List.append_nil]
      · exact Nat.add_lt_add_left hless _

/-- The sender takes a datagram. -/
theorem Approach.recv_sender {stack pkt : Packet} {rest : List Packet} {S' : Sender}
    (hst : Approach pkts n acked J w) (h : SenderInv pkts n acked J.sender) (hsend : J.Transmitting)
    (hrev : J.rev = pkt :: rest)
    (hrecv : senderRecv stack (some (datagram pkt)) J.sender = some S') :
    Onward pkts n acked J { J with sender := S', rev := rest } w := by
  have hphase := recvAck_of_recv hsend hrecv
  have hsound := h.sound
  rw [hphase] at hsound
  obtain ⟨⟨acked', hle, hS⟩, hi, hs, hnext⟩ := h.recv_patient hphase hrecv
  have hle' := hS.acked_le
  rcases hle.lt_or_eq with hless | rfl
  · -- a new acknowledgement
    refine .progress hS ?_
    rw [Sender.remaining, Sender.remaining, hi, hs]
    omega
  have hremaining := Sender.remaining_congr hi hs pkts.length acked
  have hlength : J.rev.length = rest.length + 1 := by rw [hrev, List.length_cons]
  cases hst with
  | done hall => exact absurd hall (Nat.ne_of_lt hsound)
  | @returning p q hp hq hqi =>
    cases p with
    | zero =>
      rw [hrev, List.getElem?_cons_zero, Option.some.injEq] at hp
      subst hp
      obtain ⟨w', hw, hS'⟩ := h.recv_ack hphase (h.window.base_le.trans hq) hqi stack
      rw [hw] at hrecv
      cases hrecv
      have := hS.acked_unique hS'
      omega
    | succ p =>
      rw [hrev, List.getElem?_cons_succ] at hp
      exact .nearer (rank_lt_iff.2 (.inr ⟨rfl, .inl (Nat.lt_succ_self p)⟩)) hS hremaining
        (.returning hp hq (hqi.trans_eq hi.symm))
  | answering hlt hanswers =>
    refine .nearer (rank_lt_iff.2 (.inr ⟨rfl, .inl ?_⟩)) hS hremaining
      (.answering (hlt.trans_eq hi.symm) hanswers)
    dsimp only
    omega
  | coming hlt hreceive hp hpkt =>
    refine .nearer (rank_lt_iff.2 (.inr ⟨rfl, .inr ⟨rfl, .inl ?_⟩⟩)) hS hremaining
      (.coming (hlt.trans_eq hi.symm) hreceive hp hpkt)
    dsimp only
    omega
  | sending hlt hreceive hprep => simp [Sender.Preparing, hphase] at hprep
  | waiting hlt hreceive hwait =>
    rcases hnext with hread | htop
    · refine .nearer (rank_lt_iff.2 (.inr ⟨rfl, .inr ⟨?_, .inr ⟨rfl, ?_⟩⟩⟩)) hS hremaining
        (.waiting (hlt.trans_eq hi.symm) hreceive (.inr (.inl hread)))
      · simp only [SenderPhase.rest, hphase, hread]
      · simp only [Sender.stepsToRecv, hphase, hread]
        omega
    · exact .nearer (rank_lt_iff.2 (.inl (by norm_num))) hS hremaining
        (.sending (hlt.trans_eq hi.symm) hreceive (.inl htop))

/-- The sender times out. -/
theorem Approach.timeout_sender {stack : Packet} {S' : Sender} (hst : Approach pkts n acked J w)
    (h : SenderInv pkts n acked J.sender) (hsend : J.Transmitting)
    (hallowed : (Event.senderTimeout stack).Patient J)
    (hrecv : senderRecv stack none J.sender = some S') :
    Onward pkts n acked J { J with sender := S' } w := by
  have hphase := recvAck_of_recv hsend hrecv
  have hsound := h.sound
  rw [hphase] at hsound
  obtain ⟨hrev, hwait⟩ := hallowed
  rw [senderRecv_timeout stack hphase] at hrecv
  cases hrecv
  cases hst with
  | done hall => exact absurd hall (Nat.ne_of_lt hsound)
  | returning hp => rw [hrev] at hp; cases hp
  | answering hlt hanswers =>
    rw [hanswers.1] at hwait
    rcases hwait with ⟨-, e | e⟩ | e <;> cases e
  | coming hlt hreceive hp =>
    rcases hwait with ⟨hfwd, -⟩ | hexited
    · rw [hfwd] at hp
      cases hp
    · exact absurd hreceive (not_receiving_of_exited hexited)
  | sending hlt hreceive hprep => simp [Sender.Preparing, hphase] at hprep
  | waiting hlt hreceive =>
    exact .nearer (rank_lt_iff.2 (.inl (by norm_num))) (h.withPhase trivial) rfl
      (.sending hlt hreceive (.inl rfl))

/-! ### The receiver's events -/

theorem Approach.receiver {behind heap : List UInt8} {R' : Receiver} {out : Option Packet}
    {base added : ℕ} (hst : Approach pkts n acked J w) (h : SenderInv pkts n acked J.sender)
    (hR : ReceiverInv pkts n base added J.receiver) (hacked : acked ≤ J.receiver.appended.length)
    (hadded : R'.appended.length ≤ J.sender.i)
    (hstep : receiverStep false false behind heap J.receiver = some (R', out)) :
    Onward pkts n acked J { J with receiver := R', rev := J.rev ++ out.toList } w := by
  obtain ⟨hless, heffect⟩ := hR.step_patient hacked hstep
  have harrivals : Joint.arrivals { J with receiver := R', rev := J.rev ++ out.toList } <
      J.arrivals := Nat.add_lt_add_left hless _
  -- the next stage
  have hanswer : ∀ q, acked ≤ q → q < R'.appended.length → out = some (ackPacket (seqOf n q)) →
      Approach pkts n acked { J with receiver := R', rev := J.rev ++ out.toList }
        (rank 1 J.rev.length (J.sender.stepsToRecv acked)
          (Joint.arrivals { J with receiver := R', rev := J.rev ++ out.toList })) := by
    rintro q hq hlt rfl
    refine .returning (q := q) ?_ hq (by dsimp only; omega)
    rw [Option.toList_some, List.getElem?_concat_length]
  cases hst with
  | done hall =>
    exact .nearer (rank_lt_iff.2 (.inr ⟨rfl, .inr ⟨rfl, .inl harrivals⟩⟩)) h rfl (.done hall)
  | returning hp hq hqi =>
    refine .nearer (rank_lt_iff.2 (.inr ⟨rfl, .inr ⟨rfl, .inr ⟨rfl, harrivals⟩⟩⟩)) h rfl
      (.returning ?_ hq hqi)
    exact (List.getElem?_append_left (List.getElem?_eq_some_iff.1 hp).1).trans hp
  | answering hlt hanswers =>
    rcases heffect with ⟨q, hq, hlt', hout⟩ | ⟨hno, -⟩
    · exact .nearer (rank_lt_iff.2 (.inl (by norm_num))) h rfl (hanswer q hq hlt' hout)
    · exact absurd hanswers hno
  | coming hlt hreceive hp hpkt =>
    rcases heffect with ⟨q, hq, hlt', hout⟩ | ⟨-, hloop⟩
    · exact .nearer (rank_lt_iff.2 (.inl (by norm_num))) h rfl (hanswer q hq hlt' hout)
    · exact .nearer (rank_lt_iff.2 (.inr ⟨rfl, .inl (Nat.add_lt_add_left hless _)⟩)) h rfl
        (.coming hlt (hloop hreceive) hp hpkt)
  | sending hlt hreceive hprep =>
    rcases heffect with ⟨q, hq, hlt', hout⟩ | ⟨-, hloop⟩
    · exact .nearer (rank_lt_iff.2 (.inl (by norm_num))) h rfl (hanswer q hq hlt' hout)
    · exact .nearer (rank_lt_iff.2 (.inr ⟨rfl, .inr ⟨rfl, .inl harrivals⟩⟩)) h rfl
        (.sending hlt (hloop hreceive) hprep)
  | waiting hlt hreceive hwait =>
    rcases heffect with ⟨q, hq, hlt', hout⟩ | ⟨-, hloop⟩
    · exact .nearer (rank_lt_iff.2 (.inl (by norm_num))) h rfl (hanswer q hq hlt' hout)
    · exact .nearer (rank_lt_iff.2 (.inr ⟨rfl, .inr ⟨rfl, .inl harrivals⟩⟩)) h rfl
        (.waiting hlt (hloop hreceive) hwait)

/-- The receiver takes a datagram. -/
theorem Approach.recv_receiver {stack pkt : Packet} {rest : List Packet} {R' : Receiver}
    {base added : ℕ} (hnum : Numbered n pkts) (hst : Approach pkts n acked J w)
    (h : SenderInv pkts n acked J.sender) (hR : ReceiverInv pkts n base added J.receiver)
    (hacked : acked ≤ J.receiver.appended.length) (hfwd : J.fwd = pkt :: rest)
    (hrecv : receiverRecv stack (some (datagram pkt)) J.receiver = some R') :
    Onward pkts n acked J { J with receiver := R', fwd := rest } w := by
  obtain ⟨hzero, htwo, -, hloop⟩ := hR.recv_patient acked hnum hrecv
  have harrivals : Joint.arrivals { J with receiver := R', fwd := rest } < J.arrivals := by
    simp only [Joint.arrivals, hfwd, List.length_cons]
    omega
  cases hst with
  | done hall =>
    exact .nearer (rank_lt_iff.2 (.inr ⟨rfl, .inr ⟨rfl, .inl harrivals⟩⟩)) h rfl (.done hall)
  | returning hp hq hqi =>
    exact .nearer (rank_lt_iff.2 (.inr ⟨rfl, .inr ⟨rfl, .inr ⟨rfl, harrivals⟩⟩⟩)) h rfl
      (.returning hp hq hqi)
  | answering hlt hanswers =>
    rw [hanswers.1] at hzero
    cases hzero
  | @coming p _ hlt hreceive hp hpkt =>
    cases p with
    | zero =>
      rw [hfwd, List.getElem?_cons_zero, Option.some.injEq] at hp
      subst hp
      exact .nearer (rank_lt_iff.2 (.inl (by norm_num))) h rfl
        (.answering hlt ((hloop hreceive).2 hacked hpkt))
    | succ p =>
      rw [hfwd, List.getElem?_cons_succ] at hp
      refine .nearer (rank_lt_iff.2 (.inr ⟨rfl, .inl ?_⟩)) h rfl
        (.coming hlt (hloop hreceive).1 hp hpkt)
      dsimp only
      omega
  | sending hlt hreceive hprep =>
    exact .nearer (rank_lt_iff.2 (.inr ⟨rfl, .inr ⟨rfl, .inl harrivals⟩⟩)) h rfl
      (.sending hlt (hloop hreceive).1 hprep)
  | waiting hlt hreceive hwait =>
    exact .nearer (rank_lt_iff.2 (.inr ⟨rfl, .inr ⟨rfl, .inl harrivals⟩⟩)) h rfl
      (.waiting hlt (hloop hreceive).1 hwait)

/-- A patient event brings the sender nearer to the end of its loop. -/
theorem Approach.step {event : Event} {J' : Joint} {fwd rev : List (Option ℕ)} {final : Bool}
    (hnum : Numbered n pkts) (hst : Approach pkts n acked J w) (h : Related pkts n J acked fwd rev)
    (hinv : Inv n pkts.length final (J.view acked fwd rev)) (hsend : J.Transmitting)
    (htaken : J'.receiver.appended.length ≤ J'.sender.i) (hallowed : event.Patient J)
    (hstep : J.step pkts event = some J') : Onward pkts n acked J J' w := by
  obtain ⟨base, added, hR⟩ := h.receiver
  have hacked : acked ≤ J.receiver.appended.length := hinv.counts.acked_le
  cases event with
  | sender lost corr =>
    obtain ⟨rfl, rfl⟩ := hallowed
    obtain ⟨⟨S', out⟩, hs, rfl⟩ := Option.map_eq_some_iff.1 hstep
    exact hst.sender h.sender hsend hs
  | senderRecv stack =>
    rw [Joint.step] at hstep
    cases hrev : J.rev with
    | nil => rw [hrev] at hstep; cases hstep
    | cons pkt rest =>
      rw [hrev] at hstep
      obtain ⟨S', hs, rfl⟩ := Option.map_eq_some_iff.1 hstep
      exact hst.recv_sender h.sender hsend hrev hs
  | senderTimeout stack =>
    obtain ⟨S', hs, rfl⟩ := Option.map_eq_some_iff.1 hstep
    exact hst.timeout_sender h.sender hsend hallowed hs
  | receiver lost corr behind heap =>
    obtain ⟨rfl, rfl⟩ := hallowed
    obtain ⟨⟨R', out⟩, hs, rfl⟩ := Option.map_eq_some_iff.1 hstep
    exact hst.receiver h.sender hR hacked htaken hs
  | receiverRecv stack =>
    rw [Joint.step] at hstep
    cases hfwd : J.fwd with
    | nil => rw [hfwd] at hstep; cases hstep
    | cons pkt rest =>
      rw [hfwd] at hstep
      obtain ⟨R', hs, rfl⟩ := Option.map_eq_some_iff.1 hstep
      exact hst.recv_receiver hnum h.sender hR hacked hfwd hs
  | receiverTimeout stack => exact absurd hallowed id
  | dropFwd i => exact absurd hallowed id
  | dropRev i => exact absurd hallowed id
  | zeroFwd i => exact absurd hallowed id
  | zeroRev i => exact absurd hallowed id
  | follow pkt => exact absurd hallowed id

end Events

/-! ### Patient runs -/

theorem Event.Patient.keeps {pkts : List Packet} {event : Event} {J : Joint}
    (h : event.Patient J) : KeepsFinalAck pkts event J := by
  cases event with
  | receiver lost corr behind heap => exact fun _ _ _ => h
  | dropRev i => exact absurd h id
  | zeroRev i => exact absurd h id
  | _ => trivial

/-- A sender that can leave its transmission loop, with the rank of what it has before it. -/
structure Recovering (buf : List UInt8) (n : ℕ) (J : Joint) (w : ℕ ×ₗ Rank) : Prop where
  reachable : (transferSystem buf (1024 * n)).Reachable J
  transmitting : J.Transmitting
  leavable : Leavable (sentPackets buf (1024 * n)) J
  staged : ∃ acked w', SenderInv (sentPackets buf (1024 * n)) n acked J.sender ∧
    Approach (sentPackets buf (1024 * n)) n acked J w' ∧
    w = toLex (J.sender.remaining (sentPackets buf (1024 * n)).length acked, w')

section Runs

variable {buf : List UInt8} {n : ℕ} {J J' : Joint} {w : ℕ ×ₗ Rank}
  (hn : 0 < n) (hring : 2 * n ∣ 2 ^ 22) (hb : 1024 * (2 * n) < 2 ^ 31)
include hn hring hb

theorem exists_recovering (h : (transferSystem buf (1024 * n)).Reachable J) (hsend : J.Transmitting)
    (hleave : Leavable (sentPackets buf (1024 * n)) J) : ∃ w, Recovering buf n J w := by
  have hnum : Numbered n (sentPackets buf (1024 * n)) := numbered_packetsOf hring hb _ _
  obtain ⟨acked, _, _, hrel, hinv⟩ := Related.of_reachable hn hring hb h
  obtain ⟨w, hst⟩ := exists_approach hnum hrel hinv hsend hleave
  exact ⟨_, h, hsend, hleave, acked, w, hrel.sender, hst, rfl⟩

theorem Recovering.step (h : Recovering buf n J w)
    (hstep : (patientRuns buf (1024 * n)).step J J') :
    J'.sender.phase = .close ∨ ∃ w' < w, Recovering buf n J' w' := by
  have hnum : Numbered n (sentPackets buf (1024 * n)) := numbered_packetsOf hring hb _ _
  obtain ⟨event, hallowed, hevent⟩ := hstep
  have hreach : (transferSystem buf (1024 * n)).Reachable J' :=
    h.reachable.tail ⟨event, trivial, hevent⟩
  obtain ⟨acked, _, _, hrel, hinv⟩ := Related.of_reachable hn hring hb h.reachable
  obtain ⟨acked', _, _, hrel', hinv'⟩ := Related.of_reachable hn hring hb hreach
  have hleave := h.leavable.step hnum hrel hinv hallowed.keeps hevent
  obtain ⟨acked₁, w₁, hS, hst, rfl⟩ := h.staged
  obtain rfl := hS.acked_unique hrel.sender
  by_cases hsend : J'.Transmitting
  swap
  · exact .inl (J.close_of_exit h.transmitting hevent hsend)
  cases hst.step hnum hrel hinv h.transmitting hinv'.counts.taken_le hallowed hevent with
  | left hno => exact absurd hsend hno
  | progress hS' hless =>
    obtain rfl := hS'.acked_unique hrel'.sender
    obtain ⟨w', hst'⟩ := exists_approach hnum hrel' hinv' hsend hleave
    exact .inr ⟨_, Prod.Lex.toLex_lt_toLex.2 (.inl hless), hreach, hsend, hleave, _, w', hS', hst',
      rfl⟩
  | nearer hless hS' hremaining hst' =>
    exact .inr ⟨_, Prod.Lex.toLex_lt_toLex.2 (.inr ⟨hremaining, hless⟩), hreach, hsend, hleave, _,
      _, hS', hst', rfl⟩

/-- A sender that can leave its transmission loop comes to its closing loop. -/
theorem inevitable_close (h : (transferSystem buf (1024 * n)).Reachable J) (hsend : J.Transmitting)
    (hcan : CanLeave buf (1024 * n) J) :
    (patientRuns buf (1024 * n)).Inevitable (fun J => J.sender.phase = .close) J := by
  have hleave : Leavable (sentPackets buf (1024 * n)) J :=
    fun _ => (canLeave_iff hn hring hb h hsend).1 hcan
  obtain ⟨w, hw⟩ := exists_recovering hn hring hb h hsend hleave
  refine StepSystem.inevitable_of_work hw ?_ fun J J' w hJ hstep => hJ.step hn hring hb hstep
  intro J w hJ
  obtain ⟨_, _, _, hrel, -⟩ := Related.of_reachable hn hring hb hJ.reachable
  obtain ⟨event, J', hallowed, hstep⟩ := exists_patient hrel hJ.transmitting hJ.leavable
  exact ⟨J', event, hallowed, hstep⟩

end Runs

/-- **Recovery from loss.**  Whatever has happened before: if from now on nothing is lost or zeroed
and nobody times out but the sender, when it would wait for ever, then `writeTCP` is certain to
leave its transmission loop exactly if it can leave it at all. -/
theorem transmission_recovers_iff {buf : List UInt8} {e : ℕ} {J : Joint} (he : 10 ≤ e)
    (he' : e ≤ 29) (h : (transferSystem buf (2 ^ e)).Reachable J) (hsend : J.Transmitting) :
    (patientRuns buf (2 ^ e)).Inevitable (fun J => ¬ J.Transmitting) J ↔
      CanLeave buf (2 ^ e) J := by
  obtain ⟨n, hW, hn, hring, hb⟩ := exists_packets_of_pow he he'
  rw [hW] at h ⊢
  constructor
  · intro hinevitable
    obtain ⟨J', hreach, hleft⟩ := hinevitable.exists_reaches
    exact ⟨J', StepSystem.Reaches.mono_allowed (fun _ _ _ => trivial) hreach, hleft⟩
  · intro hcan
    refine (inevitable_close hn hring hb h hsend hcan).bind fun J' _ hclose => .now ?_
    rw [Joint.Transmitting, Sender.side, hclose]
    exact fun e => by cases e

theorem transmission_recovers_byte :
    (patientRuns [65] (2 ^ 12)).Inevitable (fun J => ¬ J.Transmitting) startOfTransfer ↔
      CanLeave [65] (2 ^ 12) startOfTransfer :=
  transmission_recovers_iff (by norm_num) (by norm_num) startOfTransfer_reachable rfl

end Tcp118
