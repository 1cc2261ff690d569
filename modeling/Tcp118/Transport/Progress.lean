import Tcp118.Transport.Refinement
import Tcp118.Transport.SenderRuns

/-!
# When the transmission loop can be left

The receiver acknowledges the flagged final packet once, and then only sends close packets, which
`readAckPacket` does not act on.  So the transmission loop of the sender can be left exactly as
long as the receiver is in its receive loop, or that acknowledgement is in flight or has arrived.

* `CanLeave`, `FinalAckInFlight`, `AllAcked`: the notions;
* `not_canLeave`: without the acknowledgement there is no way out;
* `reaches_step`, …, `reaches_acked`: runs of the transfer, put together from steps of one side;
* `Joint.Initial.reaches_waiting`, `Joint.Initial.reaches_taken`: the first of them;
* `canLeave_of_acked`, `canLeave_of_finalAck`, `canLeave_of_receiving`: the ways out;
* `canLeave_iff`: the exact condition on a reachable state.
-/

namespace Tcp118

open Protocol

/-- Some run leads to the end of the transmission loop. -/
def CanLeave (buf : List UInt8) (W : ℕ) (J : Joint) : Prop :=
  ∃ J', (transferSystem buf W).Reaches J J' ∧ ¬ J'.Transmitting

/-- A datagram is the acknowledgement of the final packet. -/
def IsFinalAck (pkts : List Packet) (pkt : Packet) : Prop :=
  ∃ last, pkts.getLast? = some last ∧ pkt = ackPacket (getSeqNum last)

/-- The acknowledgement of the final packet is in flight. -/
def FinalAckInFlight (pkts : List Packet) (J : Joint) : Prop :=
  ∃ pkt ∈ J.rev, IsFinalAck pkts pkt

/-- Everything has been added to the sender's window and acknowledged. -/
def AllAcked (pkts : List Packet) (J : Joint) : Prop :=
  J.sender.i = pkts.length ∧ cwndNumPendingAcks J.sender.cwndW = 0

section Finals

variable {pkts : List Packet} {n : ℕ}

theorem isFinalAck_iff (hnum : Numbered n pkts) (hpos : 0 < pkts.length) (pkt : Packet) :
    IsFinalAck pkts pkt ↔ pkt = ackPacket (seqOf n (pkts.length - 1)) := by
  have hlast : pkts.getLast? = some pkts[pkts.length - 1] := by
    rw [List.getLast?_eq_getElem?, List.getElem?_eq_getElem (by omega)]
  have hseq := hnum.seqNum (List.getElem?_eq_getElem (l := pkts) (i := pkts.length - 1) (by omega))
  unfold IsFinalAck
  rw [hlast]
  constructor
  · rintro ⟨last, h, rfl⟩
    cases h
    rw [hseq]
  · rintro rfl
    exact ⟨_, rfl, by rw [hseq]⟩

end Finals

section Reachable

variable {buf : List UInt8} {n acked : ℕ} {J : Joint} {fwd rev : List (Option ℕ)}

/-- Acknowledgements in flight are told apart by their packet numbers. -/
theorem Related.finalAck_iff (hn : 0 < n) (hb : 1024 * (2 * n) < 2 ^ 31)
    {pkts : List Packet} (hnum : Numbered n pkts) {final : Bool}
    (h : Related pkts n J acked fwd rev) (hinv : Inv n pkts.length final (J.view acked fwd rev))
    (hsend : J.Transmitting) (htaken : J.receiver.appended.length = pkts.length)
    (hpos : 0 < pkts.length) :
    FinalAckInFlight pkts J ↔ pkts.length - 1 ∈ rev.reduceOption := by
  have hadded : J.receiver.appended.length ≤ J.sender.i := hinv.counts.taken_le
  have hbase := h.sender.window.base_le
  have hacked : acked ≤ J.receiver.appended.length := hinv.counts.acked_le
  have hroom := h.sender.window.added_le
  constructor
  · rintro ⟨pkt, hpkt, hfinal⟩
    rw [isFinalAck_iff hnum hpos] at hfinal
    subst hfinal
    obtain ⟨i, hi'⟩ := List.mem_iff_getElem?.1 hpkt
    obtain ⟨t, ht, hack⟩ := forall₂_getElem? h.rev hi'
    have hmem := List.mem_iff_getElem?.2 ⟨i, ht⟩
    generalize he : ackPacket (seqOf n (pkts.length - 1)) = pkt at hack
    cases hack with
    | ack q =>
      obtain ⟨hq, hq'⟩ := hinv.rev_near hmem
      have hseq := congrArg getACKNum he
      have hlt := seqOf_lt hn hb
      rw [getACKNum_ackPacket (lt_trans (hlt _) (by norm_num)),
        getACKNum_ackPacket (lt_trans (hlt _) (by norm_num))] at hseq
      dsimp only [Joint.view] at hq hq'
      have hqe := (seqOf_inj (by omega) (by omega)).1 hseq
      rw [hqe]
      exact List.reduceOption_mem_iff.2 hmem
    | close =>
      have hack := getACK_ackPacket (seqOf n (pkts.length - 1))
      rw [he, getACK_closePacket] at hack
      cases hack
    | zero =>
      have hack := getACK_ackPacket (seqOf n (pkts.length - 1))
      rw [he, getACK_zeroPacket] at hack
      cases hack
    | follow hover => exact absurd hsend (hinv.phases.left hover)
  · intro hmem
    rw [List.reduceOption_mem_iff] at hmem
    obtain ⟨i, hi'⟩ := List.mem_iff_getElem?.1 hmem
    obtain ⟨pkt, hpkt, hack⟩ := forall₂_getElem? h.rev.flip hi'
    refine ⟨pkt, List.mem_iff_getElem?.2 ⟨i, hpkt⟩, ?_⟩
    rw [isFinalAck_iff hnum hpos]
    cases hack
    rfl

end Reachable

/-! ### No way out -/

section Wedge

variable {buf : List UInt8} {n : ℕ} {J : Joint}

/-- Where the receiver has left its receive loop it has taken the flagged final packet. -/
theorem finished_of_not_receiving {pkts : List Packet} {acked : ℕ} {fwd rev : List (Option ℕ)}
    {final : Bool} (hinv : Inv n pkts.length final (J.view acked fwd rev))
    (hsend : J.Transmitting) (hreceive : ¬ J.Receiving) :
    J.receiver.side = .closing ∧ J.receiver.appended.length = pkts.length ∧ 0 < pkts.length := by
  rcases J.receiving_or with h | h | h
  · exact absurd h hreceive
  · obtain ⟨-, htaken, hpos⟩ := hinv.phases.received (.inl h)
    dsimp only [Joint.view] at htaken hpos
    exact ⟨h, htaken, by omega⟩
  · exact absurd hsend (hinv.phases.left h)

/-- Everything has been acknowledged exactly when the counter says so. -/
theorem Related.allAcked_iff {pkts : List Packet} {acked : ℕ} {fwd rev : List (Option ℕ)}
    (h : Related pkts n J acked fwd rev) : AllAcked pkts J ↔ acked = pkts.length := by
  have hi := h.sender.i_le
  have hle := h.sender.window.acked_le
  unfold AllAcked
  rw [h.sender.window.numPendingAcks]
  omega

theorem not_canLeave (hn : 0 < n) (hring : 2 * n ∣ 2 ^ 22) (hb : 1024 * (2 * n) < 2 ^ 31)
    (h : (transferSystem buf (1024 * n)).Reachable J) (hsend : J.Transmitting)
    (hreceive : ¬ J.Receiving) (hflight : ¬ FinalAckInFlight (sentPackets buf (1024 * n)) J)
    (hacked : ¬ AllAcked (sentPackets buf (1024 * n)) J) : ¬ CanLeave buf (1024 * n) J := by
  have hnum : Numbered n (sentPackets buf (1024 * n)) := numbered_packetsOf hring hb _ _
  obtain ⟨_, ha, hr⟩ := (refinement buf (fun _ _ => True) hn hring hb).reachable h
  obtain ⟨acked, fwd, rev, rfl, hrel⟩ := id hr
  have hinv := Protocol.inv hn ha
  obtain ⟨hclosing, htaken, hpos⟩ := finished_of_not_receiving hinv hsend hreceive
  rw [hrel.finalAck_iff hn hb hnum hinv hsend htaken hpos] at hflight
  rw [hrel.allAcked_iff] at hacked
  have hle : acked ≤ J.receiver.appended.length := hinv.counts.acked_le
  have hwedged : Wedged (sentPackets buf (1024 * n)).length (J.view acked fwd rev) := by
    refine ⟨hsend, hclosing, by dsimp only [Joint.view]; omega, fun q hq => ?_⟩
    have hlt : q < J.receiver.appended.length := (hinv.reverse.near q hq).2
    have hne : q ≠ (sentPackets buf (1024 * n)).length - 1 := fun e => hflight (e ▸ hq)
    omega
  rintro ⟨J', hreach, hleft⟩
  obtain ⟨_, ha', acked', fwd', rev', rfl, -⟩ :=
    (refinement buf (fun _ _ => True) hn hring hb).reaches ha hr hreach
  exact hleft (hwedged.reaches ha hn ha').sender

end Wedge

/-! ### Ways out -/

section WaysOut

variable {buf : List UInt8} {n : ℕ} {J : Joint}

theorem reaches_step {W : ℕ} {J J' : Joint} (event : Event)
    (h : J.step (sentPackets buf W) event = some J') : (transferSystem buf W).Reaches J J' :=
  .single ⟨event, trivial, h⟩

theorem reaches_receiver {W : ℕ} {lost corr : Bool} {behind heap : List UInt8} {R : Receiver}
    {out : Option Packet} (h : receiverStep lost corr behind heap J.receiver = some (R, out)) :
    (transferSystem buf W).Reaches J { J with receiver := R, rev := J.rev ++ out.toList } := by
  apply reaches_step (.receiver lost corr behind heap)
  simp only [Joint.step, h, Option.map_some]

theorem reaches_deliver {W : ℕ} {lost corr : Bool} {behind heap : List UInt8} {R : Receiver}
    {out : Option Packet} (hphase : J.receiver.phase = .deliver)
    (h : deliver lost corr behind heap J.receiver = some (R, out)) :
    (transferSystem buf W).Reaches J { J with receiver := R, rev := J.rev ++ out.toList } := by
  have hstep : receiverStep lost corr behind heap J.receiver = some (R, out) := by
    unfold receiverStep
    rw [hphase, h]
  exact reaches_receiver hstep

theorem reaches_receiverRecv {W : ℕ} {R : Receiver} {pkt : Packet} {rest : List Packet}
    (hfwd : J.fwd = pkt :: rest)
    (h : receiverRecv zeroPacket (some (datagram pkt)) J.receiver = some R) :
    (transferSystem buf W).Reaches J { J with receiver := R, fwd := rest } := by
  apply reaches_step (.receiverRecv zeroPacket)
  simp only [Joint.step, hfwd, h, Option.map_some]

theorem reaches_receiverTimeout {W : ℕ} {R : Receiver}
    (h : receiverRecv zeroPacket none J.receiver = some R) :
    (transferSystem buf W).Reaches J { J with receiver := R } := by
  apply reaches_step (.receiverTimeout zeroPacket)
  simp only [Joint.step, h, Option.map_some]

/-- A run of the sender on its own is a run of the joint system. -/
theorem reaches_quiet {W : ℕ} {S : Sender} (h : Quiet (sentPackets buf W) J.sender S) :
    (transferSystem buf W).Reaches J { J with sender := S } := by
  induction h with
  | refl => exact .refl J
  | tail _ hstep ih =>
    refine ih.trans ?_
    rcases hstep with hstep | hrecv
    · apply reaches_step (.sender true false)
      simp only [Joint.step, hstep, Option.map_some, Option.toList_none, List.append_nil]
    · apply reaches_step (.senderTimeout zeroPacket)
      simp only [Joint.step, hrecv, Option.map_some]

/-- The network may drop all data in flight. -/
theorem reaches_dropFwd {W : ℕ} (J : Joint) :
    (transferSystem buf W).Reaches J { J with fwd := [] } := by
  obtain ⟨sender, receiver, fwd, rev⟩ := J
  induction fwd with
  | nil => exact .refl _
  | cons pkt fwd ih =>
    refine StepSystem.Reaches.trans (reaches_step (.dropFwd 0) ?_) ih
    simp [Joint.step]

/-- The network may drop the first datagrams to the sender. -/
theorem reaches_dropRev {W : ℕ} (J : Joint) (k : ℕ) :
    (transferSystem buf W).Reaches J { J with rev := J.rev.drop k } := by
  obtain ⟨sender, receiver, fwd, rev⟩ := J
  induction k generalizing rev with
  | zero => exact .refl _
  | succ k ih =>
    cases rev with
    | nil => exact .refl _
    | cons pkt rev =>
      refine StepSystem.Reaches.trans (reaches_step (.dropRev 0) ?_) (ih rev)
      simp [Joint.step]

/-- Of the packets in the loop of `writePackets` any one may be sent and the others lost. -/
theorem reaches_send {W y x : ℕ} (hi : J.sender.i ≤ (sentPackets buf W).length) (hyx : y ≤ x)
    (hx : x < J.sender.i)
    (hphase : J.sender.phase = .write (slotsFrom (sentPackets buf W) n y J.sender.i))
    {pkt : Packet} (hpkt : (sentPackets buf W)[x]? = some pkt) :
    (transferSystem buf W).Reaches J
      { J with sender := { J.sender with phase := .readAck }, fwd := J.fwd ++ [pkt] } := by
  have hbefore := quiet_write hi hyx hx.le hphase
  have hafter := quiet_write (y := x + 1) (z := J.sender.i) (S := { J.sender with
    phase := .write (slotsFrom (sentPackets buf W) n (x + 1) J.sender.i) }) hi hx le_rfl rfl
  have hend := quiet_written (S := { J.sender with
    phase := .write (slotsFrom (sentPackets buf W) n J.sender.i J.sender.i) }) rfl
  have hsend : (transferSystem buf W).Reaches
      { J with sender := { J.sender with
        phase := .write (slotsFrom (sentPackets buf W) n x J.sender.i) } }
      { J with
        sender := { J.sender with
          phase := .write (slotsFrom (sentPackets buf W) n (x + 1) J.sender.i) }
        fwd := J.fwd ++ [pkt] } := by
    apply reaches_step (.sender false false)
    simp only [Joint.step, senderStep, slotsFrom_of_lt hx, hpkt, Option.map_some,
      Bool.false_eq_true, if_false, Option.toList_some]
  exact (reaches_quiet hbefore).trans (hsend.trans (reaches_quiet (hafter.trans hend)))

theorem canLeave_of_reaches {W : ℕ} {J' : Joint} (h : (transferSystem buf W).Reaches J J')
    (h' : CanLeave buf W J') : CanLeave buf W J := by
  obtain ⟨J'', hreach, hleft⟩ := h'
  exact ⟨J'', h.trans hreach, hleft⟩

/-- Everything has been acknowledged: the sender leaves by itself. -/
theorem canLeave_of_acked
    (h : SenderInv (sentPackets buf (1024 * n)) n (sentPackets buf (1024 * n)).length J.sender)
    (hsend : J.Transmitting) : CanLeave buf (1024 * n) J := by
  obtain ⟨S, hquiet, hside⟩ := quiet_finish h hsend
  refine ⟨_, reaches_quiet hquiet, ?_⟩
  unfold Joint.Transmitting
  rw [hside]
  exact fun e => by cases e

/-- The receiver comes to wait for data, or leaves its receive loop and acknowledges the final
packet. -/
theorem reaches_read (hnum : Numbered n (sentPackets buf (1024 * n)))
    {base added : ℕ} (hR : ReceiverInv (sentPackets buf (1024 * n)) n base added J.receiver)
    (hreceive : J.Receiving) :
    ∃ J', (transferSystem buf (1024 * n)).Reaches J J' ∧ J'.sender = J.sender ∧
      (J'.receiver.phase = .read ∨
        ¬ J'.Receiving ∧ FinalAckInFlight (sentPackets buf (1024 * n)) J') := by
  -- from the start of the loop one step leads to `readPacket`
  have hread : ∀ {J₁ : Joint}, (transferSystem buf (1024 * n)).Reaches J J₁ →
      J₁.receiver.phase = .top → getLast J₁.receiver.pkt = false →
      ∃ J', (transferSystem buf (1024 * n)).Reaches J J' ∧ J'.sender = J₁.sender ∧
        J'.receiver.phase = .read := by
    intro J₁ hreach htop hlast
    obtain ⟨R, hR', hphase, -⟩ := receiverStep_top htop hlast false false [] []
    exact ⟨_, hreach.trans (reaches_receiver hR'), rfl, hphase⟩
  have hsound := hR.sound
  rcases Receiver.receiving_iff.1 hreceive with hphase | hphase | hphase
  · rw [hphase] at hsound
    obtain ⟨J', hreach, hS, hread'⟩ := hread (.refl J) hphase hsound.2
    exact ⟨J', hreach, hS, .inl hread'⟩
  · exact ⟨J, .refl J, rfl, .inl hphase⟩
  · rw [hphase] at hsound
    rcases hsound with hnone | ⟨hone, pkt, hpkt, hslot⟩
    · have hw := hR.window
      rw [← hnone] at hw
      have hreach : (transferSystem buf (1024 * n)).Reaches J _ := reaches_deliver hphase
        (deliver_of_none hw hR.started false false [] [])
      obtain ⟨J', hreach', hS, hread'⟩ := hread hreach rfl rfl
      exact ⟨J', hreach', hS, .inl hread'⟩
    · have hw := hR.window
      rw [hone] at hw
      have hstart := hR.started
      rw [hone, decide_eq_true (Nat.succ_pos _)] at hstart
      have hreach : (transferSystem buf (1024 * n)).Reaches J _ := reaches_deliver hphase
        (deliver_of_pending hw hstart hslot false false [] [])
      by_cases hlast : getLast (some pkt) = false
      · rw [if_pos hlast] at hreach
        obtain ⟨J', hreach', hS, hread'⟩ := hread hreach rfl hlast
        exact ⟨J', hreach', hS, .inl hread'⟩
      · rw [if_neg hlast] at hreach
        have hend := ((hnum.last hpkt).1 (by simpa using hlast)).2
        refine ⟨_, hreach, rfl, .inr ⟨?_, ackPacket (seqOf n J.receiver.appended.length), ?_, ?_⟩⟩
        · rintro (h | h) <;> cases h
        · exact List.mem_append_right _ List.mem_cons_self
        · rw [isFinalAck_iff hnum (by omega), ← hend, Nat.add_sub_cancel]

/-- With the sender about to send and the receiver waiting on an empty channel, the receiver comes
to hold the packet it waits for. -/
theorem reaches_holding (hnum : Numbered n (sentPackets buf (1024 * n))) {base added y : ℕ}
    (hR : ReceiverInv (sentPackets buf (1024 * n)) n base added J.receiver)
    (hread : J.receiver.phase = .read) (hfwd : J.fwd = [])
    (hi : J.sender.i ≤ (sentPackets buf (1024 * n)).length)
    (hwrite : J.sender.phase = .write (slotsFrom (sentPackets buf (1024 * n)) n y J.sender.i))
    (hle : y ≤ J.receiver.appended.length) (hmore : J.receiver.appended.length < J.sender.i) :
    ∃ R, (transferSystem buf (1024 * n)).Reaches J
        { J with sender := { J.sender with phase := .readAck }, receiver := R, fwd := [] } ∧
      R.phase = .deliver ∧ R.appended = J.receiver.appended ∧ R.cwndR.start = true ∧
      Indexed n base J.receiver.appended.length (J.receiver.appended.length + 1) R.cwndR ∧
      ∃ pkt, (sentPackets buf (1024 * n))[J.receiver.appended.length]? = some pkt ∧
        R.cwndR.packets[J.receiver.appended.length % (2 * n)]? = some pkt := by
  obtain ⟨pkt, hpkt⟩ : ∃ pkt, (sentPackets buf (1024 * n))[J.receiver.appended.length]? =
      some pkt := ⟨_, List.getElem?_eq_getElem (by omega)⟩
  have hsound := hR.sound
  rw [hread] at hsound
  have hsend := reaches_send hi hle hmore hwrite hpkt
  have hrecv := hR.recv_read hread zeroPacket pkt
  rw [if_pos ⟨hnum.close hpkt, hnum.verifies hpkt, hnum.seqNum hpkt, hnum.ack hpkt⟩] at hrecv
  obtain ⟨hR', -⟩ := hR.accepted hread hpkt
  rw [hfwd, List.nil_append] at hsend
  refine ⟨_, hsend.trans (reaches_receiverRecv (J := { J with
    sender := { J.sender with phase := .readAck }, fwd := [pkt] }) rfl hrecv), rfl, rfl, ?_, ?_, ?_⟩
  · rw [hR'.started, decide_eq_true (Nat.succ_pos added)]
  · rw [← hsound.1]
    have hw := hR'.window
    rwa [← show added = J.receiver.appended.length from hsound.1] at hw
  · rcases hR'.sound with hne | ⟨-, hslot⟩
    · have := hsound.1
      dsimp only at hne
      omega
    · exact hslot

variable (hn : 0 < n) (hring : 2 * n ∣ 2 ^ 22) (hb : 1024 * (2 * n) < 2 ^ 31)
include hn hring hb

/-- From a start with empty channels the sender may come to where it is about to send the first
packets, and the receiver to wait for them. -/
theorem Joint.Initial.reaches_waiting (h : J.Initial (1024 * n)) (hfwd : J.fwd = [])
    (hrev : J.rev = []) (hpos : 0 < (sentPackets buf (1024 * n)).length) :
    ∃ J', (transferSystem buf (1024 * n)).Reaches J J' ∧
      SenderInv (sentPackets buf (1024 * n)) n 0 J'.sender ∧ 0 < J'.sender.i ∧
      J'.sender.phase = .write (slotsFrom (sentPackets buf (1024 * n)) n 0 J'.sender.i) ∧
      J'.receiver.phase = .read ∧ J'.receiver.appended = [] ∧ J'.fwd = [] ∧ J'.rev = [] := by
  obtain ⟨⟨heap, hsender⟩, ⟨heap', hreceiver⟩, -, -⟩ := h
  have hinit := senderInv_init (sentPackets buf (1024 * n)) hn hring hb heap
  rw [← hsender] at hinit
  have hside : J.sender.side = .transmitting := by rw [hsender]; rfl
  obtain ⟨S, hquiet, hS, hlt, hwrite⟩ := quiet_pending hinit hside hpos
  obtain ⟨R, hR, hread, happ⟩ : ∃ R, receiverStep false false [] [] J.receiver = some (R, none) ∧
      R.phase = .read ∧ R.appended = [] := by
    rw [hreceiver]
    exact ⟨_, rfl, rfl, rfl⟩
  have hreach := (reaches_quiet hquiet).trans (reaches_receiver (J := { J with sender := S }) hR)
  exact ⟨_, hreach, hS, hlt, hwrite, hread, happ, hfwd, by simp [hrev]⟩

/-- Then the first packet may arrive, and its acknowledgement may be lost. -/
theorem Joint.Initial.reaches_taken (h : J.Initial (1024 * n)) (hfwd : J.fwd = [])
    (hrev : J.rev = []) (hpos : 0 < (sentPackets buf (1024 * n)).length) (lost : Bool) :
    ∃ J' pkt, (transferSystem buf (1024 * n)).Reaches J J' ∧
      (sentPackets buf (1024 * n))[0]? = some pkt ∧ J'.Transmitting ∧
      SenderInv (sentPackets buf (1024 * n)) n 0 J'.sender ∧ 0 < J'.sender.i ∧
      J'.receiver.phase = (if getLast (some pkt) = false then .top else .close) ∧
      J'.receiver.appended = [pkt] ∧ J'.fwd = [] ∧
      J'.rev = if lost then [] else [ackPacket (seqOf n 0)] := by
  have hnum : Numbered n (sentPackets buf (1024 * n)) := numbered_packetsOf hring hb _ _
  obtain ⟨J₁, hreach₁, hS, hlt, hwrite, hread, happ, hfwd₁, hrev₁⟩ :=
    h.reaches_waiting hn hring hb hfwd hrev hpos
  obtain ⟨_, _, _, hrel, -⟩ :=
    Related.of_reachable hn hring hb ((StepSystem.Reachable.of_init h).trans hreach₁)
  obtain ⟨base, added, hR⟩ := hrel.receiver
  obtain ⟨R, hreach₂, hphase, happ₂, hstart, hw, pkt, hpkt, hslot⟩ :=
    reaches_holding hnum hR hread hfwd₁ hS.i_le hwrite (Nat.zero_le _) (by rw [happ]; exact hlt)
  have hdeliver := deliver_of_pending hw hstart hslot lost false [] []
  rw [happ] at hpkt happ₂ hdeliver
  refine ⟨_, pkt, (hreach₁.trans hreach₂).trans (reaches_deliver hphase hdeliver), hpkt, rfl,
    hS.withPhase trivial, hlt, rfl, ?_, rfl, ?_⟩
  · simp only [happ₂, List.nil_append]
  · cases lost <;> simp [hrev₁]

/-- The acknowledgement of the last packet the receiver has taken comes first: the sender may act
on it, without shifting its window. -/
theorem reaches_acked {acked : ℕ} {rest : List Packet}
    (h : (transferSystem buf (1024 * n)).Reachable J)
    (hS : SenderInv (sentPackets buf (1024 * n)) n acked J.sender) (hsend : J.Transmitting)
    (hlt : acked < J.receiver.appended.length)
    (hrev : J.rev = ackPacket (seqOf n (J.receiver.appended.length - 1)) :: rest) :
    ∃ J', (transferSystem buf (1024 * n)).Reaches J J' ∧ J'.Transmitting ∧
      J'.receiver = J.receiver ∧
      SenderInv (sentPackets buf (1024 * n)) n J.receiver.appended.length J'.sender ∧
      J'.sender.shifted ≤ acked := by
  have hlen : J.receiver.appended.length ≤ (sentPackets buf (1024 * n)).length := by
    obtain ⟨_, _, _, hrel, -⟩ := Related.of_reachable hn hring hb h
    obtain ⟨base, added, hR⟩ := hrel.receiver
    exact hR.length_le
  obtain ⟨S, hquiet, hS', hphase⟩ := quiet_waiting hS hsend (by omega)
  have hreach := reaches_quiet hquiet
  obtain ⟨acked', _, _, hrel, hinv⟩ := Related.of_reachable hn hring hb (h.trans hreach)
  have htaken : J.receiver.appended.length ≤ S.i := hinv.counts.taken_le
  have hbase := hS'.window.base_le
  obtain ⟨w, hrecv, hS''⟩ := hS'.recv_ack (q := J.receiver.appended.length - 1) hphase (by omega)
    (by omega) zeroPacket
  rw [show max acked (J.receiver.appended.length - 1 + 1) = J.receiver.appended.length by omega]
    at hS''
  refine ⟨{ J with sender := { S with cwndW := w, phase := .readAck }, rev := rest },
    hreach.trans (reaches_step (.senderRecv zeroPacket) ?_), rfl, rfl, hS'', hbase⟩
  simp only [Joint.step, hrev, hrecv, Option.map_some]

/-- The acknowledgement of the final packet is in flight. -/
theorem canLeave_of_finalAck (h : (transferSystem buf (1024 * n)).Reachable J)
    (hsend : J.Transmitting) (hreceive : ¬ J.Receiving)
    (hflight : FinalAckInFlight (sentPackets buf (1024 * n)) J) :
    CanLeave buf (1024 * n) J := by
  have hnum : Numbered n (sentPackets buf (1024 * n)) := numbered_packetsOf hring hb _ _
  obtain ⟨acked, _, _, hrel, hinv⟩ := Related.of_reachable hn hring hb h
  obtain ⟨-, htaken, hpos⟩ := finished_of_not_receiving hinv hsend hreceive
  have hle : acked ≤ J.receiver.appended.length := hinv.counts.acked_le
  rcases hle.lt_or_eq with hlt | heq
  · obtain ⟨pkt, hpkt, hfinal⟩ := hflight
    rw [isFinalAck_iff hnum hpos] at hfinal
    obtain ⟨before, after, hsplit⟩ := List.append_of_mem hpkt
    have hdrop : (transferSystem buf (1024 * n)).Reaches J _ := reaches_dropRev J before.length
    rw [hsplit, List.drop_left] at hdrop
    obtain ⟨J', hreach, hsend', hreceiver, hS, -⟩ := reaches_acked hn hring hb (h.trans hdrop)
      hrel.sender hsend hlt (by rw [hfinal, htaken])
    rw [htaken] at hS
    exact canLeave_of_reaches (hdrop.trans hreach) (canLeave_of_acked hS hsend')
  · rw [heq, htaken] at hrel
    exact canLeave_of_acked hrel.sender hsend

/-- With the sender about to send and the receiver waiting on empty channels, an acknowledgement
that the sender lacks can come to be all that is in flight to it. -/
theorem reaches_ack {acked : ℕ} (h : (transferSystem buf (1024 * n)).Reachable J)
    (hS : SenderInv (sentPackets buf (1024 * n)) n acked J.sender) (hlt : acked < J.sender.i)
    (hwrite : J.sender.phase = .write (slotsFrom (sentPackets buf (1024 * n)) n acked J.sender.i))
    (hread : J.receiver.phase = .read) (hfwd : J.fwd = []) (hrev : J.rev = []) :
    ∃ J', (transferSystem buf (1024 * n)).Reaches J J' ∧ J'.Transmitting ∧
      SenderInv (sentPackets buf (1024 * n)) n acked J'.sender ∧
      acked < J'.receiver.appended.length ∧
      J'.rev = [ackPacket (seqOf n (J'.receiver.appended.length - 1))] := by
  have hnum : Numbered n (sentPackets buf (1024 * n)) := numbered_packetsOf hring hb _ _
  obtain ⟨acked', _, _, hrel, hinv⟩ := Related.of_reachable hn hring hb h
  obtain rfl := hS.acked_unique hrel.sender
  obtain ⟨base, added, hR⟩ := hrel.receiver
  have hle : acked ≤ J.receiver.appended.length := hinv.counts.acked_le
  have hle' : J.receiver.appended.length ≤ J.sender.i := hinv.counts.taken_le
  have hi := hS.i_le
  have hadded : added = J.receiver.appended.length := by
    have hsound := hR.sound
    rw [hread] at hsound
    exact hsound.1
  rcases hle'.lt_or_eq with hmore | hall
  · -- the next packet arrives and is acknowledged
    obtain ⟨R, hreach, hphase, happ, hstart, hw, pkt, -, hslot⟩ :=
      reaches_holding hnum hR hread hfwd hi hwrite hle hmore
    have hdeliver := deliver_of_pending hw hstart hslot false false [] []
    refine ⟨_, hreach.trans (reaches_deliver hphase hdeliver), rfl, hS.withPhase trivial, ?_, ?_⟩
    · simp only [List.length_append, List.length_singleton, happ]
      omega
    · simp [hrev, happ]
  · -- everything sent has been taken, and the last packet is acknowledged again
    have hpos : 0 < added := by omega
    have hquiet := (quiet_write hi hlt.le le_rfl hwrite).trans
      (quiet_written (S := { J.sender with
        phase := .write (slotsFrom (sentPackets buf (1024 * n)) n J.sender.i J.sender.i) }) rfl)
    have hw := hR.window
    rw [← hadded] at hw
    have hdeliver := deliver_of_none (R := { J.receiver with phase := .deliver }) hw hR.started
      false false [] []
    rw [if_pos hpos] at hdeliver
    have hreach := (reaches_quiet hquiet).trans <|
      (reaches_receiverTimeout (J := { J with sender := { J.sender with phase := .readAck } })
        (receiverRecv_read_timeout hread zeroPacket)).trans
      (reaches_deliver rfl hdeliver)
    refine ⟨_, hreach, rfl, hS.withPhase trivial, ?_, ?_⟩
    · dsimp only
      omega
    · simp [hrev, hadded]

/-- While the receiver is in its receive loop, round after round can bring the sender on. -/
theorem canLeave_of_receiving (h : (transferSystem buf (1024 * n)).Reachable J)
    (hsend : J.Transmitting) (hreceive : J.Receiving) : CanLeave buf (1024 * n) J := by
  have hnum : Numbered n (sentPackets buf (1024 * n)) := numbered_packetsOf hring hb _ _
  obtain ⟨acked, _, _, hrel, -⟩ := Related.of_reachable hn hring hb h
  have hS := hrel.sender
  clear hrel
  induction hd : (sentPackets buf (1024 * n)).length - acked using Nat.strongRecOn
    generalizing J acked with
  | ind d ih =>
    rcases hS.acked_le.lt_or_eq with hmore | hall
    swap
    · rw [hall] at hS
      exact canLeave_of_acked hS hsend
    obtain ⟨_, _, _, hrel, -⟩ := Related.of_reachable hn hring hb h
    obtain ⟨base, added, hR⟩ := hrel.receiver
    obtain ⟨J₁, hreach₁, hS₁, hway⟩ := reaches_read hnum hR hreceive
    have hsend₁ : J₁.Transmitting := by
      rw [Joint.Transmitting, hS₁]
      exact hsend
    rcases hway with hread | ⟨hdone, hflight⟩
    swap
    · exact canLeave_of_reaches hreach₁
        (canLeave_of_finalAck hn hring hb (h.trans hreach₁) hsend₁ hdone hflight)
    rw [← hS₁] at hS
    obtain ⟨S, hquiet, hS₂, hlt, hwrite⟩ := quiet_pending hS hsend₁ hmore
    have hreach₂ := (hreach₁.trans (reaches_quiet hquiet)).trans
      ((reaches_dropFwd _).trans (reaches_dropRev _ J₁.rev.length))
    obtain ⟨J₃, hreach₃, hsend₃, hS₃, hlt₃, hrev₃⟩ := reaches_ack hn hring hb (h.trans hreach₂) hS₂
      hlt hwrite hread rfl (List.drop_length)
    have h₃ := (h.trans hreach₂).trans hreach₃
    obtain ⟨J₄, hreach₄, hsend₄, hreceiver₄, hS₄, -⟩ := reaches_acked hn hring hb h₃ hS₃ hsend₃ hlt₃
      hrev₃
    have hreach := hreach₂.trans (hreach₃.trans hreach₄)
    refine canLeave_of_reaches hreach ?_
    by_cases hreceive₄ : J₄.Receiving
    · exact ih ((sentPackets buf (1024 * n)).length - J₃.receiver.appended.length) (by omega)
        (h.trans hreach) hsend₄ hreceive₄ _ hS₄ rfl
    · obtain ⟨_, _, _, -, hinv⟩ := Related.of_reachable hn hring hb (h.trans hreach)
      obtain ⟨-, htaken, -⟩ := finished_of_not_receiving hinv hsend₄ hreceive₄
      rw [hreceiver₄] at htaken
      rw [htaken] at hS₄
      exact canLeave_of_acked hS₄ hsend₄

/-- **The exact condition.** -/
theorem canLeave_iff (h : (transferSystem buf (1024 * n)).Reachable J) (hsend : J.Transmitting) :
    CanLeave buf (1024 * n) J ↔ J.Receiving ∨
      FinalAckInFlight (sentPackets buf (1024 * n)) J ∨
        AllAcked (sentPackets buf (1024 * n)) J := by
  constructor
  · intro hleave
    by_contra hno
    rw [not_or, not_or] at hno
    exact not_canLeave hn hring hb h hsend hno.1 hno.2.1 hno.2.2 hleave
  · intro hway
    by_cases hreceive : J.Receiving
    · exact canLeave_of_receiving hn hring hb h hsend hreceive
    · rcases hway with hr | hflight | hacked
      · exact absurd hr hreceive
      · exact canLeave_of_finalAck hn hring hb h hsend hreceive hflight
      · obtain ⟨acked, _, _, hrel, -⟩ := Related.of_reachable hn hring hb h
        rw [hrel.allAcked_iff] at hacked
        subst hacked
        exact canLeave_of_acked hrel.sender hsend

end WaysOut

end Tcp118
