import Tcp118.Session.Answer
import Tcp118.Session.Transfer
import Tcp118.Transport.Returns

/-!
# The stages of a session

* `Requesting`, `Responding`: a session as the transfer of its request, and as that of its answer;
* `Later`: a later state of a transfer, or the same with a new call of `readTCP`;
* `Requesting.step`, `Responding.step`: what the events of a session are there;
* `stringAt_message`: the name the server reads is the one the client was given;
* `Stage`, `stage_of_reachable`: every reachable session is the transfer of its request, or that of
  its answer, or is left without one.
-/

namespace Tcp118

open Protocol

/-- A later state of a transfer.  As long as nothing has been received, the receiving program may
come from its last call and be in a new one. -/
def Later (buf : List UInt8) (J J' : Joint) : Prop :=
  (transferSystem buf clientWnd).Reaches J J' ∨
    J.receiver.Idle clientWnd ∧ J'.receiver.Idle clientWnd

/-- The client sends the name, and the server reads it. -/
structure Requesting (setup : Setup) (s : Session) (J : Joint) : Prop where
  transferring : Transferring setup.filename.bytes s.link J
  served : s.served = []
  written : s.written = none
  aborted : s.aborted = false

/-- The server sends `buf`, and the client reads it, and writes it to its file. -/
structure Responding (setup : Setup) (buf : List UInt8) (s : Session) (J : Joint) : Prop where
  transferring : Transferring buf s.link.swap J
  served : s.served = [setup.filename]
  written : s.written = none ∨ J.receiver.phase = .exited ∧
    ∃ r, writeFile setup.clientFiles setup.rcvFilename (some J.receiver.message.msgBody)
      J.receiver.message.msgLen = some r ∧ s.written = some r.1
  aborted : s.aborted = false

section Steps

variable {setup : Setup} {buf : List UInt8} {s t : Session} {J J' : Joint}

/-- A receiver that has returned does not change. -/
theorem receiver_of_reaches {W : ℕ} (h : (transferSystem buf W).Reaches J J')
    (hphase : J.receiver.phase = .exited) : J'.receiver = J.receiver := by
  refine h.keeps (I := fun J' => J'.receiver = J.receiver) rfl ?_
  rintro a b ha ⟨event, -, hstep⟩
  have hphase' : a.receiver.phase = .exited := by rw [ha, hphase]
  rcases a.step_receiver hstep with he | ⟨_, _, _, _, _, hs⟩ | ⟨_, _, hs⟩
  · rw [he, ha]
  · rw [receiverStep_of_exited hphase'] at hs
    cases hs
  · rw [receiverRecv_of_exited hphase'] at hs
    cases hs

/-! ### The request -/

theorem Setup.requestPackets_pos (hfits : setup.Fits) :
    0 < (sentPackets setup.filename.bytes clientWnd).length := by
  have hlen : setup.filename.bytes.length < 2 ^ 31 := by
    have hname := hfits.countable
    simp only [maxBodySize, packetSize] at hname
    omega
  rw [length_sentPackets hlen, CString.bytes, List.length_append, List.length_singleton]
  omega

/-- An event while the client sends the name: one of the transfer, or the server's answer to it. -/
theorem Requesting.step (hfits : setup.Fits)
    (hJ : (transferSystem setup.filename.bytes clientWnd).Reachable J) (h : Requesting setup s J)
    (hmove : s.Moves setup t) :
    (∃ J', (transferSystem setup.filename.bytes clientWnd).Reachable J' ∧
      Later setup.filename.bytes J J' ∧ Requesting setup t J') ∨
    J.receiver.phase = .exited ∧ ∃ rest fileBuf heap,
      t = s.answered setup (stringAt (J.receiver.message.msgBody ++ rest)) fileBuf heap := by
  have htrans := h.transferring
  cases hmove with
  | link hstep =>
    obtain ⟨J', hreach, h'⟩ := htrans.step (Setup.requestPackets_pos hfits) hJ hstep
    exact .inl ⟨J', hJ.trans hreach, .inl hreach, h', h.served, h.written, h.aborted⟩
  | requested heap hclient hreturned =>
    exact .inl ⟨J, hJ, .inl (.refl J), htrans.sent hclient hreturned, h.served, h.written,
      h.aborted⟩
  | wrote hclient hphase =>
    rcases htrans.near with hnear | ⟨-, R, hnear, hidle⟩
    · cases hnear.symm.trans hclient
    · cases hnear.symm.trans hclient
      exact absurd hphase hidle.not_exited
  | answered rest fileBuf heap hserver hphase =>
    rcases htrans.far with hfar | ⟨⟨pkts, S, hfar, -⟩, -⟩
    · cases hfar.symm.trans hserver
      exact .inr ⟨hphase, rest, fileBuf, heap, rfl⟩
    · cases hfar.symm.trans hserver
  | served heap hserver =>
    obtain ⟨J', hJ', hlater, h'⟩ := htrans.called heap hJ hserver
    rw [hfits.window]
    exact .inl ⟨J', hJ', .inr hlater, h', h.served, h.written, h.aborted⟩

/-! ### The answer -/

theorem Setup.sentPackets_pos (hanswer : setup.answer = some buf) :
    0 < (sentPackets buf clientWnd).length := by
  obtain ⟨hpos, hle, -⟩ := Setup.answer_eq_some hanswer
  rw [length_sentPackets (lt_of_le_of_lt hle (by norm_num [maxFileSize]))]
  omega

/-- An event while the server sends its answer. -/
theorem Responding.step (hfits : setup.Fits) (hanswer : setup.answer = some buf)
    (hJ : (transferSystem buf clientWnd).Reachable J) (h : Responding setup buf s J)
    (hmove : s.Moves setup t) :
    ∃ J', (transferSystem buf clientWnd).Reachable J' ∧ Later buf J J' ∧
      Responding setup buf t J' := by
  have htrans := h.transferring
  cases hmove with
  | link hstep =>
    obtain ⟨J', hreach, h'⟩ := htrans.step (Setup.sentPackets_pos hanswer) hJ hstep.swap
    refine ⟨J', hJ.trans hreach, .inl hreach, h', h.served, ?_, h.aborted⟩
    rcases h.written with hnone | ⟨hphase, r, hr, hwritten⟩
    · exact .inl hnone
    · have he := receiver_of_reaches hreach hphase
      exact .inr ⟨by rw [he, hphase], r, by rw [he, hr], hwritten⟩
  | requested heap hclient =>
    obtain ⟨J', hJ', hlater, h'⟩ := htrans.called heap hJ hclient
    refine ⟨J', hJ', .inr hlater, h', h.served, .inl ?_, h.aborted⟩
    rcases h.written with hnone | ⟨hphase, -⟩
    · exact hnone
    · exact absurd hphase hlater.1.not_exited
  | @wrote R r hclient hphase hnone hr =>
    rcases htrans.far with hfar | ⟨⟨pkts, S, hfar, -⟩, -⟩
    · cases hfar.symm.trans hclient
      exact ⟨J, hJ, .inl (.refl J), htrans, h.served, .inr ⟨hphase, r, hr, rfl⟩, h.aborted⟩
    · cases hfar.symm.trans hclient
  | answered rest fileBuf heap hserver hphase =>
    rcases htrans.near with hnear | ⟨-, R, hnear, hidle⟩
    · cases hnear.symm.trans hserver
    · cases hnear.symm.trans hserver
      exact absurd hphase hidle.not_exited
  | served heap hserver hreturned =>
    rw [hfits.window]
    exact ⟨J, hJ, .inl (.refl J), htrans.sent hserver hreturned, h.served, h.written, h.aborted⟩

/-! ### From the request to the answer -/

/-- The memory at `msgBody` holds the name, with its zero. -/
theorem stringAt_message (hfits : setup.Fits)
    (hJ : (transferSystem setup.filename.bytes clientWnd).Reachable J)
    (hphase : J.receiver.phase = .exited) (rest : List UInt8) :
    stringAt (J.receiver.message.msgBody ++ rest) = setup.filename := by
  obtain ⟨got, -, -, hbytes, hall⟩ := message_of_reachable (n := 4) (by norm_num) (by norm_num)
    (by norm_num) hfits.countable hJ
  have hmessage : J.receiver.message.bytes = setup.filename.bytes :=
    (hbytes (transparent_concat_zero setup.filename.noZero)).trans
      (hall (not_receiving_of_exited hphase))
  rw [← List.take_append_drop J.receiver.message.msgLen J.receiver.message.msgBody,
    List.append_assoc, show J.receiver.message.msgBody.take J.receiver.message.msgLen =
      setup.filename.bytes from hmessage]
  exact stringAt_bytes _ _

/-- The transfer of the answer starts where that of the request ends. -/
theorem Requesting.responding (rest fileBuf : List UInt8) (heap : ℕ → Packet) (hfits : setup.Fits)
    (hJ : (transferSystem setup.filename.bytes clientWnd).Reachable J) (h : Requesting setup s J)
    (hphase : J.receiver.phase = .exited) (hanswer : setup.answer = some buf) :
    ∃ J', (transferSystem buf clientWnd).Reachable J' ∧ J'.receiver.Idle clientWnd ∧
      Responding setup buf
        (s.answered setup (stringAt (J.receiver.message.msgBody ++ rest)) fileBuf heap) J' := by
  rw [stringAt_message hfits hJ hphase rest, Session.answered_of_some hanswer, hfits.window,
    h.served]
  obtain ⟨J', hJ', hidle, h'⟩ := h.transferring.answer heap hJ hphase rfl
  exact ⟨J', hJ', hidle, h', rfl, .inl h.written, h.aborted⟩

/-- The server has nothing to send. -/
theorem Requesting.unanswered {rest fileBuf : List UInt8} {heap : ℕ → Packet}
    (hfits : setup.Fits)
    (hJ : (transferSystem setup.filename.bytes clientWnd).Reachable J) (h : Requesting setup s J)
    (hphase : J.receiver.phase = .exited) (hanswer : setup.answer = none) :
    Unanswered setup
      (s.answered setup (stringAt (J.receiver.message.msgBody ++ rest)) fileBuf heap) := by
  have hclient : s.client.Between clientWnd := h.transferring.near_of_exited hJ hphase
  have htoServer : ∀ pkt ∈ s.toServer, Ignorable pkt := fun pkt hpkt =>
    (h.transferring.control_of_exited hJ hphase pkt hpkt).ignorable
  rw [stringAt_message hfits hJ hphase rest]
  rcases Session.answered_of_none fileBuf heap hanswer s with he | he
  · rw [he, h.served]
    exact ⟨rfl, h.written, hclient,
      ⟨_, h.transferring.far_of_exited hphase, .inr ⟨hphase, rfl⟩⟩, htoServer,
      h.transferring.ignorable⟩
  · rw [he, h.served, hfits.window]
    exact ⟨rfl, h.written, hclient, ⟨_, rfl, .inl ⟨Receiver.idle_init _ _, h.aborted⟩⟩,
      htoServer, h.transferring.ignorable⟩

/-! ### Stages -/

/-- What a session is, from one of its calls to the next. -/
inductive Stage (setup : Setup) (s : Session) : Prop
  | requesting (J : Joint) : (transferSystem setup.filename.bytes clientWnd).Reachable J →
      Requesting setup s J → Stage setup s
  | responding (buf : List UInt8) (J : Joint) : setup.answer = some buf →
      (transferSystem buf clientWnd).Reachable J → Responding setup buf s J → Stage setup s
  | unanswered : setup.answer = none → Unanswered setup s → Stage setup s

/-- A session starts as the transfer of its request. -/
theorem Session.Initial.requesting (hwindow : setup.cWnd = clientWnd)
    (h : Session.Initial setup s) :
    ∃ J, (transferSystem setup.filename.bytes clientWnd).Reachable J ∧
      J.receiver.Idle clientWnd ∧ Requesting setup s J := by
  obtain ⟨heap, hstart⟩ := h.client
  have hclient := (clientStart_eq_some hstart).2
  have hserver := h.server
  rw [hwindow] at hserver
  obtain ⟨J, hJ, hidle, htrans⟩ := Transferring.start (L := s.link) rfl hclient hserver h.toServer
    fun pkt hpkt => by
      rw [show s.link.back = [] from h.toClient] at hpkt
      exact absurd hpkt List.not_mem_nil
  exact ⟨J, hJ, hidle, htrans, h.served, h.written, h.aborted⟩

theorem Stage.step (hfits : setup.Fits) (h : Stage setup s) (hmove : s.Moves setup t) :
    Stage setup t := by
  cases h with
  | requesting J hJ h =>
    rcases h.step hfits hJ hmove with
      ⟨J', hJ', -, h'⟩ | ⟨hphase, rest, fileBuf, heap, rfl⟩
    · exact .requesting J' hJ' h'
    · cases hanswer : setup.answer with
      | none => exact .unanswered hanswer (h.unanswered hfits hJ hphase hanswer)
      | some buf =>
        obtain ⟨J', hJ', -, h'⟩ := h.responding rest fileBuf heap hfits hJ hphase hanswer
        exact .responding buf J' hanswer hJ' h'
  | responding buf J hanswer hJ h =>
    obtain ⟨J', hJ', -, h'⟩ := h.step hfits hanswer hJ hmove
    exact .responding buf J' hanswer hJ' h'
  | unanswered hanswer h => exact .unanswered hanswer (h.step hmove)

/-- Every reachable session is in one of the stages. -/
theorem stage_of_reachable (hwindow : setup.cWnd = clientWnd)
    (h : (sessionSystem setup).Reachable s) : Stage setup s := by
  have hfits := fits_of_reachable hwindow h
  refine h.invariant (I := Stage setup) (fun a ha => ?_) ?_
  · obtain ⟨J, hJ, -, hreq⟩ := ha.requesting hwindow
    exact .requesting J hJ hreq
  rintro a b - ha ⟨event, -, hstep⟩
  exact ha.step hfits (Session.moves_of_step hstep)

end Steps

/-! ### A session -/

/-- A name of one letter, and a file of two. -/
def letterSetup : Setup where
  filename := ⟨[102], by decide⟩
  clientFiles := oneFile []
  serverFiles := oneFile [72, 105]
  cWnd := clientWnd

/-- Its start. -/
def startOfSession : Session where
  client := .writeTCP letterSetup.requestPackets (senderInit clientWnd fun _ => zeroPacket)
  server := .readTCP (receiverInit clientWnd fun _ => zeroPacket)
  toServer := []
  toClient := []
  written := none
  aborted := false
  served := []

theorem startOfSession_initial : startOfSession.Initial letterSetup :=
  ⟨⟨_, rfl⟩, .idle (Receiver.idle_init _ _), fun _ hp => absurd hp List.not_mem_nil, rfl, rfl, rfl,
    rfl⟩

end Tcp118
