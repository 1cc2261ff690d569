import Tcp118.Session.Finish

/-!
# What a session delivers

* `session_request`: the server reads the name the client was given, once, and what its `writeTCP`
  sends then;
* `writeFile_message`, `exists_responding_of_written`, `message_of_exited`: what the client writes;
* `Session.Delivered`, `delivered_of_written`: the client's copy of the file;
* `between_of_written`: where the programs are then.
-/

namespace Tcp118

open Protocol

section Delivery

variable {setup : Setup} {buf : List UInt8} {s : Session} {J : Joint}

theorem Transferring.near_eq {L : Link} {pkts : List Packet} {S : Sender}
    (h : Transferring buf L J) (hnear : L.near = .writeTCP pkts S) :
    pkts = sentPackets buf clientWnd ∧ S = J.sender := by
  rcases h.near with he | ⟨-, R, he, -⟩
  · cases he.symm.trans hnear
    exact ⟨rfl, rfl⟩
  · cases he.symm.trans hnear

/-- **The request.**  In every reachable state the server has read no name or has read once the one
the client was given.  Before, its `writeTCP`, if it is still in the one of an earlier client, is
behind its transmission loop; then its `writeTCP` is that of the bytes that `readFile` stores for
the name.  It has stopped only if there is nothing to send. -/
theorem session_request (hwindow : setup.cWnd = clientWnd)
    (h : (sessionSystem setup).Reachable s) :
    (s.served = [] ∧ s.aborted = false ∧
        ∀ pkts S, s.server = .writeTCP pkts S → S.side ≠ .transmitting) ∨
      (s.served = [setup.filename] ∧ (s.aborted = true → setup.answer = none) ∧
        ∀ pkts S, s.server = .writeTCP pkts S →
          ∃ buf, setup.answer = some buf ∧ pkts = sentPackets buf clientWnd) := by
  cases stage_of_reachable hwindow h with
  | requesting J hJ hstage =>
    refine .inl ⟨hstage.served, hstage.aborted, fun pkts S hserver => ?_⟩
    rcases hstage.transferring.far with he | ⟨⟨pkts', S', he, hleaving⟩, -⟩
    · cases he.symm.trans hserver
    · cases he.symm.trans hserver
      exact hleaving.side
  | responding buf J hanswer hJ hstage =>
    refine .inr ⟨hstage.served, fun e => ?_, fun pkts S hserver => ?_⟩
    · rw [hstage.aborted] at e
      cases e
    · exact ⟨buf, hanswer, (hstage.transferring.near_eq hserver).1⟩
  | unanswered hanswer hstage =>
    refine .inr ⟨hstage.served, fun _ => hanswer, fun pkts S hserver => ?_⟩
    obtain ⟨R, he, -⟩ := hstage.server
    cases he.symm.trans hserver

/-- The server sends the two letters. -/
theorem session_request_letter :
    ∃ s pkts S, (sessionSystem letterSetup).Reachable s ∧ s.server = .writeTCP pkts S ∧
      S.side = .transmitting ∧
      ((s.served = [] ∧ s.aborted = false ∧
          ∀ pkts S, s.server = .writeTCP pkts S → S.side ≠ .transmitting) ∨
        (s.served = [letterSetup.filename] ∧ (s.aborted = true → letterSetup.answer = none) ∧
          ∀ pkts S, s.server = .writeTCP pkts S →
            ∃ buf, letterSetup.answer = some buf ∧ pkts = sentPackets buf clientWnd)) := by
  obtain ⟨s, -, pkts, S, hreach, -, -, hserver, hside⟩ :=
    startOfSession_initial.reaches_answering rfl letterSetup_answerable
  have hs := (StepSystem.Reachable.of_init startOfSession_initial).trans hreach
  exact ⟨s, pkts, S, hs, hserver, hside, session_request rfl hs⟩

/-- The files the client leaves when it writes a message. -/
theorem writeFile_message {files files' : Files} {name : List UInt8} {m : Message} {n : ℤ}
    (h : writeFile files name (some m.msgBody) m.msgLen = some (files', n)) :
    ∀ name', files'.contents name' =
      if name' = name ∧ files.writable name = true then some m.bytes
      else files.contents name' := by
  intro name'
  unfold writeFile at h
  simp only [Option.bind_eq_bind, Option.bind_some, Option.pure_def] at h
  split_ifs at h with hw
  · cases h
    simp only [hw, and_true, Message.bytes]
  · cases h
    rw [if_neg fun e => hw e.2]

/-- A client that is done has written the message of the transfer of the answer. -/
theorem exists_responding_of_written {files : Files} (hwindow : setup.cWnd = clientWnd)
    (h : (sessionSystem setup).Reachable s) (hwritten : s.written = some files) :
    ∃ buf J, setup.answer = some buf ∧ (transferSystem buf clientWnd).Reachable J ∧
      Responding setup buf s J ∧ J.receiver.phase = .exited ∧
      ∀ name, files.contents name =
        if name = setup.rcvFilename ∧ setup.clientFiles.writable setup.rcvFilename = true then
          some J.receiver.message.bytes
        else setup.clientFiles.contents name := by
  cases stage_of_reachable hwindow h with
  | requesting J hJ hstage => cases hstage.written.symm.trans hwritten
  | unanswered hanswer hstage => cases hstage.written.symm.trans hwritten
  | responding buf J hanswer hJ hstage =>
    rcases hstage.written with hnone | ⟨hphase, r, hr, hsome⟩
    · cases hnone.symm.trans hwritten
    · cases hsome.symm.trans hwritten
      exact ⟨buf, J, hanswer, hJ, hstage, hphase, writeFile_message hr⟩

/-- The message at the return of `readTCP`. -/
theorem message_of_exited (hanswer : setup.answer = some buf)
    (hJ : (transferSystem buf clientWnd).Reachable J) (hphase : J.receiver.phase = .exited) :
    J.receiver.message.bytes.length = buf.length ∧
      (Transparent buf → J.receiver.message.bytes = buf) := by
  have hlen := countable_of_le (Setup.answer_eq_some hanswer).2.1
  obtain ⟨got, -, hmsgLen, hbytes, hall⟩ := message_of_reachable (n := 4) (by norm_num)
    (by norm_num) (by norm_num) hlen hJ
  rw [hall (not_receiving_of_exited hphase)] at hmsgLen hbytes
  refine ⟨?_, hbytes⟩
  rw [Message.bytes, List.length_take, Nat.min_eq_left (assembles_of_reachable hJ).msgLen_le,
    hmsgLen]

/-- What a finished session has delivered.  The server has read the name once, and `readFile` has
stored bytes for it.  The client's file, if it could be written, has as many, and has these bytes if
no body of their packets has a zero byte before its last one.  No other file of the client has
changed. -/
structure Session.Delivered (setup : Setup) (s : Session) (files : Files) : Prop where
  served : s.served = [setup.filename]
  copy : ∃ buf got, setup.answer = some buf ∧ got.length = buf.length ∧
    (Transparent buf → got = buf) ∧
    ∀ name, files.contents name =
      if name = setup.rcvFilename ∧ setup.clientFiles.writable setup.rcvFilename = true then
        some got
      else setup.clientFiles.contents name

theorem delivered_of_written {files : Files} (hwindow : setup.cWnd = clientWnd)
    (h : (sessionSystem setup).Reachable s) (hwritten : s.written = some files) :
    s.Delivered setup files := by
  obtain ⟨buf, J, hanswer, hJ, hstage, hphase, hfiles⟩ :=
    exists_responding_of_written hwindow h hwritten
  obtain ⟨hlength, hbytes⟩ := message_of_exited hanswer hJ hphase
  exact ⟨hstage.served, buf, J.receiver.message.bytes, hanswer, hlength, hbytes, hfiles⟩

/-- When the client has written its file, both programs are between two transfers, and what is in
flight a new transfer ignores. -/
theorem between_of_written (hwindow : setup.cWnd = clientWnd)
    (h : (sessionSystem setup).Reachable s) (hwritten : s.written ≠ none) :
    s.server.Between clientWnd ∧ s.aborted = false ∧ (∀ pkt ∈ s.toServer, Ignorable pkt) ∧
      ∀ pkt ∈ s.toClient, IsControl pkt := by
  obtain ⟨files, hsome⟩ := Option.ne_none_iff_exists'.1 hwritten
  obtain ⟨buf, J, -, hJ, hstage, hphase, -⟩ := exists_responding_of_written hwindow h hsome
  exact ⟨hstage.transferring.near_of_exited hJ hphase, hstage.aborted,
    hstage.transferring.ignorable, hstage.transferring.control_of_exited hJ hphase⟩

/-- The session of the two letters can finish. -/
theorem startOfSession_canFinish : CanFinish letterSetup startOfSession :=
  (startOfSession_initial.canFinish_iff rfl).2 letterSetup_answerable

end Delivery

end Tcp118
