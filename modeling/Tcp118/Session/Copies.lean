import Tcp118.Session.Delivery
import Tcp118.Transport.Garbled

/-!
# Which files are copied

* `Call.garble`, `Link.garble`, `Session.garble`: the same with a client whose `readTCP` has found
  other bytes behind the strings of `getBody`;
* `Link.Step.garble`, `garble_moves`, `garble_reaches`: the events of a session do the same there;
* `session_copies_iff`: the files of which every finished session leaves a copy.
-/

namespace Tcp118

open Protocol

/-- The same call, with the message of a `readTCP` garbled. -/
def Call.garble : Call → Call
  | .writeTCP pkts S => .writeTCP pkts S
  | .readTCP R => .readTCP R.garble

/-- The same calls, with the first one garbled. -/
def Link.garble (L : Link) : Link := { L with near := L.near.garble }

/-- What the client writes when its message has been garbled. -/
def Call.garbledFiles (setup : Setup) : Call → Option Files
  | .writeTCP _ _ => none
  | .readTCP R =>
    (writeFile setup.clientFiles setup.rcvFilename (some R.garble.message.msgBody)
      R.garble.message.msgLen).map Prod.fst

/-- The same session, with the message of its client garbled. -/
def Session.garble (setup : Setup) (s : Session) : Session :=
  { s with
    client := s.client.garble
    written := s.written.bind fun _ => s.client.garbledFiles setup }

section Garble

variable {setup : Setup} {s t : Session} {L L' : Link} {c c' : Call}

/-! ### The calls -/

theorem Call.garble_step {lost corr : Bool} {behind heap : List UInt8} {out : Option Packet}
    (h : c.step lost corr behind heap = some (c', out)) :
    ∃ heap', c.garble.step lost corr [] heap' = some (c'.garble, out) := by
  cases c with
  | writeTCP pkts S =>
    have h' : (Call.writeTCP pkts S).step lost corr [] [] = some (c', out) := h
    obtain ⟨⟨S', out'⟩, -, heq⟩ := Option.map_eq_some_iff.1 h
    cases heq
    exact ⟨[], h'⟩
  | readTCP R =>
    obtain ⟨⟨R', out'⟩, hs, heq⟩ := Option.map_eq_some_iff.1 h
    cases heq
    obtain ⟨heap', hs'⟩ := receiverStep_garble hs
    refine ⟨heap', ?_⟩
    rw [Call.garble, Call.step, hs', Option.map_some]
    rfl

theorem Call.garble_recv {stack : Packet} {recv : Option Datagram}
    (h : c.recv stack recv = some c') : c.garble.recv stack recv = some c'.garble := by
  cases c with
  | writeTCP pkts S =>
    have h' := h
    obtain ⟨S', -, rfl⟩ := Option.map_eq_some_iff.1 h
    exact h'
  | readTCP R =>
    obtain ⟨R', hs, rfl⟩ := Option.map_eq_some_iff.1 h
    rw [Call.garble, Call.recv, receiverRecv_garble hs, Option.map_some]
    rfl

theorem Link.Step.garble (h : L.Step L') : L.garble.Step L'.garble := by
  cases h with
  | near hs =>
    obtain ⟨heap', hs'⟩ := Call.garble_step hs
    exact .near (L := L.garble) hs'
  | nearRecv hchannel hs => exact .nearRecv (L := L.garble) hchannel (Call.garble_recv hs)
  | nearTimeout hs => exact .nearTimeout (L := L.garble) (Call.garble_recv hs)
  | far hs => exact .far (L := L.garble) hs
  | farRecv hchannel hs => exact .farRecv (L := L.garble) hchannel hs
  | farTimeout hs => exact .farTimeout (L := L.garble) hs
  | faultOut hs => exact .faultOut (L := L.garble) hs
  | faultBack hs => exact .faultBack (L := L.garble) hs

/-- A `readTCP` that has returned does not change. -/
theorem Link.Step.near_of_exited {R : Receiver} (h : L.Step L') (hnear : L.near = .readTCP R)
    (hphase : R.phase = .exited) : L'.near = L.near := by
  cases h with
  | near hs =>
    rw [hnear, Call.step, receiverStep_of_exited hphase] at hs
    cases hs
  | nearRecv _ hs | nearTimeout hs =>
    rw [hnear, Call.recv, receiverRecv_of_exited hphase] at hs
    cases hs
  | _ => rfl

/-! ### The sessions -/

/-- Whatever happens to a session happens to the garbled one. -/
theorem garble_moves
    (hsound : s.written ≠ none → ∃ R, s.client = .readTCP R ∧ R.phase = .exited)
    (h : s.Moves setup t) : (s.garble setup).Moves setup (t.garble setup) := by
  cases h with
  | @link L hstep =>
    have he : (s.withLink L).garble setup = (s.garble setup).withLink L.garble := by
      cases hwritten : s.written with
      | none =>
        simp only [Session.garble, Session.withLink, Link.garble, hwritten, Option.bind_none]
      | some files =>
        obtain ⟨R, hclient, hphase⟩ := hsound (by rw [hwritten]; exact Option.some_ne_none _)
        have hsame : L.near = s.client := hstep.near_of_exited hclient hphase
        simp only [Session.garble, Session.withLink, Link.garble, hsame]
    rw [he]
    exact .link (s := s.garble setup) hstep.garble
  | @requested heap pkts S hclient hreturned =>
    have hnone : s.written = none := by
      by_contra hne
      obtain ⟨R, he, -⟩ := hsound hne
      cases he.symm.trans hclient
    have hmove : (s.garble setup).Moves setup _ := .requested heap
      (by rw [Session.garble, hclient]; rfl) hreturned
    simp only [Session.garble, hnone, Option.bind_none] at hmove ⊢
    exact hmove
  | @wrote R r hclient hphase hnone hr =>
    obtain ⟨r', hr'⟩ := exists_writeFile setup.clientFiles setup.rcvFilename
      R.garble.message.msgBody R.garble.message.msgLen
    have hmove : (s.garble setup).Moves setup _ := .wrote (R := R.garble)
      (by rw [Session.garble, hclient]; rfl) hphase
      (by rw [Session.garble, hnone]; rfl) hr'
    have he : ({ s with written := some r.1 } : Session).garble setup =
        { s.garble setup with written := some r'.1 } := by
      simp only [Session.garble, hclient, Call.garbledFiles, hr', Option.bind_some, Option.map_some]
    rw [he]
    exact hmove
  | @answered rest fileBuf heap R hserver hphase haborted =>
    have hmove : (s.garble setup).Moves setup _ :=
      .answered rest fileBuf heap hserver hphase haborted
    have he : (s.answered setup (stringAt (R.message.msgBody ++ rest)) fileBuf heap).garble setup =
        (s.garble setup).answered setup (stringAt (R.message.msgBody ++ rest)) fileBuf heap := by
      unfold Session.answered
      split <;> rfl
    rw [he]
    exact hmove
  | @served heap pkts S hserver hreturned =>
    exact .served (s := s.garble setup) heap hserver hreturned

/-- A client that has written its file has come back from `readTCP`. -/
theorem exited_of_written (hwindow : setup.cWnd = clientWnd)
    (h : (sessionSystem setup).Reachable s) (hwritten : s.written ≠ none) :
    ∃ R, s.client = .readTCP R ∧ R.phase = .exited := by
  obtain ⟨files, hsome⟩ := Option.ne_none_iff_exists'.1 hwritten
  obtain ⟨buf, J, -, -, hstage, hphase, -⟩ := exists_responding_of_written hwindow h hsome
  exact ⟨J.receiver, hstage.transferring.far_of_exited hphase, hphase⟩

/-- Every run of a session is one of the garbled sessions. -/
theorem garble_reaches (hwindow : setup.cWnd = clientWnd) (h : Session.Initial setup s)
    (hreach : (sessionSystem setup).Reaches s t) :
    (sessionSystem setup).Reaches s (t.garble setup) := by
  have hstart : s.garble setup = s := by
    obtain ⟨heap, hstart⟩ := h.client
    have hclient := (clientStart_eq_some hstart).2
    rw [Session.garble, hclient, h.written]
    exact congrArg₂ (fun c w => { s with client := c, written := w }) hclient.symm h.written.symm
  obtain ⟨t', ht', -, rfl⟩ := hreach.carry (N := sessionSystem setup)
    (R := fun t t' => (sessionSystem setup).Reachable t ∧ t' = t.garble setup)
    ⟨.of_init h, hstart.symm⟩ <| by
      rintro a b _ ⟨ha, rfl⟩ ⟨event, hallowed, hstep⟩
      exact ⟨b.garble setup, (garble_moves (exited_of_written hwindow ha)
        (Session.moves_of_step hstep)).reaches, ha.tail ⟨event, hallowed, hstep⟩, rfl⟩
  exact ht'

end Garble

/-! ### Copies -/

section Copies

variable {setup : Setup} {s : Session} {file : List UInt8}

/-- **The files that are copied.**  Where a session can finish, and the client can write its file,
every finished session leaves a copy of the server's file, exactly if the file has no byte `0xFF`
and no body of its packets has a zero byte before its last one. -/
theorem session_copies_iff (hwindow : setup.cWnd = clientWnd) (h : Session.Initial setup s)
    (hfinish : CanFinish setup s)
    (hwritable : setup.clientFiles.writable setup.rcvFilename = true)
    (hfile : setup.serverFiles.contents setup.filename.chars = some file) :
    (∀ t files, (sessionSystem setup).Reaches s t → t.written = some files →
      files.contents setup.rcvFilename = some file) ↔ 0xFF ∉ file ∧ Transparent file := by
  have hanswer : ∀ {buf}, setup.answer = some buf → buf = storedBytes file := by
    intro buf hbuf
    obtain ⟨-, -, file', hfile', rfl⟩ := Setup.answer_eq_some hbuf
    rw [hfile] at hfile'
    cases hfile'
    rfl
  constructor
  · intro hall
    obtain ⟨t, hreach, hwritten⟩ := hfinish
    obtain ⟨files, hsome⟩ := Option.ne_none_iff_exists'.1 hwritten
    have ht := (StepSystem.Reachable.of_init h).trans hreach
    obtain ⟨buf, J, hbuf, hJ, hstage, hphase, hfiles⟩ :=
      exists_responding_of_written hwindow ht hsome
    -- a shorter answer is no copy
    have hstored : storedBytes file = file := by
      have hcopy := hall t files hreach hsome
      rw [hfiles, if_pos ⟨rfl, hwritable⟩, Option.some.injEq] at hcopy
      have hlength := (message_of_exited hbuf hJ hphase).1
      rw [hcopy, hanswer hbuf] at hlength
      exact (List.takeWhile_prefix _).eq_of_length hlength.symm
    have hno := storedBytes_eq_self_iff.1 hstored
    refine ⟨hno, ?_⟩
    by_contra htransparent
    obtain rfl : buf = file := (hanswer hbuf).trans hstored
    have hlen := countable_of_le (Setup.answer_eq_some hbuf).2.1
    have hne := garbled_ne_of_exited (n := 4) (by norm_num) (by norm_num) (by norm_num) hlen
      htransparent hJ hphase
    obtain ⟨r, hr⟩ := exists_writeFile setup.clientFiles setup.rcvFilename
      J.receiver.garble.message.msgBody J.receiver.garble.message.msgLen
    have hgarbled : (t.garble setup).written = some r.1 := by
      have hclient : t.client = .readTCP J.receiver := hstage.transferring.far_of_exited hphase
      rw [Session.garble, hsome, hclient]
      simp only [Call.garbledFiles, hr, Option.bind_some, Option.map_some]
    have hcopy := hall _ r.1 (garble_reaches hwindow h hreach) hgarbled
    rw [writeFile_message hr, if_pos ⟨rfl, hwritable⟩, Option.some.injEq] at hcopy
    exact hne hcopy
  · rintro ⟨hno, htransparent⟩ t files hreach hsome
    have ht := (StepSystem.Reachable.of_init h).trans hreach
    obtain ⟨buf, J, hbuf, hJ, hstage, hphase, hfiles⟩ :=
      exists_responding_of_written hwindow ht hsome
    obtain rfl : buf = file := (hanswer hbuf).trans (storedBytes_eq_self_iff.2 hno)
    rw [hfiles, if_pos ⟨rfl, hwritable⟩, (message_of_exited hbuf hJ hphase).2 htransparent]

/-- The session of the two letters. -/
theorem session_copies_letter :
    (∀ t files, (sessionSystem letterSetup).Reaches startOfSession t →
      t.written = some files → files.contents letterSetup.rcvFilename = some [72, 105]) ↔
        0xFF ∉ [(72 : UInt8), 105] ∧ Transparent [72, 105] :=
  session_copies_iff rfl startOfSession_initial startOfSession_canFinish rfl rfl

end Copies

end Tcp118
