import Tcp118.Packet.LongerBuffer
import Tcp118.Session.Link
import Tcp118.Session.Sides
import Tcp118.Transport.Message

/-!
# What the server answers

* `Setup.answer`: what the server sends for the name the client is given, if anything;
* `Setup.Fits`, `Session.Initial.fits`: what a session needs of its windows and of the name;
* `Session.answered_of_some`, `Session.answered_of_none`: the server behind `readFile`;
* `Unanswered`, `Unanswered.step`: a session whose server has nothing to send.
-/

namespace Tcp118

open Protocol

/-- The bytes the server sends for the name: those `readFile` stores, if the file can be read into
the buffer and there are any. -/
def Setup.answer (setup : Setup) : Option (List UInt8) :=
  match setup.serverFiles.contents setup.filename.chars with
  | none => none
  | some file =>
    if 0 < (storedBytes file).length ∧ (storedBytes file).length ≤ maxFileSize then
      some (storedBytes file)
    else none

/-- The server has the client's window, and the client's buffer has room for the name. -/
structure Setup.Fits (setup : Setup) : Prop where
  window : setup.cWnd = clientWnd
  name : setup.filename.chars.length ≤ bufLen

section Fits

variable {setup : Setup} {s : Session} {heap : ℕ → Packet} {c : Call}

theorem Setup.copyName_isSome_iff :
    setup.copyName.isSome = true ↔ setup.filename.chars.length ≤ bufLen := by
  rw [Setup.copyName]
  split_ifs with h <;> simp [h]

/-- A client that comes to its `writeTCP` has had room for the name. -/
theorem clientStart_eq_some (h : clientStart setup heap = some c) :
    setup.filename.chars.length ≤ bufLen ∧
      c = .writeTCP setup.requestPackets (senderInit clientWnd heap) := by
  obtain ⟨copied, hcopied, rfl⟩ := Option.map_eq_some_iff.1 h
  exact ⟨Setup.copyName_isSome_iff.1 (by rw [hcopied]; rfl), rfl⟩

theorem clientStart_of_le (h : setup.filename.chars.length ≤ bufLen) (heap : ℕ → Packet) :
    clientStart setup heap =
      some (.writeTCP setup.requestPackets (senderInit clientWnd heap)) := by
  rw [clientStart, Setup.copyName, if_pos h, Option.map_some]

theorem Session.Initial.fits (hwindow : setup.cWnd = clientWnd) (h : Session.Initial setup s) :
    setup.Fits := by
  obtain ⟨heap, hclient⟩ := h.client
  exact ⟨hwindow, (clientStart_eq_some hclient).1⟩

theorem fits_of_reachable (hwindow : setup.cWnd = clientWnd)
    (h : (sessionSystem setup).Reachable s) : setup.Fits := by
  obtain ⟨s₀, hinit, -⟩ := h
  exact hinit.fits hwindow

/-- The packets of the name are counted in an `int`. -/
theorem Setup.Fits.countable (h : setup.Fits) :
    (setup.filename.bytes.length + (maxBodySize - 1)) / maxBodySize * packetSize < 2 ^ 31 := by
  have hname := h.name
  rw [CString.bytes, List.length_append, List.length_singleton]
  simp only [bufLen, maxBodySize, packetSize] at *
  omega

end Fits

/-! ### The answer -/

section Answer

variable {setup : Setup} {s : Session} {buf fileBuf : List UInt8} {heap : ℕ → Packet}

theorem Setup.answer_eq_some (h : setup.answer = some buf) :
    0 < buf.length ∧ buf.length ≤ maxFileSize ∧
      ∃ file, setup.serverFiles.contents setup.filename.chars = some file ∧
        buf = storedBytes file := by
  unfold Setup.answer at h
  cases hfile : setup.serverFiles.contents setup.filename.chars with
  | none => rw [hfile] at h; cases h
  | some file =>
    rw [hfile] at h
    dsimp only at h
    split_ifs at h with hlen
    cases h
    exact ⟨hlen.1, hlen.2, file, rfl, rfl⟩

theorem countable_of_le {length : ℕ} (h : length ≤ maxFileSize) :
    (length + (maxBodySize - 1)) / maxBodySize * packetSize < 2 ^ 31 := by
  simp only [maxFileSize, maxBodySize, packetSize] at *
  omega

/-- The server sends its answer. -/
theorem Session.answered_of_some (h : setup.answer = some buf) (s : Session) :
    s.answered setup setup.filename fileBuf heap =
      { s with
        server := .writeTCP (sentPackets buf setup.cWnd) (senderInit setup.cWnd heap)
        served := s.served ++ [setup.filename] } := by
  obtain ⟨hpos, hle, file, hopen, rfl⟩ := Setup.answer_eq_some h
  have hread := readFile_eq hopen fileBuf maxFileSize
  rw [if_pos hle] at hread
  have hlen : u32 (storedBytes file).length ≤ (storedBytes file).length := Nat.mod_le _ _
  unfold Session.answered
  rw [hread]
  dsimp only
  rw [if_pos (by exact_mod_cast hpos), Int.toNat_natCast, List.append_assoc,
    packetsOf_append _ _ _ hlen, sentPackets]

/-- The server stops, or waits for the next request. -/
theorem Session.answered_of_none (fileBuf : List UInt8) (heap : ℕ → Packet)
    (h : setup.answer = none) (s : Session) :
    s.answered setup setup.filename fileBuf heap =
        { s with aborted := true, served := s.served ++ [setup.filename] } ∨
      s.answered setup setup.filename fileBuf heap =
        { s with
          server := .readTCP (receiverInit setup.cWnd heap)
          served := s.served ++ [setup.filename] } := by
  unfold Setup.answer at h
  unfold Session.answered
  cases hopen : setup.serverFiles.contents setup.filename.chars with
  | none =>
    right
    unfold readFile
    simp only [hopen, Option.bind_eq_bind, Option.bind_some, Option.pure_def]
    rfl
  | some file =>
    rw [hopen] at h
    dsimp only at h
    rw [readFile_eq hopen]
    by_cases hle : (storedBytes file).length ≤ maxFileSize
    · have hzero : (storedBytes file).length = 0 := by
        by_contra hne
        rw [if_pos ⟨Nat.pos_of_ne_zero hne, hle⟩] at h
        cases h
      right
      rw [if_pos hle]
      dsimp only
      rw [hzero]
      rfl
    · left
      rw [if_neg hle]

end Answer

/-! ### Without an answer -/

/-- A session whose server has nothing to send: it waits for another request, or has stopped. -/
structure Unanswered (setup : Setup) (s : Session) : Prop where
  served : s.served = [setup.filename]
  written : s.written = none
  client : s.client.Between clientWnd
  server : ∃ R, s.server = .readTCP R ∧
    (R.Idle clientWnd ∧ s.aborted = false ∨ R.phase = .exited ∧ s.aborted = true)
  toServer : ∀ pkt ∈ s.toServer, Ignorable pkt
  toClient : ∀ pkt ∈ s.toClient, Ignorable pkt

section Unanswered

variable {setup : Setup} {s t : Session}

theorem Unanswered.link_step {L : Link} (h : Unanswered setup s) (hstep : s.link.Step L) :
    Unanswered setup (s.withLink L) := by
  obtain ⟨R, hserver, hR⟩ := h.server
  cases hstep with
  | near hs =>
    obtain ⟨hclient, hsent⟩ := h.client.step hs
    exact ⟨h.served, h.written, hclient, h.server, List.forall_mem_append.2 ⟨h.toServer, hsent⟩,
      h.toClient⟩
  | nearRecv hchannel hs =>
    have hall := h.toClient
    rw [show s.toClient = _ from hchannel, List.forall_mem_cons] at hall
    exact ⟨h.served, h.written, h.client.recv hall.1 hs, h.server, h.toServer, hall.2⟩
  | nearTimeout hs =>
    exact ⟨h.served, h.written, h.client.timeout hs, h.server, h.toServer, h.toClient⟩
  | far hs =>
    rw [show s.link.far = _ from hserver] at hs
    obtain ⟨⟨R', sent⟩, hs', heq⟩ := Option.map_eq_some_iff.1 hs
    cases heq
    rcases hR with ⟨hidle, haborted⟩ | ⟨hphase, -⟩
    · exact ⟨h.served, h.written, h.client, ⟨R', rfl, .inl ⟨(hidle.client_step hs').1, haborted⟩⟩,
        h.toServer, List.forall_mem_append.2 ⟨h.toClient, receiverStep_ignorable hs'⟩⟩
    · rw [receiverStep_of_exited hphase] at hs'
      cases hs'
  | farRecv hchannel hs =>
    have hall := h.toServer
    rw [show s.toServer = _ from hchannel, List.forall_mem_cons] at hall
    rw [show s.link.far = _ from hserver] at hs
    obtain ⟨R', hs', rfl⟩ := Option.map_eq_some_iff.1 hs
    rcases hR with ⟨hidle, haborted⟩ | ⟨hphase, -⟩
    · exact ⟨h.served, h.written, h.client,
        ⟨R', rfl, .inl ⟨hidle.recv_timeout (hidle.recv_ignorable hall.1 hs'), haborted⟩⟩, hall.2,
        h.toClient⟩
    · rw [receiverRecv_of_exited hphase] at hs'
      cases hs'
  | farTimeout hs =>
    rw [show s.link.far = _ from hserver] at hs
    obtain ⟨R', hs', rfl⟩ := Option.map_eq_some_iff.1 hs
    rcases hR with ⟨hidle, haborted⟩ | ⟨hphase, -⟩
    · exact ⟨h.served, h.written, h.client, ⟨R', rfl, .inl ⟨hidle.recv_timeout hs', haborted⟩⟩,
        h.toServer, h.toClient⟩
    · rw [receiverRecv_of_exited hphase] at hs'
      cases hs'
  | faultOut hs =>
    exact ⟨h.served, h.written, h.client, h.server,
      Fault.forall_mem hs ignorable_zeroPacket h.toServer, h.toClient⟩
  | faultBack hs =>
    exact ⟨h.served, h.written, h.client, h.server, h.toServer,
      Fault.forall_mem hs ignorable_zeroPacket h.toClient⟩

/-- Nothing comes of it any more. -/
theorem Unanswered.step (h : Unanswered setup s) (hmove : s.Moves setup t) :
    Unanswered setup t := by
  cases hmove with
  | link hstep => exact h.link_step hstep
  | requested heap hclient hreturned =>
    exact ⟨h.served, h.written, .idle (Receiver.idle_init _ _), h.server, h.toServer, h.toClient⟩
  | wrote hclient hphase =>
    have hbetween := h.client
    rw [hclient] at hbetween
    cases hbetween with
    | idle hidle => exact absurd hphase hidle.not_exited
  | answered rest fileBuf heap hserver hphase haborted =>
    obtain ⟨R, hR, ⟨hidle, -⟩ | ⟨-, htrue⟩⟩ := h.server
    · rw [hR] at hserver
      cases hserver
      exact absurd hphase hidle.not_exited
    · rw [htrue] at haborted
      cases haborted
  | served heap hserver hreturned =>
    obtain ⟨R, hR, -⟩ := h.server
    rw [hR] at hserver
    cases hserver

theorem Unanswered.run (h : Unanswered setup s) (hreach : (sessionSystem setup).Reaches s t) :
    Unanswered setup t :=
  hreach.keeps h fun _ _ ha hstep => by
    obtain ⟨event, -, hstep⟩ := hstep
    exact ha.step (Session.moves_of_step hstep)

end Unanswered

end Tcp118
