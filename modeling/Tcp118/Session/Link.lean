import Tcp118.Session.Basic

/-!
# Two calls and what is in flight between them

A session as seen from one of its transfers: one program sends data, the other receives it.

* `Link`, `Link.Step`: two calls, two channels, and what the events of a session that are steps of
  the calls or faults of the network do to them; `Link.Step.swap`: both ways round;
* `Session.link`, `Session.withLink`: the calls and channels of a session, with the client first;
* `Session.Moves`: what all events of a session can do; `moves_of_step`, `Moves.reaches`.
-/

namespace Tcp118

/-- Two calls; the datagrams of `near` are in `out`, those of `far` in `back`. -/
structure Link where
  near : Call
  far : Call
  out : List Packet
  back : List Packet

/-- The same from the other side. -/
def Link.swap (L : Link) : Link := ⟨L.far, L.near, L.back, L.out⟩

/-- What happens to two calls. -/
inductive Link.Step (L : Link) : Link → Prop
  | near {lost corr : Bool} {behind heap : List UInt8} {c : Call} {sent : Option Packet} :
      L.near.step lost corr behind heap = some (c, sent) →
      Step L { L with near := c, out := L.out ++ sent.toList }
  | nearRecv {stack pkt : Packet} {rest : List Packet} {c : Call} : L.back = pkt :: rest →
      L.near.recv stack (some (datagram pkt)) = some c →
      Step L { L with near := c, back := rest }
  | nearTimeout {stack : Packet} {c : Call} : L.near.recv stack none = some c →
      Step L { L with near := c }
  | far {lost corr : Bool} {behind heap : List UInt8} {c : Call} {sent : Option Packet} :
      L.far.step lost corr behind heap = some (c, sent) →
      Step L { L with far := c, back := L.back ++ sent.toList }
  | farRecv {stack pkt : Packet} {rest : List Packet} {c : Call} : L.out = pkt :: rest →
      L.far.recv stack (some (datagram pkt)) = some c → Step L { L with far := c, out := rest }
  | farTimeout {stack : Packet} {c : Call} : L.far.recv stack none = some c →
      Step L { L with far := c }
  | faultOut {fault : Fault} {channel : List Packet} : fault.apply L.out = some channel →
      Step L { L with out := channel }
  | faultBack {fault : Fault} {channel : List Packet} : fault.apply L.back = some channel →
      Step L { L with back := channel }

theorem Link.Step.swap {L L' : Link} (h : L.Step L') : L.swap.Step L'.swap := by
  cases h with
  | near hs => exact .far (L := L.swap) hs
  | nearRecv hchannel hs => exact .farRecv (L := L.swap) hchannel hs
  | nearTimeout hs => exact .farTimeout (L := L.swap) hs
  | far hs => exact .near (L := L.swap) hs
  | farRecv hchannel hs => exact .nearRecv (L := L.swap) hchannel hs
  | farTimeout hs => exact .nearTimeout (L := L.swap) hs
  | faultOut hs => exact .faultBack (L := L.swap) hs
  | faultBack hs => exact .faultOut (L := L.swap) hs

/-- The steps of two calls, from anywhere. -/
def linkSystem : StepSystem Link := ⟨fun _ => True, Link.Step⟩

theorem reaches_linkStep {L L' : Link} (h : L.Step L') : linkSystem.Reaches L L' := .single h

theorem reaches_swap {L L' : Link} (h : linkSystem.Reaches L L') :
    linkSystem.Reaches L.swap L'.swap := by
  obtain ⟨M, hM, rfl⟩ := h.carry (N := linkSystem) (R := fun L M => M = L.swap) rfl <| by
    rintro L₁ L₂ _ rfl hstep
    exact ⟨L₂.swap, reaches_linkStep (Link.Step.swap hstep), rfl⟩
  exact hM

/-! ### Sessions -/

/-- The calls and channels of a session. -/
def Session.link (s : Session) : Link := ⟨s.client, s.server, s.toServer, s.toClient⟩

/-- The session with other calls and channels. -/
def Session.withLink (s : Session) (L : Link) : Session :=
  { s with client := L.near, server := L.far, toServer := L.out, toClient := L.back }

/-- What the events of a session can do to it. -/
inductive Session.Moves (setup : Setup) (s : Session) : Session → Prop
  | link {L : Link} : s.link.Step L → Moves setup s (s.withLink L)
  | requested (heap : ℕ → Packet) {pkts : List Packet} {S : Sender} :
      s.client = .writeTCP pkts S → S.returned = true →
      Moves setup s { s with client := .readTCP (receiverInit clientWnd heap) }
  | wrote {R : Receiver} {r : Files × ℤ} : s.client = .readTCP R → R.phase = .exited →
      s.written = none → writeFile setup.clientFiles setup.rcvFilename (some R.message.msgBody)
        R.message.msgLen = some r → Moves setup s { s with written := some r.1 }
  | answered (rest fileBuf : List UInt8) (heap : ℕ → Packet) {R : Receiver} :
      s.server = .readTCP R → R.phase = .exited → s.aborted = false →
      Moves setup s (s.answered setup (stringAt (R.message.msgBody ++ rest)) fileBuf heap)
  | served (heap : ℕ → Packet) {pkts : List Packet} {S : Sender} :
      s.server = .writeTCP pkts S → S.returned = true →
      Moves setup s { s with server := .readTCP (receiverInit setup.cWnd heap) }

section Moves

variable {setup : Setup} {s t : Session}

theorem Session.moves_of_clientNext {heap : ℕ → Packet} (h : clientNext setup heap s = some t) :
    s.Moves setup t := by
  unfold clientNext at h
  cases hc : s.client with
  | writeTCP pkts S =>
    rw [hc] at h
    dsimp only at h
    split_ifs at h with hreturned
    cases h
    exact .requested heap hc hreturned
  | readTCP R =>
    rw [hc] at h
    dsimp only at h
    split_ifs at h with hcond
    obtain ⟨r, hr, rfl⟩ := Option.map_eq_some_iff.1 h
    rw [← hc]
    exact .wrote hc hcond.1 (Option.isNone_iff_eq_none.1 hcond.2) hr

theorem Session.moves_of_serverNext {rest fileBuf : List UInt8} {heap : ℕ → Packet}
    (h : serverNext setup rest fileBuf heap s = some t) : s.Moves setup t := by
  unfold serverNext at h
  cases hc : s.server with
  | writeTCP pkts S =>
    rw [hc] at h
    dsimp only at h
    split_ifs at h with hreturned
    cases h
    exact .served heap hc hreturned
  | readTCP R =>
    rw [hc] at h
    dsimp only at h
    split_ifs at h with hcond
    cases h
    exact .answered rest fileBuf heap hc hcond.1 hcond.2

/-- An event does one of these things. -/
theorem Session.moves_of_step {event : SessionEvent} (h : s.step setup event = some t) :
    s.Moves setup t := by
  cases event with
  | client lost corr behind heap =>
    obtain ⟨⟨c, sent⟩, hs, rfl⟩ := Option.map_eq_some_iff.1 h
    exact .link (.near (L := s.link) hs)
  | clientRecv stack =>
    rw [Session.step] at h
    cases hchannel : s.toClient with
    | nil => rw [hchannel] at h; cases h
    | cons pkt rest =>
      rw [hchannel] at h
      obtain ⟨c, hs, rfl⟩ := Option.map_eq_some_iff.1 h
      exact .link (.nearRecv (L := s.link) hchannel hs)
  | clientTimeout stack =>
    obtain ⟨c, hs, rfl⟩ := Option.map_eq_some_iff.1 h
    exact .link (.nearTimeout (L := s.link) hs)
  | clientNext heap => exact Session.moves_of_clientNext h
  | server lost corr behind heap =>
    obtain ⟨⟨c, sent⟩, hs, rfl⟩ := Option.map_eq_some_iff.1 h
    exact .link (.far (L := s.link) hs)
  | serverRecv stack =>
    rw [Session.step] at h
    cases hchannel : s.toServer with
    | nil => rw [hchannel] at h; cases h
    | cons pkt rest =>
      rw [hchannel] at h
      obtain ⟨c, hs, rfl⟩ := Option.map_eq_some_iff.1 h
      exact .link (.farRecv (L := s.link) hchannel hs)
  | serverTimeout stack =>
    obtain ⟨c, hs, rfl⟩ := Option.map_eq_some_iff.1 h
    exact .link (.farTimeout (L := s.link) hs)
  | serverNext rest fileBuf heap => exact Session.moves_of_serverNext h
  | faultToServer fault =>
    obtain ⟨channel, hs, rfl⟩ := Option.map_eq_some_iff.1 h
    exact .link (.faultOut (L := s.link) hs)
  | faultToClient fault =>
    obtain ⟨channel, hs, rfl⟩ := Option.map_eq_some_iff.1 h
    exact .link (.faultBack (L := s.link) hs)

theorem reaches_event (event : SessionEvent) (h : s.step setup event = some t) :
    (sessionSystem setup).Reaches s t := .single ⟨event, trivial, h⟩

/-- What happens to the calls of a session happens in some run. -/
theorem reaches_of_link {L : Link} (h : s.link.Step L) :
    (sessionSystem setup).Reaches s (s.withLink L) := by
  cases h with
  | @near lost corr behind heap c sent hs =>
    have hs' : s.client.step lost corr behind heap = some (c, sent) := hs
    exact reaches_event (.client lost corr behind heap)
      (by simp only [Session.step, hs', Option.map_some]; rfl)
  | @nearRecv stack pkt rest c hchannel hs =>
    have hs' : s.client.recv stack (some (datagram pkt)) = some c := hs
    have hchannel' : s.toClient = pkt :: rest := hchannel
    exact reaches_event (.clientRecv stack)
      (by simp only [Session.step, hchannel', hs', Option.map_some]; rfl)
  | @nearTimeout stack c hs =>
    have hs' : s.client.recv stack none = some c := hs
    exact reaches_event (.clientTimeout stack)
      (by simp only [Session.step, hs', Option.map_some]; rfl)
  | @far lost corr behind heap c sent hs =>
    have hs' : s.server.step lost corr behind heap = some (c, sent) := hs
    exact reaches_event (.server lost corr behind heap)
      (by simp only [Session.step, hs', Option.map_some]; rfl)
  | @farRecv stack pkt rest c hchannel hs =>
    have hs' : s.server.recv stack (some (datagram pkt)) = some c := hs
    have hchannel' : s.toServer = pkt :: rest := hchannel
    exact reaches_event (.serverRecv stack)
      (by simp only [Session.step, hchannel', hs', Option.map_some]; rfl)
  | @farTimeout stack c hs =>
    have hs' : s.server.recv stack none = some c := hs
    exact reaches_event (.serverTimeout stack)
      (by simp only [Session.step, hs', Option.map_some]; rfl)
  | @faultOut fault channel hs =>
    have hs' : fault.apply s.toServer = some channel := hs
    exact reaches_event (.faultToServer fault)
      (by simp only [Session.step, hs', Option.map_some]; rfl)
  | @faultBack fault channel hs =>
    have hs' : fault.apply s.toClient = some channel := hs
    exact reaches_event (.faultToClient fault)
      (by simp only [Session.step, hs', Option.map_some]; rfl)

/-- What the events of a session can do, it does in some run. -/
theorem Session.Moves.reaches (h : s.Moves setup t) : (sessionSystem setup).Reaches s t := by
  cases h with
  | link hstep => exact reaches_of_link hstep
  | @requested heap pkts S hc hreturned =>
    refine reaches_event (.clientNext heap) ?_
    rw [Session.step, clientNext, hc]
    exact if_pos hreturned
  | @wrote R r hc hphase hwritten hr =>
    refine reaches_event (.clientNext fun _ => zeroPacket) ?_
    rw [Session.step, clientNext, hc]
    dsimp only
    rw [if_pos ⟨hphase, Option.isNone_iff_eq_none.2 hwritten⟩, hr, Option.map_some]
  | @answered rest fileBuf heap R hc hphase haborted =>
    refine reaches_event (.serverNext rest fileBuf heap) ?_
    rw [Session.step, serverNext, hc]
    exact if_pos ⟨hphase, haborted⟩
  | @served heap pkts S hc hreturned =>
    refine reaches_event (.serverNext [] [] heap) ?_
    rw [Session.step, serverNext, hc]
    exact if_pos hreturned

/-- Runs of the calls are runs of the session, from the client's side … -/
theorem reaches_of_links {L : Link} (h : linkSystem.Reaches s.link L) :
    (sessionSystem setup).Reaches s (s.withLink L) := by
  obtain ⟨t, hst, rfl⟩ := h.carry (N := sessionSystem setup)
    (R := fun L t => t = s.withLink L) rfl <| by
      rintro L L' _ rfl hstep
      exact ⟨s.withLink L', reaches_of_link (s := s.withLink L) hstep, rfl⟩
  exact hst

/-- … and from the server's. -/
theorem reaches_of_swap {L : Link} (h : linkSystem.Reaches s.link.swap L) :
    (sessionSystem setup).Reaches s (s.withLink L.swap) := reaches_of_links (reaches_swap h)

end Moves

end Tcp118
