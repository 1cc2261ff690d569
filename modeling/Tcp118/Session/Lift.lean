import Tcp118.Session.Stages

/-!
# Runs of a transfer as runs of two calls

Where both programs are in their calls of one transfer, and nothing else is in flight, what the
transfer can do the calls can do, up to the return of `readTCP`.

* `Joined`, `Joined.lift_step`: each event of the transfer is a step of the calls;
* `Transferring.leave`: a program that is leaving `writeTCP` may come to its end;
* `Transferring.reaches_joined`: what is left in flight of the transfer before may be lost;
* `Transferring.lift_return`, `Transferring.strand`: the calls may come to the return of `readTCP`,
  if the transfer can, and they may come to where it cannot.
-/

namespace Tcp118

open Protocol

/-- `readTCP` has not returned. -/
def Joint.Reading (J : Joint) : Prop := J.receiver.phase ≠ .exited

/-- Two calls that are in one transfer, with nothing else in flight. -/
structure Joined (buf : List UInt8) (L : Link) (J : Joint) : Prop where
  near : L.near = .writeTCP (sentPackets buf clientWnd) J.sender ∨
    J.sender.returned = true ∧ ∃ R, L.near = .readTCP R ∧ R.Idle clientWnd
  far : L.far = .readTCP J.receiver
  out : L.out = J.fwd
  back : L.back = J.rev
  ignorable : ∀ pkt ∈ L.back, Ignorable pkt

section Returned

variable {pkts : List Packet} {S : Sender}

/-- A `writeTCP` that has returned does nothing more. -/
theorem senderStep_of_returned (h : S.returned = true) (pkts : List Packet) (lost corr : Bool) :
    senderStep pkts lost corr S = none := by
  obtain ⟨b, hphase⟩ := Sender.returned_iff.1 h
  unfold senderStep
  rw [hphase]

theorem senderRecv_of_returned (h : S.returned = true) (stack : Packet) (recv : Option Datagram) :
    senderRecv stack recv S = none := by
  obtain ⟨b, hphase⟩ := Sender.returned_iff.1 h
  unfold senderRecv
  rw [hphase]

theorem Sender.leaving_of_exited {b : Bool} (h : S.phase = .exited b) : S.Leaving := by
  refine ⟨?_, fun k hk => ?_⟩
  · rw [Sender.side, h]
    exact fun e => by cases e
  · rw [h] at hk
    cases hk

end Returned

/-! ### Events of the transfer -/

section Lift

variable {buf : List UInt8} {L : Link} {J J' : Joint} {event : Event}

theorem Joined.transferring (h : Joined buf L J) : Transferring buf L J := by
  refine ⟨h.near, .inl h.far, ?_, ?_, h.ignorable⟩
  · rw [h.out]
    exact .refl _ _ _
  · rw [h.back]
    exact .refl _ _ _

/-- Every event of the transfer is a step of the calls. -/
theorem Joined.lift_step (h : Joined buf L J) (hreading : J.Reading)
    (hstep : J.step (sentPackets buf clientWnd) event = some J') :
    ∃ L', L.Step L' ∧ Joined buf L' J' := by
  have hnear := h.near
  cases event with
  | sender lost corr =>
    obtain ⟨⟨S, sent⟩, hs, rfl⟩ := Option.map_eq_some_iff.1 hstep
    rcases hnear with hnear | ⟨hreturned, -⟩
    · have hc : L.near.step lost corr [] [] =
          some (.writeTCP (sentPackets buf clientWnd) S, sent) := by
        rw [hnear, Call.step, hs, Option.map_some]
      exact ⟨_, .near hc, .inl rfl, h.far, by rw [h.out], h.back, h.ignorable⟩
    · rw [senderStep_of_returned hreturned] at hs
      cases hs
  | senderRecv stack =>
    rw [Joint.step] at hstep
    cases hrev : J.rev with
    | nil => rw [hrev] at hstep; cases hstep
    | cons pkt rest =>
      rw [hrev] at hstep
      obtain ⟨S, hs, rfl⟩ := Option.map_eq_some_iff.1 hstep
      rcases hnear with hnear | ⟨hreturned, -⟩
      · have hc : L.near.recv stack (some (datagram pkt)) =
            some (.writeTCP (sentPackets buf clientWnd) S) := by
          rw [hnear, Call.recv, hs, Option.map_some]
        have hchannel := h.back.trans hrev
        have hign := h.ignorable
        rw [hchannel, List.forall_mem_cons] at hign
        exact ⟨_, .nearRecv hchannel hc, .inl rfl, h.far, h.out, rfl, hign.2⟩
      · rw [senderRecv_of_returned hreturned] at hs
        cases hs
  | senderTimeout stack =>
    obtain ⟨S, hs, rfl⟩ := Option.map_eq_some_iff.1 hstep
    rcases hnear with hnear | ⟨hreturned, -⟩
    · have hc : L.near.recv stack none = some (.writeTCP (sentPackets buf clientWnd) S) := by
        rw [hnear, Call.recv, hs, Option.map_some]
      exact ⟨_, .nearTimeout hc, .inl rfl, h.far, h.out, h.back, h.ignorable⟩
    · rw [senderRecv_of_returned hreturned] at hs
      cases hs
  | receiver lost corr behind heap =>
    obtain ⟨⟨R, sent⟩, hs, rfl⟩ := Option.map_eq_some_iff.1 hstep
    have hc : L.far.step lost corr behind heap = some (.readTCP R, sent) := by
      rw [h.far, Call.step, hs, Option.map_some]
    exact ⟨_, .far hc, hnear, rfl, h.out, by rw [h.back],
      List.forall_mem_append.2 ⟨h.ignorable, receiverStep_ignorable hs⟩⟩
  | receiverRecv stack =>
    rw [Joint.step] at hstep
    cases hfwd : J.fwd with
    | nil => rw [hfwd] at hstep; cases hstep
    | cons pkt rest =>
      rw [hfwd] at hstep
      obtain ⟨R, hs, rfl⟩ := Option.map_eq_some_iff.1 hstep
      have hc : L.far.recv stack (some (datagram pkt)) = some (.readTCP R) := by
        rw [h.far, Call.recv, hs, Option.map_some]
      exact ⟨_, .farRecv (h.out.trans hfwd) hc, hnear, rfl, rfl, h.back, h.ignorable⟩
  | receiverTimeout stack =>
    obtain ⟨R, hs, rfl⟩ := Option.map_eq_some_iff.1 hstep
    have hc : L.far.recv stack none = some (.readTCP R) := by
      rw [h.far, Call.recv, hs, Option.map_some]
    exact ⟨_, .farTimeout hc, hnear, rfl, h.out, h.back, h.ignorable⟩
  | dropFwd i =>
    rw [Joint.step] at hstep
    split_ifs at hstep with hi
    cases hstep
    have hf : (Fault.drop i).apply L.out = some (J.fwd.eraseIdx i) := by
      rw [h.out, Fault.apply_drop, if_pos hi]
    exact ⟨_, .faultOut hf, hnear, h.far, rfl, h.back, h.ignorable⟩
  | dropRev i =>
    rw [Joint.step] at hstep
    split_ifs at hstep with hi
    cases hstep
    have hf : (Fault.drop i).apply L.back = some (J.rev.eraseIdx i) := by
      rw [h.back, Fault.apply_drop, if_pos hi]
    exact ⟨_, .faultBack hf, hnear, h.far, h.out, rfl,
      Fault.forall_mem hf ignorable_zeroPacket h.ignorable⟩
  | zeroFwd i =>
    obtain ⟨channel, hz, rfl⟩ := Option.map_eq_some_iff.1 hstep
    have hf : (Fault.zero i).apply L.out = some channel := by
      rw [h.out, Fault.apply_zero, hz]
    exact ⟨_, .faultOut hf, hnear, h.far, rfl, h.back, h.ignorable⟩
  | zeroRev i =>
    obtain ⟨channel, hz, rfl⟩ := Option.map_eq_some_iff.1 hstep
    have hf : (Fault.zero i).apply L.back = some channel := by
      rw [h.back, Fault.apply_zero, hz]
    exact ⟨_, .faultBack hf, hnear, h.far, h.out, rfl,
      Fault.forall_mem hf ignorable_zeroPacket h.ignorable⟩
  | follow pkt =>
    rw [Joint.step, if_neg hreading] at hstep
    cases hstep

/-- A receiver that has returned does not go back to reading. -/
theorem reading_of_step {pkts : List Packet} (hstep : J.step pkts event = some J')
    (hreading : J'.Reading) : J.Reading := by
  intro hphase
  rcases J.step_receiver hstep with he | ⟨_, _, _, _, _, hs⟩ | ⟨_, _, hs⟩
  · rw [Joint.Reading, he] at hreading
    exact hreading hphase
  · rw [receiverStep_of_exited hphase] at hs
    cases hs
  · rw [receiverRecv_of_exited hphase] at hs
    cases hs

/-- Runs of the transfer before `readTCP` returns are runs of the calls … -/
theorem Joined.lift (h : Joined buf L J)
    (hreach : ((transferSystem buf clientWnd).within Joint.Reading).Reaches J J') :
    ∃ L', linkSystem.Reaches L L' ∧ Joined buf L' J' := by
  refine hreach.carry (R := fun J L => Joined buf L J) h ?_
  rintro J₁ J₂ L₁ hL₁ ⟨hreading, ⟨event, -, hstep⟩, -⟩
  obtain ⟨L₂, hL, hL₂⟩ := hL₁.lift_step hreading hstep
  exact ⟨L₂, reaches_linkStep hL, hL₂⟩

/-- … and so are those to its return. -/
theorem Joined.lift_return (h : Joined buf L J) (hreturn : CanReturn buf clientWnd J) :
    ∃ L' J', linkSystem.Reaches L L' ∧ (transferSystem buf clientWnd).Reaches J J' ∧
      Joined buf L' J' ∧ J'.receiver.phase = .exited := by
  obtain ⟨J', hreach, hret⟩ := hreturn
  obtain ⟨J', L', hL, ⟨hJ', hL'⟩, hret'⟩ := hreach.carry_until
    (P := fun J => J.receiver.phase = .exited) (N := linkSystem)
    (R := fun J' L' => (transferSystem buf clientWnd).Reaches J J' ∧ Joined buf L' J') hret
    ⟨.refl J, h⟩ <| by
      rintro J₁ J₂ L₁ hreading ⟨hJ₁, hL₁⟩ ⟨event, hallowed, hstep⟩
      obtain ⟨L₂, hL, hL₂⟩ := hL₁.lift_step hreading hstep
      exact ⟨L₂, reaches_linkStep hL, hJ₁.trans (.single ⟨event, hallowed, hstep⟩), hL₂⟩
  exact ⟨L', J', hL, hJ', hL', hret'⟩

/-- A transfer may come to a state from which `readTCP` cannot return, without returning on the
way. -/
theorem exists_within_not_canReturn (hJ : (transferSystem buf clientWnd).Reachable J)
    (hreading : J.Reading) :
    ∃ J', ((transferSystem buf clientWnd).within Joint.Reading).Reaches J J' ∧
      (transferSystem buf clientWnd).Reaches J J' ∧ ¬ CanReturn buf clientWnd J' := by
  obtain ⟨J', hreach, hno⟩ :=
    reaches_not_canReturn (n := 4) (by norm_num) (by norm_num) (by norm_num) hJ hreading
  refine ⟨J', hreach.within_of_final (fun hphase => hno ⟨J', .refl J', hphase⟩) ?_, hreach, hno⟩
  rintro a b ⟨event, -, hstep⟩ hb
  exact reading_of_step hstep hb

/-! ### The end of the transfer before -/

/-- A call of `writeTCP` does what its sender does without sending anything. -/
theorem reaches_of_quiet {pkts : List Packet} {S S' : Sender} (h : Quiet pkts S S')
    (hfar : L.far = .writeTCP pkts S) :
    linkSystem.Reaches L { L with far := .writeTCP pkts S' } := by
  induction h with
  | refl =>
    rw [← hfar]
    exact .refl L
  | @tail S₁ S₂ _ hstep ih =>
    refine ih.trans (reaches_linkStep ?_)
    rcases hstep with hstep | hrecv
    · have hc : (Call.writeTCP pkts S₁).step true false [] [] =
          some (.writeTCP pkts S₂, none) := by
        rw [Call.step, hstep, Option.map_some]
      have hmove := Link.Step.far (L := { L with far := .writeTCP pkts S₁ }) hc
      rw [Option.toList_none, List.append_nil] at hmove
      exact hmove
    · have hc : (Call.writeTCP pkts S₁).recv zeroPacket none = some (.writeTCP pkts S₂) := by
        rw [Call.recv, hrecv, Option.map_some]
      exact Link.Step.farTimeout (L := { L with far := .writeTCP pkts S₁ }) hc

/-- The network may drop the front of a channel. -/
theorem reaches_drop (stale live : List Packet) (h : L.out = stale ++ live) :
    linkSystem.Reaches L { L with out := live } := by
  induction stale generalizing L with
  | nil =>
    rw [List.nil_append] at h
    rw [← h]
    exact .refl L
  | cons pkt stale ih =>
    have hf : (Fault.drop 0).apply L.out = some (stale ++ live) := by
      rw [h, List.cons_append, Fault.drop_first]
    exact (reaches_linkStep (.faultOut hf)).trans (ih rfl)

namespace Transferring

/-- A program that is leaving `writeTCP` may come to its end. -/
theorem leave {pkts : List Packet} {S : Sender} (h : Transferring buf L J)
    (hfar : L.far = .writeTCP pkts S) :
    ∃ S', S'.returned = true ∧ linkSystem.Reaches L { L with far := .writeTCP pkts S' } ∧
      Transferring buf { L with far := .writeTCP pkts S' } J := by
  rcases h.far with he | ⟨⟨pkts', S', he, hleaving⟩, hidle, hrev⟩
  · cases he.symm.trans hfar
  · cases he.symm.trans hfar
    obtain ⟨b, hquiet⟩ := quiet_leave pkts hleaving.side hleaving.counting
    exact ⟨_, Sender.returned_iff.2 ⟨b, rfl⟩, reaches_of_quiet hquiet hfar, h.near,
      .inr ⟨⟨pkts, _, rfl, Sender.leaving_of_exited rfl⟩, hidle, hrev⟩, h.out, h.back, h.ignorable⟩

/-- What is left in flight of the transfer before may be lost. -/
theorem reaches_joined (h : Transferring buf L J) (hfar : L.far = .readTCP J.receiver) :
    ∃ L', linkSystem.Reaches L L' ∧ Joined buf L' J := by
  obtain ⟨stale, hout, -, -⟩ := h.out
  obtain ⟨stale', hback, -, -⟩ := h.back
  have hign := h.ignorable
  rw [hback, List.forall_mem_append] at hign
  -- in the other direction it is the same with the two calls exchanged
  have hdrop := reaches_drop (L := Link.swap { L with out := J.fwd }) stale' J.rev hback
  exact ⟨_, (reaches_drop stale J.fwd hout).trans (reaches_swap hdrop), h.near, hfar, rfl, rfl,
    hign.2⟩

/-- The calls may come to the return of `readTCP`, if the transfer can … -/
theorem lift_return (h : Transferring buf L J) (hfar : L.far = .readTCP J.receiver)
    (hreturn : CanReturn buf clientWnd J) :
    ∃ L' J', linkSystem.Reaches L L' ∧ (transferSystem buf clientWnd).Reaches J J' ∧
      Transferring buf L' J' ∧ J'.receiver.phase = .exited := by
  obtain ⟨L₁, hL₁, h₁⟩ := h.reaches_joined hfar
  obtain ⟨L₂, J₂, hL₂, hJ₂, h₂, hphase⟩ := h₁.lift_return hreturn
  exact ⟨L₂, J₂, hL₁.trans hL₂, hJ₂, h₂.transferring, hphase⟩

/-- … and they may come to where it cannot. -/
theorem strand (hJ : (transferSystem buf clientWnd).Reachable J) (h : Transferring buf L J)
    (hfar : L.far = .readTCP J.receiver) (hreading : J.Reading) :
    ∃ L' J', linkSystem.Reaches L L' ∧ (transferSystem buf clientWnd).Reaches J J' ∧
      Transferring buf L' J' ∧ ¬ CanReturn buf clientWnd J' := by
  obtain ⟨L₁, hL₁, h₁⟩ := h.reaches_joined hfar
  obtain ⟨J₂, hwithin, hJ₂, hno⟩ := exists_within_not_canReturn hJ hreading
  obtain ⟨L₂, hL₂, h₂⟩ := h₁.lift hwithin
  exact ⟨L₂, J₂, hL₁.trans hL₂, hJ₂, h₂.transferring, hno⟩

end Transferring

end Lift

end Tcp118
