import Tcp118.Protocol.Invariant
import Tcp118.Transport.Joint

/-!
# The joint system refines the transfer with packet numbers

Each joint state is viewed as a configuration of `Protocol.transfer`: the datagrams in flight are
replaced by their packet numbers, and the windows by their counters.

* `Joint.view`, `Related`: the view and the invariants that come with it;
* `Related.step_sender`, `Related.recv_sender`, `Related.step_receiver`, …: each event is matched;
* `refinement`: the simulation;
* `Related.of_reachable`: every reachable joint state has a view that satisfies the invariant of
  the protocol;
* `Related.appended_prefix`, `Related.appended_eq`, `Related.acked_eq`: what the view says of the
  packets that have been appended.

The programs see packet numbers modulo the ring only.  That this makes no difference is where the
invariant of the protocol is used: what is in flight is near what its reader expects.
-/

namespace Tcp118

open Protocol

/-- A joint state as a configuration of the transfer with packet numbers. -/
def Joint.view (J : Joint) (acked : ℕ) (fwd rev : List (Option ℕ)) : Config where
  base := J.sender.shifted
  acked := acked
  added := J.sender.i
  sender := J.sender.side
  taken := J.receiver.appended.length
  receiver := J.receiver.side
  fwd := fwd
  rev := rev

/-- A joint state and its view. -/
structure Related (pkts : List Packet) (n : ℕ) (J : Joint) (acked : ℕ)
    (fwd rev : List (Option ℕ)) : Prop where
  sender : SenderInv pkts n acked J.sender
  receiver : ∃ base added, ReceiverInv pkts n base added J.receiver
  fwd : List.Forall₂ (Carries pkts) J.fwd fwd
  rev : List.Forall₂ (Acknowledges n (J.receiver.side = .left)) J.rev rev

/-- The states that steps of the protocol lead to from a view. -/
def Matched (pkts : List Packet) (n : ℕ) (a : Config) (J : Joint) : Prop :=
  ∃ acked fwd rev, (transfer n pkts.length (finalFlag pkts)).Reaches a (J.view acked fwd rev) ∧
    Related pkts n J acked fwd rev

section Events

variable {pkts : List Packet} {n acked : ℕ} {J : Joint} {fwd rev : List (Option ℕ)}

theorem Matched.refl {J' : Joint} (h : Related pkts n J' acked fwd rev)
    (he : J'.view acked fwd rev = J.view acked fwd rev) :
    Matched pkts n (J.view acked fwd rev) J' :=
  ⟨acked, fwd, rev, by rw [he]; exact StepSystem.Reaches.refl _, h⟩

theorem Matched.single {J' : Joint} {acked' : ℕ} {fwd' rev' : List (Option ℕ)} {b : Config}
    (h : Related pkts n J' acked' fwd' rev')
    (hstep : Step n pkts.length (finalFlag pkts) (J.view acked fwd rev) b)
    (he : J'.view acked' fwd' rev' = b) : Matched pkts n (J.view acked fwd rev) J' :=
  ⟨acked', fwd', rev', by rw [he]; exact StepSystem.Reaches.single hstep, h⟩

/-! ### The sender -/

theorem Related.step_sender {lost corr : Bool} {S' : Sender} {out : Option Packet}
    (h : Related pkts n J acked fwd rev)
    (hstep : senderStep pkts lost corr J.sender = some (S', out)) :
    Matched pkts n (J.view acked fwd rev) { J with sender := S', fwd := J.fwd ++ out.toList } := by
  obtain ⟨hinv, heffect⟩ := h.sender.step hstep
  cases heffect with
  | quiet hside hi hshift =>
    refine .refl ⟨hinv, h.receiver, forall₂_append_none h.fwd, h.rev⟩ ?_
    simp only [Joint.view, hside, hi, hshift]
  | add hs hs' hlt hroom hi hshift =>
    refine .single ⟨hinv, h.receiver, forall₂_append_none h.fwd, h.rev⟩ (.add hs hlt hroom) ?_
    simp only [Joint.view, hs, hs', hi, hshift]
  | shift hs hs' hfull hi hshift =>
    refine .single ⟨hinv, h.receiver, forall₂_append_none h.fwd, h.rev⟩ (.shift hs hfull) ?_
    simp only [Joint.view, hs, hs', hi, hshift]
  | send j out hs hs' hj hj' hi hshift hout =>
    rcases hout with rfl | rfl
    · refine .refl ⟨hinv, h.receiver, forall₂_append_none h.fwd, h.rev⟩ ?_
      simp only [Joint.view, hs, hs', hi, hshift]
    · have hlen : j < pkts.length := lt_of_lt_of_le hj' h.sender.i_le
      have hpkt : pkts[j]? = some pkts[j] := List.getElem?_eq_getElem hlen
      rw [hpkt, Option.toList_some]
      refine .single ⟨hinv, h.receiver, forall₂_append h.fwd (.data hpkt), h.rev⟩
        (.send j hs hj hj') ?_
      simp only [Joint.view, hs, hs', hi, hshift]
  | finish hs hs' hm hi hshift =>
    refine .single ⟨hinv, h.receiver, forall₂_append_none h.fwd, h.rev⟩ (.finish hs hm) ?_
    simp only [Joint.view, hs', hi, hshift]
  | sendClose out hs hs' hi hshift hout =>
    rcases hout with rfl | hout
    · refine .refl ⟨hinv, h.receiver, forall₂_append_none h.fwd, h.rev⟩ ?_
      simp only [Joint.view, hs, hs', hi, hshift]
    · have hfwd : List.Forall₂ (Carries pkts) (J.fwd ++ out.toList) (fwd ++ [none]) := by
        rcases hout with rfl | rfl
        · exact forall₂_append h.fwd .close
        · exact forall₂_append h.fwd .zero
      refine .single ⟨hinv, h.receiver, hfwd, h.rev⟩ (.sendClose hs) ?_
      simp only [Joint.view, hs, hs', hi, hshift]

/-- A datagram of the reverse channel without effect on the sender. -/
theorem Related.discardRev {pkt : Packet} {rest : List Packet} {t : Option ℕ}
    {trest : List (Option ℕ)} {S' : Sender} (h : Related pkts n J acked fwd (t :: trest))
    (hrev : J.rev = pkt :: rest) (hS : SenderInv pkts n acked S')
    (he : S'.side = J.sender.side) (hi : S'.i = J.sender.i)
    (hshift : S'.shifted = J.sender.shifted) :
    Matched pkts n (J.view acked fwd (t :: trest)) { J with sender := S', rev := rest } := by
  have htail := h.rev
  rw [hrev] at htail
  obtain ⟨-, htail⟩ := List.forall₂_cons.1 htail
  refine .single ⟨hS, h.receiver, h.fwd, htail⟩
    (.loseRev trest ((List.sublist_cons_self t trest).filterMap id)) ?_
  simp only [Joint.view, he, hi, hshift]

theorem Related.recv_sender {stack pkt : Packet} {rest : List Packet} {S' : Sender}
    (h : Related pkts n J acked fwd rev)
    (hinv : Inv n pkts.length (finalFlag pkts) (J.view acked fwd rev))
    (hrev : J.rev = pkt :: rest)
    (hrecv : senderRecv stack (some (datagram pkt)) J.sender = some S') :
    Matched pkts n (J.view acked fwd rev) { J with sender := S', rev := rest } := by
  have htags := h.rev
  rw [hrev] at htags
  obtain ⟨t, trest, hack, htail, rfl⟩ := List.forall₂_cons_left_iff.1 htags
  rcases senderRecv_phase hrecv with hphase | ⟨k, hphase⟩
  · have hside : J.sender.side = .transmitting := by rw [Sender.side, hphase]
    cases hack with
    | ack q =>
      obtain ⟨hq, hq'⟩ := hinv.rev_near (q := q) List.mem_cons_self
      by_cases hin : J.sender.shifted ≤ q ∧ q < J.sender.i
      · obtain ⟨w, hw, hS⟩ := h.sender.recv_ack hphase hin.1 hin.2 stack
        rw [hw] at hrecv
        cases hrecv
        refine .single ⟨hS, h.receiver, h.fwd, htail⟩ (.ack q trest hside rfl hin.1 hin.2) ?_
        simp only [Joint.view, hside]
        rfl
      · rw [h.sender.recv_ack_old hphase hq hq' hin stack] at hrecv
        cases hrecv
        exact h.discardRev hrev (h.sender.withPhase trivial) hside.symm rfl rfl
    | close =>
      rw [senderRecv_of_not_ack hphase (.inl getACK_closePacket)] at hrecv
      cases hrecv
      exact h.discardRev hrev (h.sender.withPhase trivial) hside.symm rfl rfl
    | zero =>
      rw [senderRecv_of_not_ack hphase (.inl getACK_zeroPacket)] at hrecv
      cases hrecv
      exact h.discardRev hrev (h.sender.withPhase trivial) hside.symm rfl rfl
    | follow hover => exact absurd hside (hinv.phases.left hover)
  · have hsound := h.sender.sound
    rw [hphase] at hsound
    have hside : J.sender.side = .closing := by rw [Sender.side, hphase]
    rw [senderRecv_readClose hphase] at hrecv
    cases hrecv
    by_cases hexit : getClose pkt = false ∧ verifies pkt = true
    · -- only an acknowledgement, or a datagram of the program that follows, can end the loop
      have hwhy : J.receiver.side = .left ∨ (t :: trest).reduceOption ≠ [] := by
        cases hack with
        | ack q => exact .inr (by rw [List.reduceOption_cons_of_some]; exact List.cons_ne_nil _ _)
        | close => rw [getClose_closePacket] at hexit; cases hexit.1
        | zero => rw [verifies_zeroPacket] at hexit; cases hexit.2
        | follow hover => exact .inl hover
      rw [if_pos hexit]
      refine ⟨acked, fwd, trest, ?_, h.sender.withPhase hsound, h.receiver, h.fwd, htail⟩
      have hleave : Step n pkts.length (finalFlag pkts) (J.view acked fwd (t :: trest)) _ :=
        .leave true hside fun _ => hwhy
      have hlose : Step n pkts.length (finalFlag pkts)
          { J.view acked fwd (t :: trest) with sender := .left true } _ :=
        .loseRev trest ((List.sublist_cons_self t trest).filterMap id)
      exact hleave.reaches.trans hlose.reaches
    · rw [if_neg hexit]
      exact h.discardRev hrev (h.sender.withPhase hsound) hside.symm rfl rfl

theorem Related.timeout_sender {stack : Packet} {S' : Sender}
    (h : Related pkts n J acked fwd rev) (hrecv : senderRecv stack none J.sender = some S') :
    Matched pkts n (J.view acked fwd rev) { J with sender := S' } := by
  rcases senderRecv_phase hrecv with hphase | ⟨k, hphase⟩
  · rw [senderRecv_timeout stack hphase] at hrecv
    cases hrecv
    refine .refl ⟨h.sender.withPhase trivial, h.receiver, h.fwd, h.rev⟩ ?_
    simp only [Joint.view, Sender.side, hphase]
  · have hsound := h.sender.sound
    rw [hphase] at hsound
    have hside : J.sender.side = .closing := by rw [Sender.side, hphase]
    rw [senderRecv_readClose_timeout hphase] at hrecv
    cases hrecv
    by_cases hten : k + 1 = 10
    · rw [if_pos hten]
      refine .single ⟨h.sender.withPhase hsound, h.receiver, h.fwd, h.rev⟩
        (.leave false hside fun e => by cases e) rfl
    · rw [if_neg hten]
      refine .refl ⟨h.sender.withPhase hsound, h.receiver, h.fwd, h.rev⟩ ?_
      simp only [Joint.view, Sender.side, hphase]

/-! ### The receiver -/

theorem Related.step_receiver {lost corr : Bool} {behind heap : List UInt8} {R' : Receiver}
    {out : Option Packet} (hnum : Numbered n pkts) (h : Related pkts n J acked fwd rev)
    (hstep : receiverStep lost corr behind heap J.receiver = some (R', out)) :
    Matched pkts n (J.view acked fwd rev)
      { J with receiver := R', rev := J.rev ++ out.toList } := by
  obtain ⟨base, added, hR⟩ := h.receiver
  obtain ⟨⟨base', hR'⟩, heffect⟩ := hR.step hstep
  cases heffect with
  | quiet hside happ =>
    have hrev := acknowledges_mono (fun e => hside.trans e) (forall₂_append_none h.rev)
    refine .refl ⟨h.sender, ⟨base', added, hR'⟩, h.fwd, hrev⟩ ?_
    simp only [Joint.view, hside, happ]
  | deliver pkt hside hpkt happ hside' =>
    have hold : List.Forall₂ (Acknowledges n (R'.side = .left)) J.rev rev :=
      acknowledges_mono (fun e => by rw [hside] at e; cases e) h.rev
    have hreceiver : R'.side = if finalFlag pkts = true ∧
        J.receiver.appended.length + 1 = pkts.length then .closing else .waiting := by
      rw [hside']
      simp only [hnum.last hpkt]
    have htake : R'.appended.length = J.receiver.appended.length + 1 := by
      rw [happ, List.length_append, List.length_singleton]
    -- the acknowledgement is lost, zeroed or in flight
    obtain ⟨rev', hrev', hsub⟩ : ∃ rev', List.Forall₂ (Acknowledges n (R'.side = .left))
        (J.rev ++ (if lost then none else some (if corr then zeroPacket
          else ackPacket (seqOf n J.receiver.appended.length))).toList) rev' ∧
        rev'.reduceOption.Sublist (rev ++ [some J.receiver.appended.length]).reduceOption := by
      cases lost
      · cases corr
        · exact ⟨_, forall₂_append hold (.ack _), List.Sublist.refl _⟩
        · refine ⟨rev ++ [none], forall₂_append hold .zero, ?_⟩
          rw [List.reduceOption_append, List.reduceOption_append]
          exact (List.Sublist.refl _).append (List.nil_sublist _)
      · exact ⟨rev, forall₂_append_none hold, (List.sublist_append_left rev _).filterMap id⟩
    have hdeliver : Step n pkts.length (finalFlag pkts) (J.view acked fwd rev) _ :=
      .deliver hside
    have hreach := hdeliver.reaches.trans (Step.loseRev rev' hsub).reaches
    refine ⟨acked, fwd, rev', ?_, h.sender, ⟨base', added, hR'⟩, h.fwd, hrev'⟩
    simp only [Joint.view, htake, hreceiver]
    exact hreach
  | ackAgain hside hside' hpos happ =>
    have hold : List.Forall₂ (Acknowledges n (R'.side = .left)) J.rev rev :=
      acknowledges_mono (fun e => by rw [hside] at e; cases e) h.rev
    refine .single ⟨h.sender, ⟨base', added, hR'⟩, h.fwd, forall₂_append hold (.ack _)⟩
      (.ackAgain hside hpos) ?_
    simp only [Joint.view, hside, hside', happ]
  | sendClose out hside hside' happ hout =>
    have hold : List.Forall₂ (Acknowledges n (R'.side = .left)) J.rev rev :=
      acknowledges_mono (fun e => by rw [hside] at e; cases e) h.rev
    rcases hout with rfl | hout
    · refine .refl ⟨h.sender, ⟨base', added, hR'⟩, h.fwd, forall₂_append_none hold⟩ ?_
      simp only [Joint.view, hside, hside', happ]
    · have hrev : List.Forall₂ (Acknowledges n (R'.side = .left)) (J.rev ++ out.toList)
          (rev ++ [none]) := by
        rcases hout with rfl | rfl
        · exact forall₂_append hold .close
        · exact forall₂_append hold .zero
      refine .single ⟨h.sender, ⟨base', added, hR'⟩, h.fwd, hrev⟩ (.loseRev (rev ++ [none]) ?_) ?_
      · rw [List.reduceOption_append]
        exact (List.append_nil rev.reduceOption).symm ▸ List.Sublist.refl _
      · simp only [Joint.view, hside, hside', happ]

/-- A datagram of the forward channel without effect on the receiver but for its phase. -/
theorem Related.discardFwd {pkt : Packet} {rest : List Packet} {t : Option ℕ}
    {trest : List (Option ℕ)} {R' : Receiver} (h : Related pkts n J acked (t :: trest) rev)
    (hfwd : J.fwd = pkt :: rest) (hR : ∃ base added, ReceiverInv pkts n base added R')
    (he : R'.side = J.receiver.side) (happ : R'.appended = J.receiver.appended) :
    Matched pkts n (J.view acked (t :: trest) rev) { J with receiver := R', fwd := rest } := by
  have htail := h.fwd
  rw [hfwd] at htail
  obtain ⟨-, htail⟩ := List.forall₂_cons.1 htail
  refine .single ⟨h.sender, hR, htail, acknowledges_mono (fun e => he.trans e) h.rev⟩
    (.loseFwd trest (List.sublist_cons_self t trest)) ?_
  simp only [Joint.view, he, happ]

theorem Related.recv_receiver {stack pkt : Packet} {rest : List Packet} {R' : Receiver}
    (hnum : Numbered n pkts) (h : Related pkts n J acked fwd rev)
    (hinv : Inv n pkts.length (finalFlag pkts) (J.view acked fwd rev))
    (hfwd : J.fwd = pkt :: rest)
    (hrecv : receiverRecv stack (some (datagram pkt)) J.receiver = some R') :
    Matched pkts n (J.view acked fwd rev) { J with receiver := R', fwd := rest } := by
  have htags := h.fwd
  rw [hfwd] at htags
  obtain ⟨t, trest, hcarries, htail, rfl⟩ := List.forall₂_cons_left_iff.1 htags
  obtain ⟨base, added, hR⟩ := h.receiver
  rcases receiverRecv_phase hrecv with hphase | hphase
  · have hside : J.receiver.side = .waiting := by rw [Receiver.side, hphase]
    obtain ⟨hignored, hignored'⟩ := hR.ignored hphase
    rw [hR.recv_read hphase stack pkt] at hrecv
    cases hrecv
    cases hcarries with
    | @data j _ hpkt =>
      obtain ⟨hj, hj'⟩ := hinv.fwd_near (j := j) List.mem_cons_self
      by_cases hnext : j = J.receiver.appended.length
      · subst hnext
        rw [if_pos ⟨hnum.close hpkt, hnum.verifies hpkt, hnum.seqNum hpkt, hnum.ack hpkt⟩]
        obtain ⟨haccepted, hside'⟩ := hR.accepted hphase hpkt
        refine .single ⟨h.sender, ⟨base, added + 1, haccepted⟩, htail,
          acknowledges_mono (fun e => by rw [hside] at e; cases e) h.rev⟩
          (.accept trest hside rfl) ?_
        simp only [Joint.view, hside']
      · rw [if_neg]
        · exact h.discardFwd hfwd ⟨base, added, hignored⟩ (hignored'.trans hside.symm) rfl
        · rw [hnum.seqNum hpkt]
          rintro ⟨-, -, hseq, -⟩
          exact hnext ((seqOf_inj hj hj').1 hseq)
    | close =>
      rw [if_neg (by rw [getClose_closePacket]; rintro ⟨e, -⟩; cases e)]
      exact h.discardFwd hfwd ⟨base, added, hignored⟩ (hignored'.trans hside.symm) rfl
    | zero =>
      rw [if_neg (by rw [verifies_zeroPacket]; rintro ⟨-, e, -⟩; cases e)]
      exact h.discardFwd hfwd ⟨base, added, hignored⟩ (hignored'.trans hside.symm) rfl
  · have hside : J.receiver.side = .closing := by rw [Receiver.side, hphase]
    have hsound := hR.sound
    rw [hphase] at hsound
    rw [receiverRecv_readClose hphase] at hrecv
    cases hrecv
    by_cases hexit : getClose pkt = true ∧ verifies pkt = true
    · rw [if_pos hexit]
      have ht : t = none := by
        cases hcarries with
        | data hpkt => rw [hnum.close hpkt] at hexit; cases hexit.1
        | close => rfl
        | zero => rfl
      subst ht
      exact .single ⟨h.sender, ⟨base, added, hR.withPhase hsound⟩, htail,
        acknowledges_mono (fun _ => rfl) h.rev⟩ (.closeReceived trest hside rfl) rfl
    · rw [if_neg hexit]
      exact h.discardFwd hfwd ⟨base, added, hR.withPhase hsound⟩
        hside.symm rfl

theorem Related.timeout_receiver {stack : Packet} {R' : Receiver}
    (h : Related pkts n J acked fwd rev) (hrecv : receiverRecv stack none J.receiver = some R') :
    Matched pkts n (J.view acked fwd rev) { J with receiver := R' } := by
  obtain ⟨base, added, hR⟩ := h.receiver
  rcases receiverRecv_phase hrecv with hphase | hphase
  · have hside : J.receiver.side = .waiting := by rw [Receiver.side, hphase]
    obtain ⟨hignored, hignored'⟩ := hR.ignored hphase
    rw [receiverRecv_read_timeout hphase] at hrecv
    cases hrecv
    refine .refl ⟨h.sender, ⟨base, added, hignored⟩, h.fwd,
      acknowledges_mono (fun e => by rw [hside] at e; cases e) h.rev⟩ ?_
    simp only [Joint.view, hside, hignored']
  · have hside : J.receiver.side = .closing := by rw [Receiver.side, hphase]
    have hsound := hR.sound
    rw [hphase] at hsound
    rw [receiverRecv_readClose_timeout hphase] at hrecv
    cases hrecv
    refine .refl ⟨h.sender, ⟨base, added, hR.withPhase hsound⟩, h.fwd,
      acknowledges_mono (fun e => by rw [hside] at e; cases e) h.rev⟩ ?_
    simp only [Joint.view, hside]
    rfl

/-! ### The network -/

theorem Related.dropFwd (h : Related pkts n J acked fwd rev) (i : ℕ) :
    Matched pkts n (J.view acked fwd rev) { J with fwd := J.fwd.eraseIdx i } :=
  .single ⟨h.sender, h.receiver, forall₂_eraseIdx h.fwd i, h.rev⟩
    (.loseFwd _ (List.eraseIdx_sublist fwd i)) rfl

theorem Related.dropRev (h : Related pkts n J acked fwd rev) (i : ℕ) :
    Matched pkts n (J.view acked fwd rev) { J with rev := J.rev.eraseIdx i } :=
  .single ⟨h.sender, h.receiver, h.fwd, forall₂_eraseIdx h.rev i⟩
    (.loseRev _ (reduceOption_eraseIdx rev i)) rfl

theorem zeroAt_cases {channel channel' : List Packet} {i : ℕ}
    (h : zeroAt channel i = some channel') :
    ∃ pkt, channel[i]? = some pkt ∧ (getACK pkt = true ∨ getClose pkt = true) ∧
      channel' = channel.set i zeroPacket := by
  unfold zeroAt at h
  cases hpkt : channel[i]? with
  | none => rw [hpkt] at h; cases h
  | some pkt =>
    rw [hpkt] at h
    dsimp only at h
    split_ifs at h with hflag
    cases h
    exact ⟨pkt, rfl, by simpa using hflag, rfl⟩

/-- Zeroing a close packet of the forward channel does not show in the view. -/
theorem Related.zeroFwd {i : ℕ} {channel : List Packet} (hnum : Numbered n pkts)
    (h : Related pkts n J acked fwd rev) (hzero : zeroAt J.fwd i = some channel) :
    Matched pkts n (J.view acked fwd rev) { J with fwd := channel } := by
  obtain ⟨pkt, hpkt, hflag, rfl⟩ := zeroAt_cases hzero
  obtain ⟨t, ht, hcarries⟩ := forall₂_getElem? h.fwd hpkt
  have hnone : t = none := by
    cases hcarries with
    | data hdata =>
      rw [hnum.ack hdata, hnum.close hdata] at hflag
      rcases hflag with e | e <;> cases e
    | close => rfl
    | zero => rfl
  have hset : fwd.set i none = fwd := by
    rw [hnone] at ht
    obtain ⟨hi, hget⟩ := List.getElem?_eq_some_iff.1 ht
    rw [← hget, List.set_getElem_self]
  have hfwd := forall₂_set h.fwd (Carries.zero : Carries pkts zeroPacket none) i
  rw [hset] at hfwd
  exact .refl ⟨h.sender, h.receiver, hfwd, h.rev⟩ rfl

theorem Related.zeroRev {i : ℕ} {channel : List Packet} (h : Related pkts n J acked fwd rev)
    (hzero : zeroAt J.rev i = some channel) :
    Matched pkts n (J.view acked fwd rev) { J with rev := channel } := by
  obtain ⟨pkt, -, -, rfl⟩ := zeroAt_cases hzero
  exact .single ⟨h.sender, h.receiver, h.fwd, forall₂_set h.rev .zero i⟩
    (.loseRev _ (reduceOption_set_none rev i)) rfl

theorem Related.follow (h : Related pkts n J acked fwd rev)
    (hphase : J.receiver.phase = .exited) (pkt : Packet) :
    Matched pkts n (J.view acked fwd rev) { J with rev := J.rev ++ [pkt] } := by
  have hside : J.receiver.side = .left := Receiver.side_eq_left_iff.2 hphase
  refine .single ⟨h.sender, h.receiver, h.fwd, forall₂_append h.rev (.follow hside)⟩
    (.loseRev (rev ++ [none]) ?_) rfl
  rw [List.reduceOption_append]
  exact (List.append_nil rev.reduceOption).symm ▸ List.Sublist.refl _

/-! ### All events -/

theorem Related.step {event : Event} {J' : Joint} (hnum : Numbered n pkts)
    (h : Related pkts n J acked fwd rev)
    (hinv : Inv n pkts.length (finalFlag pkts) (J.view acked fwd rev))
    (hstep : J.step pkts event = some J') : Matched pkts n (J.view acked fwd rev) J' := by
  cases event with
  | sender lost corr =>
    obtain ⟨⟨S', out⟩, hs, rfl⟩ := Option.map_eq_some_iff.1 hstep
    exact h.step_sender hs
  | senderRecv stack =>
    rw [Joint.step] at hstep
    cases hrev : J.rev with
    | nil => rw [hrev] at hstep; cases hstep
    | cons pkt rest =>
      rw [hrev] at hstep
      obtain ⟨S', hs, rfl⟩ := Option.map_eq_some_iff.1 hstep
      exact h.recv_sender hinv hrev hs
  | senderTimeout stack =>
    obtain ⟨S', hs, rfl⟩ := Option.map_eq_some_iff.1 hstep
    exact h.timeout_sender hs
  | receiver lost corr behind heap =>
    obtain ⟨⟨R', out⟩, hs, rfl⟩ := Option.map_eq_some_iff.1 hstep
    exact h.step_receiver hnum hs
  | receiverRecv stack =>
    rw [Joint.step] at hstep
    cases hfwd : J.fwd with
    | nil => rw [hfwd] at hstep; cases hstep
    | cons pkt rest =>
      rw [hfwd] at hstep
      obtain ⟨R', hs, rfl⟩ := Option.map_eq_some_iff.1 hstep
      exact h.recv_receiver hnum hinv hfwd hs
  | receiverTimeout stack =>
    obtain ⟨R', hs, rfl⟩ := Option.map_eq_some_iff.1 hstep
    exact h.timeout_receiver hs
  | dropFwd i =>
    rw [Joint.step] at hstep
    split_ifs at hstep
    cases hstep
    exact h.dropFwd i
  | dropRev i =>
    rw [Joint.step] at hstep
    split_ifs at hstep
    cases hstep
    exact h.dropRev i
  | zeroFwd i =>
    obtain ⟨channel, hs, rfl⟩ := Option.map_eq_some_iff.1 hstep
    exact h.zeroFwd hnum hs
  | zeroRev i =>
    obtain ⟨channel, hs, rfl⟩ := Option.map_eq_some_iff.1 hstep
    exact h.zeroRev hs
  | follow pkt =>
    rw [Joint.step] at hstep
    split_ifs at hstep with hphase
    cases hstep
    exact h.follow hphase pkt

end Events

/-! ### The simulation -/

section Simulation

variable {buf : List UInt8} {n : ℕ} {J : Joint} {allowed : Event → Joint → Prop}

theorem Joint.Initial.related (pkts : List Packet) (hn : 0 < n) (hring : 2 * n ∣ 2 ^ 22)
    (hb : 1024 * (2 * n) < 2 ^ 31) (h : J.Initial (1024 * n)) :
    Related pkts n J 0 (List.replicate J.fwd.length none) (List.replicate J.rev.length none) := by
  obtain ⟨⟨heap, hS⟩, ⟨heap', hR⟩, hfwd, hrev⟩ := h
  refine ⟨?_, ⟨0, 0, ?_⟩, ?_, ?_⟩
  · rw [hS]
    exact senderInv_init pkts hn hring hb heap
  · rw [hR]
    exact receiverInv_init pkts hn hring hb heap'
  · exact forall₂_replicate fun pkt hpkt => by rw [hfwd pkt hpkt]; exact .close
  · exact forall₂_replicate fun pkt hpkt => by rw [hrev pkt hpkt]; exact .close

theorem Joint.Initial.view (h : J.Initial (1024 * n)) :
    Protocol.Initial
      (J.view 0 (List.replicate J.fwd.length none) (List.replicate J.rev.length none)) := by
  obtain ⟨⟨heap, hS⟩, ⟨heap', hR⟩, -, -⟩ := h
  refine ⟨?_, rfl, ?_, ?_, ?_, ?_, fun e he => List.eq_of_mem_replicate he,
    fun e he => List.eq_of_mem_replicate he⟩
  · simp only [Joint.view, hS]; rfl
  · simp only [Joint.view, hS]; rfl
  · simp only [Joint.view, hS]; rfl
  · simp only [Joint.view, hR]; rfl
  · simp only [Joint.view, hR]; rfl

/-- **The joint system refines the transfer with packet numbers.** -/
def refinement (buf : List UInt8) (allowed : Event → Joint → Prop) (hn : 0 < n)
    (hring : 2 * n ∣ 2 ^ 22) (hb : 1024 * (2 * n) < 2 ^ 31) :
    StepSystem.Simulation (transferRuns buf (1024 * n) allowed)
      (transfer n (sentPackets buf (1024 * n)).length
        (finalFlag (sentPackets buf (1024 * n)))) where
  rel J a := ∃ acked fwd rev, a = J.view acked fwd rev ∧
    Related (sentPackets buf (1024 * n)) n J acked fwd rev
  init J hJ := ⟨_, hJ.view, 0, _, _, rfl, hJ.related _ hn hring hb⟩
  step := by
    rintro J J' _ ha ⟨acked, fwd, rev, rfl, hrel⟩ ⟨event, -, hstep⟩
    have hnum : Numbered n (sentPackets buf (1024 * n)) := numbered_packetsOf hring hb _ _
    obtain ⟨acked', fwd', rev', hreach, hrel'⟩ := hrel.step hnum (Protocol.inv hn ha) hstep
    exact ⟨_, hreach, acked', fwd', rev', rfl, hrel'⟩

/-- Every reachable joint state has a view, and the invariant of the protocol holds of it. -/
theorem Related.of_reachable (hn : 0 < n) (hring : 2 * n ∣ 2 ^ 22)
    (hb : 1024 * (2 * n) < 2 ^ 31) (h : (transferRuns buf (1024 * n) allowed).Reachable J) :
    ∃ acked fwd rev, Related (sentPackets buf (1024 * n)) n J acked fwd rev ∧
      Inv n (sentPackets buf (1024 * n)).length (finalFlag (sentPackets buf (1024 * n)))
        (J.view acked fwd rev) := by
  obtain ⟨a, ha, acked, fwd, rev, rfl, hrel⟩ := (refinement buf allowed hn hring hb).reachable h
  exact ⟨acked, fwd, rev, hrel, Protocol.inv hn ha⟩

end Simulation

/-! ### What the view says -/

section Facts

variable {pkts : List Packet} {n acked : ℕ} {J : Joint} {fwd rev : List (Option ℕ)}

/-- The appended packets are the first ones of the list. -/
theorem Related.getElem?_appended (h : Related pkts n J acked fwd rev) {x : ℕ}
    (hx : x < J.receiver.appended.length) : J.receiver.appended[x]? = pkts[x]? := by
  obtain ⟨base, added, hR⟩ := h.receiver
  rw [hR.appended]
  exact List.getElem?_take_of_lt hx

theorem Related.appended_prefix (h : Related pkts n J acked fwd rev) :
    J.receiver.appended <+: pkts := by
  obtain ⟨base, added, hR⟩ := h.receiver
  rw [hR.appended]
  exact List.take_prefix _ _

theorem Related.appended_eq (h : Related pkts n J acked fwd rev)
    (hlen : J.receiver.appended.length = pkts.length) : J.receiver.appended = pkts :=
  h.appended_prefix.eq_of_length hlen

theorem Joint.receiving_or (J : Joint) :
    J.Receiving ∨ J.receiver.side = .closing ∨ J.receiver.side = .left := by
  unfold Joint.Receiving
  cases J.receiver.side <;> simp

/-- Outside its transmission loop the sender has everything acknowledged. -/
theorem Related.acked_eq (h : Related pkts n J acked fwd rev) {final : Bool}
    (hinv : Inv n pkts.length final (J.view acked fwd rev)) (hleft : ¬ J.Transmitting) :
    acked = pkts.length ∧ J.sender.i = pkts.length ∧
      J.receiver.appended.length = pkts.length := by
  have hm : acked = pkts.length := hinv.phases.finished hleft
  have h1 : acked ≤ J.receiver.appended.length := hinv.counts.acked_le
  have h2 : J.receiver.appended.length ≤ J.sender.i := hinv.counts.taken_le
  have h3 := h.sender.i_le
  omega

end Facts

end Tcp118
