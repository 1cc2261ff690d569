import Tcp118.Transport.Leaving

/-!
# Other memory behind the bodies

The memory behind the strings that `getBody` duplicates has no influence on a run but on the bytes
of the message.  So what lies there may be exchanged for what spoils the message.

* `poison`, `garbled`: bytes behind the body of a packet that differ from what the packet holds
  there, and the message that comes of them;
* `garbled_bytes_ne`: it is not what was sent, if a body has a zero byte before its last one;
* `Receiver.garble`, `Joint.garble`: the same state with that message;
* `garble_step`, `garble_reachable`: runs stay runs;
* `readTCP_intact_iff`: the buffers that arrive intact in every run.
-/

namespace Tcp118

/-- A byte unlike the one that the packet holds behind the end of the duplicated string. -/
def poison (pkt : Packet) : List UInt8 := [(payload pkt).getD (getBody pkt []).length 0 + 1]

/-- The message of the packets, with their poison behind the strings. -/
def garbled (pkts : List Packet) : Message :=
  pkts.foldl (fun m pkt => appendBody m pkt [] (poison pkt)) Message.empty

theorem garbled_concat (pkts : List Packet) (pkt : Packet) :
    garbled (pkts ++ [pkt]) = appendBody (garbled pkts) pkt [] (poison pkt) :=
  List.foldl_append

/-! ### The bytes -/

section Bytes

variable {pkt : Packet} {pkts : List Packet}

theorem assembles_garbled (pkts : List Packet) : Assembles pkts (garbled pkts) := by
  induction pkts using List.reverseRecOn with
  | nil => exact .empty
  | append_singleton pkts pkt ih =>
    rw [garbled_concat]
    exact ih.append pkt [] (poison pkt)

theorem ne_add_one_byte (b : UInt8) : b ≠ b + 1 := by
  intro h
  have hval := congrArg UInt8.toNat h
  have hlt := b.toNat_lt
  rw [UInt8.toNat_add, UInt8.toNat_one] at hval
  omega

/-- The copy is spoilt where the string ends too early. -/
theorem copiedBody_poison_ne (hsize : getSize pkt ≤ maxBodySize)
    (hzero : (0 : UInt8) ∈ (payload pkt).dropLast) :
    copiedBody pkt [] (poison pkt) ≠ payload pkt := by
  have hlen := length_payload hsize
  have hlt : (getBody pkt []).length < (payload pkt).length := by
    have hsplit : bodyBytes pkt ++ [] =
        payload pkt ++ ((bodyBytes pkt).drop (getSize pkt) ++ []) := by
      rw [payload, ← List.append_assoc, List.take_append_drop]
    rw [getBody, hsplit, ← Nat.not_le, length_le_strdup_iff]
    exact not_not_intro hzero
  have hspoilt : (copiedBody pkt [] (poison pkt)).getD (getBody pkt []).length 0 =
      (payload pkt).getD (getBody pkt []).length 0 + 1 := by
    have hrange : (getBody pkt []).length < getSize pkt := by omega
    rw [List.getD_eq_getElem _ _ (by rw [length_copiedBody]; exact hrange)]
    simp only [copiedBody, List.getElem_map, List.getElem_range]
    rw [List.getD_append_right _ _ _ _ le_rfl, Nat.sub_self, poison]
    rfl
  intro heq
  rw [heq] at hspoilt
  exact ne_add_one_byte _ hspoilt

/-- The garbled message is not what the packets hold. -/
theorem garbled_bytes_ne (hsize : ∀ pkt ∈ pkts, getSize pkt ≤ maxBodySize)
    (hzero : ∃ pkt ∈ pkts, (0 : UInt8) ∈ (payload pkt).dropLast) :
    (garbled pkts).bytes ≠ pkts.flatMap payload := by
  induction pkts using List.reverseRecOn with
  | nil =>
    obtain ⟨pkt, hpkt, -⟩ := hzero
    exact absurd hpkt List.not_mem_nil
  | append_singleton pkts pkt ih =>
    have hall := List.forall_mem_append.1 hsize
    have hpkt := hall.2 pkt List.mem_cons_self
    have hm := assembles_garbled pkts
    rw [garbled_concat, hm.bytes_appendBody, List.flatMap_append, List.flatMap_singleton]
    intro heq
    have hlen : (garbled pkts).bytes.length = (pkts.flatMap payload).length := by
      rw [Message.bytes, List.length_take, Nat.min_eq_left hm.msgLen_le, hm.msgLen,
        length_flatMap_payload hall.1]
    obtain ⟨hfront, hlast⟩ := List.append_inj heq hlen
    obtain ⟨bad, hbad, hzero⟩ := hzero
    rcases List.mem_append.1 hbad with hbad | hbad
    · exact ih hall.1 ⟨bad, hbad, hzero⟩ hfront
    · rw [List.mem_singleton.1 hbad] at hzero
      exact copiedBody_poison_ne hpkt hzero hlast

end Bytes

/-! ### The runs -/

/-- The same call of `readTCP`, with its message garbled. -/
def Receiver.garble (R : Receiver) : Receiver := { R with message := garbled R.appended }

/-- The same joint state, with the message garbled. -/
def Joint.garble (J : Joint) : Joint := { J with receiver := J.receiver.garble }

section Runs

variable {R R' : Receiver} {lost corr : Bool} {behind heap : List UInt8} {out : Option Packet}

theorem deliver_garble (h : deliver lost corr behind heap R = some (R', out)) :
    ∃ heap', deliver lost corr [] heap' R.garble = some (R'.garble, out) := by
  obtain ⟨pkt, hpkt, hrest⟩ := Option.bind_eq_some_iff.1 h
  obtain ⟨⟨w, out', b⟩, hack, heq⟩ := Option.bind_eq_some_iff.1 hrest
  cases heq
  cases pkt with
  | none =>
    refine ⟨[], ?_⟩
    unfold deliver
    simp only [Receiver.garble, hpkt, hack, Option.bind_eq_bind, Option.bind_some,
      Option.pure_def]
  | some pkt =>
    refine ⟨poison pkt, ?_⟩
    unfold deliver
    simp only [Receiver.garble, hpkt, hack, Option.bind_eq_bind, Option.bind_some,
      Option.pure_def, garbled_concat]

theorem receiverStep_garble (h : receiverStep lost corr behind heap R = some (R', out)) :
    ∃ heap', receiverStep lost corr [] heap' R.garble = some (R'.garble, out) := by
  unfold receiverStep at h ⊢
  have hphase' : R.garble.phase = R.phase := rfl
  rw [hphase']
  cases hphase : R.phase with
  | deliver =>
    rw [hphase] at h
    exact deliver_garble h
  | top => rw [hphase] at h; cases h; exact ⟨[], rfl⟩
  | close => rw [hphase] at h; cases h; exact ⟨[], rfl⟩
  | read => rw [hphase] at h; cases h
  | readClose => rw [hphase] at h; cases h
  | exited => rw [hphase] at h; cases h

theorem receiverRecv_garble {stack : Packet} {recv : Option Datagram}
    (h : receiverRecv stack recv R = some R') :
    receiverRecv stack recv R.garble = some R'.garble := by
  unfold receiverRecv at h ⊢
  have hphase' : R.garble.phase = R.phase := rfl
  rw [hphase']
  cases hphase : R.phase with
  | read =>
    rw [hphase] at h
    obtain ⟨r, hr, rfl⟩ := Option.map_eq_some_iff.1 h
    have hr' : readPacket stack recv R.garble.cwndR = some r := hr
    dsimp only
    rw [hr']
    rfl
  | readClose => rw [hphase] at h; cases h; rfl
  | top => rw [hphase] at h; cases h
  | deliver => rw [hphase] at h; cases h
  | close => rw [hphase] at h; cases h
  | exited => rw [hphase] at h; cases h

variable {buf : List UInt8} {W : ℕ} {J J' : Joint}

/-- Every event has one that does the same to the garbled states. -/
theorem garble_step {pkts : List Packet} {event : Event} (h : J.step pkts event = some J') :
    ∃ event', J.garble.step pkts event' = some J'.garble := by
  cases event with
  | receiver lost corr behind heap =>
    obtain ⟨⟨R, out⟩, hs, rfl⟩ := Option.map_eq_some_iff.1 h
    obtain ⟨heap', hs'⟩ := receiverStep_garble hs
    refine ⟨.receiver lost corr [] heap', ?_⟩
    simp only [Joint.step, Joint.garble, hs', Option.map_some]
  | receiverRecv stack =>
    rw [Joint.step] at h
    cases hfwd : J.fwd with
    | nil => rw [hfwd] at h; cases h
    | cons pkt rest =>
      rw [hfwd] at h
      obtain ⟨R, hs, rfl⟩ := Option.map_eq_some_iff.1 h
      refine ⟨.receiverRecv stack, ?_⟩
      simp only [Joint.step, Joint.garble, hfwd, receiverRecv_garble hs, Option.map_some]
  | receiverTimeout stack =>
    obtain ⟨R, hs, rfl⟩ := Option.map_eq_some_iff.1 h
    refine ⟨.receiverTimeout stack, ?_⟩
    simp only [Joint.step, Joint.garble, receiverRecv_garble hs, Option.map_some]
  | sender lost corr =>
    obtain ⟨r, hs, rfl⟩ := Option.map_eq_some_iff.1 h
    refine ⟨.sender lost corr, ?_⟩
    simp only [Joint.step, Joint.garble, hs, Option.map_some]
  | senderRecv stack =>
    rw [Joint.step] at h
    cases hrev : J.rev with
    | nil => rw [hrev] at h; cases h
    | cons pkt rest =>
      rw [hrev] at h
      obtain ⟨S, hs, rfl⟩ := Option.map_eq_some_iff.1 h
      refine ⟨.senderRecv stack, ?_⟩
      simp only [Joint.step, Joint.garble, hrev, hs, Option.map_some]
  | senderTimeout stack =>
    obtain ⟨S, hs, rfl⟩ := Option.map_eq_some_iff.1 h
    refine ⟨.senderTimeout stack, ?_⟩
    simp only [Joint.step, Joint.garble, hs, Option.map_some]
  | dropFwd i =>
    rw [Joint.step] at h
    split_ifs at h with hi
    cases h
    exact ⟨.dropFwd i, if_pos hi⟩
  | dropRev i =>
    rw [Joint.step] at h
    split_ifs at h with hi
    cases h
    exact ⟨.dropRev i, if_pos hi⟩
  | zeroFwd i =>
    obtain ⟨channel, hz, rfl⟩ := Option.map_eq_some_iff.1 h
    refine ⟨.zeroFwd i, ?_⟩
    simp only [Joint.step, Joint.garble, hz, Option.map_some]
  | zeroRev i =>
    obtain ⟨channel, hz, rfl⟩ := Option.map_eq_some_iff.1 h
    refine ⟨.zeroRev i, ?_⟩
    simp only [Joint.step, Joint.garble, hz, Option.map_some]
  | follow pkt =>
    rw [Joint.step] at h
    split_ifs at h with hphase
    cases h
    exact ⟨.follow pkt, if_pos hphase⟩

theorem garble_reachable (h : (transferSystem buf W).Reachable J) :
    (transferSystem buf W).Reachable J.garble := by
  obtain ⟨J₀, hinit, hreach⟩ := h
  have hstart : J₀.garble = J₀ := by
    obtain ⟨heap, hR⟩ := hinit.receiver
    rw [Joint.garble, hR]
    exact congrArg (fun R => { J₀ with receiver := R }) hR.symm
  obtain ⟨J', hJ', rfl⟩ := hreach.carry (N := transferSystem buf W)
    (R := fun J J' => J' = J.garble) hstart.symm <| by
      rintro a b _ rfl ⟨event, -, hstep⟩
      obtain ⟨event', hstep'⟩ := garble_step hstep
      exact ⟨b.garble, .single ⟨event', trivial, hstep'⟩, rfl⟩
  exact ⟨J₀, hinit, hJ'⟩

end Runs

/-! ### Intact buffers -/

section Intact

variable {buf : List UInt8} {n : ℕ} {J : Joint}

/-- A buffer that is not transparent has a packet whose string ends too early. -/
theorem exists_short_string
    (hlen : (buf.length + (maxBodySize - 1)) / maxBodySize * packetSize < 2 ^ 31) (W : ℕ)
    (h : ¬ Transparent buf) :
    ∃ pkt ∈ sentPackets buf W, (0 : UInt8) ∈ (payload pkt).dropLast := by
  unfold Transparent at h
  simp only [not_forall, not_not] at h
  obtain ⟨i, hzero⟩ := h
  have hi : i < (packetsOf buf W buf.length).length := by
    by_contra hno
    rw [length_packetsOf, numPackets_eq hlen] at hno
    have hdrop : buf.drop (maxBodySize * i) = [] := by
      apply List.drop_eq_nil_of_le
      simp only [maxBodySize] at *
      omega
    rw [hdrop] at hzero
    exact absurd hzero List.not_mem_nil
  refine ⟨(packetsOf buf W buf.length)[i], ?_, ?_⟩
  · rw [sentPackets_eq hlen]
    exact List.getElem_mem hi
  · rw [eq_pieceOf (List.getElem?_eq_getElem hi), payload_pieceOf rfl]
    exact hzero

/-- Once `readTCP` has returned, the garbled message is not the buffer. -/
theorem garbled_ne_of_exited (hn : 0 < n) (hring : 2 * n ∣ 2 ^ 22) (hb : 1024 * (2 * n) < 2 ^ 31)
    (hlen : (buf.length + (maxBodySize - 1)) / maxBodySize * packetSize < 2 ^ 31)
    (ht : ¬ Transparent buf) (h : (transferSystem buf (1024 * n)).Reachable J)
    (hphase : J.receiver.phase = .exited) : J.receiver.garble.message.bytes ≠ buf := by
  obtain ⟨_, _, _, hrel, hinv⟩ := Related.of_reachable hn hring hb h
  have htaken := (hinv.phases.received (.inr (Receiver.side_eq_left_iff.2 hphase))).2.1
  have hne := garbled_bytes_ne
    (fun pkt (hpkt : pkt ∈ sentPackets buf (1024 * n)) => getSize_sentPackets hpkt)
    (exists_short_string hlen (1024 * n) ht)
  rw [flatMap_payload_sentPackets hlen] at hne
  rw [Receiver.garble, hrel.appended_eq htaken]
  exact hne

/-- **The buffers that arrive intact.**  A buffer whose length is no multiple of `MAX_BODY_SIZE` is
what every `readTCP` that returns has got, in every run, exactly if no body of its packets has a
zero byte before its last one. -/
theorem readTCP_intact_iff {e : ℕ} (he : 10 ≤ e) (he' : e ≤ 29)
    (hlen : (buf.length + (maxBodySize - 1)) / maxBodySize * packetSize < 2 ^ 31)
    (hmod : buf.length % maxBodySize ≠ 0) :
    (∀ J, (transferSystem buf (2 ^ e)).Reachable J → J.receiver.phase = .exited →
      J.receiver.message.bytes = buf) ↔ Transparent buf := by
  obtain ⟨n, hW, hn, hring, hb⟩ := exists_packets_of_pow he he'
  rw [hW]
  constructor
  · intro hall
    by_contra ht
    have hstart : (transferSystem buf (1024 * n)).Reachable
        ⟨senderInit (1024 * n) fun _ => zeroPacket, receiverInit (1024 * n) fun _ => zeroPacket,
          [], []⟩ :=
      .of_init ⟨⟨_, rfl⟩, ⟨_, rfl⟩, fun _ hp => absurd hp List.not_mem_nil,
        fun _ hp => absurd hp List.not_mem_nil⟩
    obtain ⟨J, hreach, hphase⟩ := (canReturn_iff_of_length hn hring hb hlen hstart).2
      ⟨hmod, .inr (.inl (.inl rfl))⟩
    have hJ := hstart.trans hreach
    exact garbled_ne_of_exited hn hring hb hlen ht hJ hphase
      (hall J.garble (garble_reachable hJ) hphase)
  · intro ht J hJ hphase
    obtain ⟨got, -, -, hbytes, hall⟩ := message_of_reachable hn hring hb hlen hJ
    rw [hbytes ht, hall (not_receiving_of_exited hphase)]

theorem readTCP_intact_letter :
    (∀ J, (transferSystem [65] (2 ^ 12)).Reachable J → J.receiver.phase = .exited →
      J.receiver.message.bytes = [65]) ↔ Transparent [65] :=
  readTCP_intact_iff (by norm_num) (by norm_num) (by decide) (by decide)

end Intact

end Tcp118
