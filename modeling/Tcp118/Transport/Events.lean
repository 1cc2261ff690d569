import Tcp118.Transport.Joint

/-!
# What an event changes

`Joint.step_sender`, `Joint.step_receiver`: an event leaves a side as it is, or is a step of
that side or the return of a receive call of it; `Joint.step_one`: it changes one side at most.
-/

namespace Tcp118

variable {pkts : List Packet} {event : Event} {J J' : Joint}

/-- The sender moves by itself, receives, or stays. -/
theorem Joint.step_sender (h : J.step pkts event = some J') :
    J'.sender = J.sender ∨
      (∃ lost corr out, senderStep pkts lost corr J.sender = some (J'.sender, out)) ∨
      ∃ stack recv, senderRecv stack recv J.sender = some J'.sender := by
  cases event with
  | sender lost corr =>
    obtain ⟨⟨S', out⟩, hs, rfl⟩ := Option.map_eq_some_iff.1 h
    exact .inr (.inl ⟨lost, corr, out, hs⟩)
  | senderRecv stack =>
    rw [Joint.step] at h
    split at h
    · cases h
    · obtain ⟨S', hs, rfl⟩ := Option.map_eq_some_iff.1 h
      exact .inr (.inr ⟨stack, _, hs⟩)
  | senderTimeout stack =>
    obtain ⟨S', hs, rfl⟩ := Option.map_eq_some_iff.1 h
    exact .inr (.inr ⟨stack, none, hs⟩)
  | receiverRecv stack =>
    rw [Joint.step] at h
    split at h
    · cases h
    · obtain ⟨R', -, rfl⟩ := Option.map_eq_some_iff.1 h
      exact .inl rfl
  | receiver | receiverTimeout | zeroFwd | zeroRev =>
    obtain ⟨r, -, rfl⟩ := Option.map_eq_some_iff.1 h
    exact .inl rfl
  | dropFwd | dropRev | follow =>
    rw [Joint.step] at h
    split_ifs at h
    cases h
    exact .inl rfl

/-- The receiver moves by itself, receives, or stays. -/
theorem Joint.step_receiver (h : J.step pkts event = some J') :
    J'.receiver = J.receiver ∨
      (∃ lost corr behind heap out,
        receiverStep lost corr behind heap J.receiver = some (J'.receiver, out)) ∨
      ∃ stack recv, receiverRecv stack recv J.receiver = some J'.receiver := by
  cases event with
  | receiver lost corr behind heap =>
    obtain ⟨⟨R', out⟩, hs, rfl⟩ := Option.map_eq_some_iff.1 h
    exact .inr (.inl ⟨lost, corr, behind, heap, out, hs⟩)
  | receiverRecv stack =>
    rw [Joint.step] at h
    split at h
    · cases h
    · obtain ⟨R', hs, rfl⟩ := Option.map_eq_some_iff.1 h
      exact .inr (.inr ⟨stack, _, hs⟩)
  | receiverTimeout stack =>
    obtain ⟨R', hs, rfl⟩ := Option.map_eq_some_iff.1 h
    exact .inr (.inr ⟨stack, none, hs⟩)
  | senderRecv stack =>
    rw [Joint.step] at h
    split at h
    · cases h
    · obtain ⟨S', -, rfl⟩ := Option.map_eq_some_iff.1 h
      exact .inl rfl
  | sender | senderTimeout | zeroFwd | zeroRev =>
    obtain ⟨r, -, rfl⟩ := Option.map_eq_some_iff.1 h
    exact .inl rfl
  | dropFwd | dropRev | follow =>
    rw [Joint.step] at h
    split_ifs at h
    cases h
    exact .inl rfl

/-- One of the two stays as it is. -/
theorem Joint.step_one (h : J.step pkts event = some J') :
    J'.sender = J.sender ∨ J'.receiver = J.receiver := by
  cases event with
  | sender | senderTimeout | zeroFwd | zeroRev =>
    obtain ⟨r, -, rfl⟩ := Option.map_eq_some_iff.1 h
    exact .inr rfl
  | senderRecv stack =>
    rw [Joint.step] at h
    split at h
    · cases h
    · obtain ⟨S', -, rfl⟩ := Option.map_eq_some_iff.1 h
      exact .inr rfl
  | receiver | receiverTimeout =>
    obtain ⟨r, -, rfl⟩ := Option.map_eq_some_iff.1 h
    exact .inl rfl
  | receiverRecv stack =>
    rw [Joint.step] at h
    split at h
    · cases h
    · obtain ⟨R', -, rfl⟩ := Option.map_eq_some_iff.1 h
      exact .inl rfl
  | dropFwd | dropRev | follow =>
    rw [Joint.step] at h
    split_ifs at h
    cases h
    exact .inl rfl

end Tcp118
