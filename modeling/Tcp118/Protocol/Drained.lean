import Tcp118.Protocol.Invariant

/-!
# What a transfer leaves behind

The sender closes behind its data, so the close packet for which the receiver returns comes behind
all of it.

* `Drained`: once the receiver has a packet, the data in flight to it comes before the close
  packets, and once it has returned none is left;
* `drained`: this holds along every run.
-/

namespace Tcp118.Protocol

variable {n m : ℕ} {final : Bool} {s t : Config}

/-- The order of data and close packets in flight. -/
structure Drained (s : Config) : Prop where
  ordered : 0 < s.taken ∨ s.receiver = .holding →
    s.fwd.Pairwise fun a b => a = none → b = none
  drained : s.receiver = .left → ∀ e ∈ s.fwd, e = none

theorem Initial.drained (h : Initial s) : Drained s where
  ordered e := by
    rw [h.taken, h.receiver] at e
    rcases e with e | e
    · exact absurd e (lt_irrefl 0)
    · cases e
  drained e := by
    rw [h.receiver] at e
    cases e

/-- Dropping datagrams. -/
theorem Drained.sublist {fwd : List (Option ℕ)} (h : Drained s) (hsub : fwd.Sublist s.fwd) :
    Drained { s with fwd := fwd } where
  ordered e := (h.ordered e).sublist hsub
  drained e a ha := h.drained e a (hsub.mem ha)

/-- A datagram that is no close packet can be sent only while none is in flight. -/
theorem pairwise_append_of_not_mem {fwd : List (Option ℕ)} (h : none ∉ fwd) (e : Option ℕ) :
    (fwd ++ [e]).Pairwise fun a b => a = none → b = none := by
  have hfront : ∀ a ∈ fwd, a ≠ none := fun a ha ha' => h (ha' ▸ ha)
  refine List.pairwise_append.2 ⟨?_, List.pairwise_singleton _ _, ?_⟩
  · exact List.pairwise_of_forall_mem_list fun a ha _ _ ha' => absurd ha' (hfront a ha)
  · exact fun a ha _ _ ha' => absurd ha' (hfront a ha)

/-- The packet that is accepted first comes before the close packets. -/
theorem Inv.pairwise_rest (hs : Inv n m final s) (hd : Drained s) {rest : List (Option ℕ)}
    (hfwd : s.fwd = some s.taken :: rest) : rest.Pairwise fun a b => a = none → b = none := by
  rcases Nat.eq_zero_or_pos s.taken with hzero | hpos
  · -- nothing has been acknowledged yet, so the sender still transmits
    have hmem : some s.taken ∈ s.fwd := by rw [hfwd]; exact List.mem_cons_self
    have hlt := (hs.forward.near _ hmem).2
    have hsend : s.sender = .transmitting := by
      by_contra hne
      have h1 := hs.phases.finished hne
      have h2 := hs.counts.acked_le
      have h3 := hs.counts.added_le_length
      omega
    have hfirst := hs.forward.closesFirst hsend
    rw [hfwd, List.pairwise_cons] at hfirst
    refine List.pairwise_of_forall_mem_list fun a ha _ _ ha' => ?_
    cases hfirst.1 a ha ha'
  · have hord := hd.ordered (.inl hpos)
    rw [hfwd] at hord
    exact hord.of_cons

/-- The step lemma. -/
theorem Drained.step (hd : Drained s) (hs : Inv n m final s) (h : Step n m final s t) :
    Drained t := by
  cases h with
  | add => exact ⟨hd.ordered, hd.drained⟩
  | shift => exact ⟨hd.ordered, hd.drained⟩
  | send j hsend =>
    refine ⟨fun e => pairwise_append_of_not_mem (hs.forward.noClose hsend e) _, fun e => ?_⟩
    exact absurd hsend (hs.phases.left e)
  | ack => exact ⟨hd.ordered, hd.drained⟩
  | finish => exact ⟨hd.ordered, hd.drained⟩
  | sendClose hclosing =>
    refine ⟨fun e => List.pairwise_append.2
      ⟨hd.ordered e, List.pairwise_singleton _ _, ?_⟩, fun e a ha => ?_⟩
    · exact fun _ _ b hb _ => List.mem_singleton.1 hb
    · rcases List.mem_append.1 ha with ha | ha
      · exact hd.drained e a ha
      · exact List.mem_singleton.1 ha
  | leave => exact ⟨hd.ordered, hd.drained⟩
  | accept rest _ hfwd =>
    exact ⟨fun _ => hs.pairwise_rest hd hfwd, fun e => (by cases e)⟩
  | deliver hhold =>
    refine ⟨fun _ => hd.ordered (.inr hhold), fun e => ?_⟩
    dsimp only at e
    split_ifs at e
  | ackAgain => exact ⟨hd.ordered, hd.drained⟩
  | closeReceived rest hclosing hfwd =>
    have hpos := (hs.phases.received (.inl hclosing)).2.2
    have hord := hd.ordered (.inl hpos)
    rw [hfwd, List.pairwise_cons] at hord
    exact ⟨fun _ => hord.2, fun _ a ha => hord.1 a ha rfl⟩
  | loseFwd fwd hsub => exact hd.sublist hsub
  | loseRev => exact ⟨hd.ordered, hd.drained⟩

/-- The run lemma. -/
theorem drained (hn : 0 < n) (h : (transfer n m final).Reachable s) : Drained s :=
  h.invariant (fun _ h₀ => h₀.drained) fun _ _ ha hd hab => hd.step (inv hn ha) hab

end Tcp118.Protocol
