import Tcp118.Protocol.Basic
import Mathlib.Algebra.Order.Ring.Nat
import Mathlib.Tactic.SplitIfs

/-!
# The invariant of a transfer

Four groups of facts, each about the components it mentions:

* `Counts`: the counters of the two sides bound each other;
* `Forward`: the data in flight belongs to the sender's window or to the one before it, in the
  order of the windows, and to the present window once the receiver has taken a packet of it;
* `Reverse`: the acknowledgements in flight rise, from the last one the sender has acted on;
* `Phases`: what each phase says about the counters.

`Inv.step` is the step lemma and `inv` the run lemma.  The results are `Inv.fwd_near` and
`Inv.rev_near`, that the number of a datagram in flight is near what its reader expects, and
`Wedged.reaches`, that a sender whose last acknowledgement is lost transmits for ever.
-/

namespace Tcp118.Protocol

variable {n m base acked added taken : ℕ} {final : Bool} {s t : Config}

/-- The counters of the two sides. -/
structure Counts (n m base acked added taken : ℕ) (receiver : ReceiverSide) : Prop where
  aligned : n ∣ base
  base_le : base ≤ acked
  acked_le : acked ≤ taken
  taken_le : taken ≤ added
  holding_lt : receiver = .holding → taken < added
  added_le : added ≤ base + n
  added_le_length : added ≤ m

/-- The data in flight. -/
structure Forward (n base added taken : ℕ) (sender : SenderSide) (receiver : ReceiverSide)
    (fwd : List (Option ℕ)) : Prop where
  near : ∀ j, some j ∈ fwd → base ≤ j + n ∧ j < added
  blocks : fwd.Pairwise fun a b => ∀ i j, a = some i → b = some j → i / n ≤ j / n
  current : base < taken ∨ receiver = .holding → ∀ j, some j ∈ fwd → base ≤ j
  closesFirst : sender = .transmitting → fwd.Pairwise fun a b => b = none → a = none
  noClose : sender = .transmitting → 0 < taken ∨ receiver = .holding → none ∉ fwd

/-- The acknowledgements in flight; the one for the last packet, if it is flagged, comes once. -/
structure Reverse (m acked taken : ℕ) (final : Bool) (acks : List ℕ) : Prop where
  near : ∀ q ∈ acks, acked ≤ q + 1 ∧ q < taken
  sorted : acks.Pairwise fun a b => a ≤ b ∧ (final = true → a + 1 ≠ m)
  none_left : final = true → acked = m → acks = []

/-- What the phases say. -/
structure Phases (m acked taken : ℕ) (final : Bool) (sender : SenderSide)
    (receiver : ReceiverSide) : Prop where
  received : receiver = .closing ∨ receiver = .left → final = true ∧ taken = m ∧ 0 < taken
  closes : final = true → 0 < taken → taken = m → receiver = .closing ∨ receiver = .left
  finished : sender ≠ .transmitting → acked = m
  left : receiver = .left → sender ≠ .transmitting
  byDatagram : final = true → sender = .left true → receiver = .left

/-- The invariant. -/
structure Inv (n m : ℕ) (final : Bool) (s : Config) : Prop where
  pos : 0 < n
  counts : Counts n m s.base s.acked s.added s.taken s.receiver
  forward : Forward n s.base s.added s.taken s.sender s.receiver s.fwd
  reverse : Reverse m s.acked s.taken final s.rev.reduceOption
  phases : Phases m s.acked s.taken final s.sender s.receiver

theorem reduceOption_eq_nil {α : Type*} {l : List (Option α)} (h : ∀ e ∈ l, e = none) :
    l.reduceOption = [] := by
  rw [List.eq_nil_iff_forall_not_mem]
  intro x hx
  rw [List.reduceOption_mem_iff] at hx
  cases h _ hx

theorem Initial.inv (hn : 0 < n) (h : Initial s) : Inv n m final s where
  pos := hn
  counts := by
    rw [h.base, h.acked, h.added, h.taken]
    refine ⟨Nat.dvd_zero n, le_rfl, le_rfl, le_rfl, fun e => ?_, Nat.zero_le _, Nat.zero_le _⟩
    rw [h.receiver] at e
    cases e
  forward := by
    have hnone : ∀ j, some j ∉ s.fwd := fun j hj => by cases h.fwd _ hj
    refine ⟨fun j hj => absurd hj (hnone j), ?_, fun _ j hj => absurd hj (hnone j), ?_, ?_⟩
    · refine List.pairwise_of_forall_mem_list ?_
      intro a ha b hb i j hi
      rw [h.fwd a ha] at hi
      cases hi
    · exact fun _ => List.pairwise_of_forall_mem_list fun a ha _ _ _ => h.fwd a ha
    · rw [h.taken, h.receiver]
      rintro - (h0 | h0)
      · exact absurd h0 (lt_irrefl 0)
      · cases h0
  reverse := by
    rw [reduceOption_eq_nil h.rev]
    exact ⟨fun q hq => absurd hq List.not_mem_nil, List.Pairwise.nil, fun _ _ => rfl⟩
  phases := by
    rw [h.receiver, h.taken, h.sender]
    refine ⟨fun e => ?_, fun _ h0 => absurd h0 (lt_irrefl 0), fun hne => absurd rfl hne,
      fun e => (by cases e), fun _ e => (by cases e)⟩
    rcases e with e | e <;> cases e

/-! ### Blocks -/

/-- A packet of the window or of an earlier one lies in a block no later than the window's. -/
theorem div_le_div_of_block (hn : 0 < n) (hb : n ∣ base) {i j : ℕ} (hi : i < base + n)
    (hj : base ≤ j) : i / n ≤ j / n := by
  obtain ⟨k, rfl⟩ := hb
  have h1 : i / n ≤ k := by
    rw [← Nat.lt_succ_iff, Nat.div_lt_iff_lt_mul hn, Nat.succ_mul, Nat.mul_comm k n]
    exact hi
  have h2 : k ≤ j / n := by
    rw [Nat.le_div_iff_mul_le hn, Nat.mul_comm]
    exact hj
  exact h1.trans h2

/-- A packet in a block no earlier than that of a packet of the window is of the window or
later. -/
theorem le_of_div_le_div (hn : 0 < n) (hb : n ∣ base) {i j : ℕ} (hi : base ≤ i)
    (h : i / n ≤ j / n) : base ≤ j := by
  obtain ⟨k, rfl⟩ := hb
  have h1 : k ≤ i / n := by
    rw [Nat.le_div_iff_mul_le hn, Nat.mul_comm]
    exact hi
  have h2 := (Nat.le_div_iff_mul_le hn).1 (h1.trans h)
  rwa [Nat.mul_comm] at h2

/-! ### Channels -/

/-- Dropping datagrams. -/
theorem Forward.sublist {sender : SenderSide} {receiver : ReceiverSide} {fwd fwd' : List (Option ℕ)}
    (h : Forward n base added taken sender receiver fwd) (hs : fwd'.Sublist fwd) :
    Forward n base added taken sender receiver fwd' where
  near j hj := h.near j (hs.mem hj)
  blocks := h.blocks.sublist hs
  current hc j hj := h.current hc j (hs.mem hj)
  closesFirst hc := (h.closesFirst hc).sublist hs
  noClose hc ht hj := h.noClose hc ht (hs.mem hj)

/-- Sending a packet of the window. -/
theorem Forward.append {sender : SenderSide} {receiver : ReceiverSide} {fwd : List (Option ℕ)}
    (h : Forward n base added taken sender receiver fwd) (hn : 0 < n) (hb : n ∣ base)
    (hadded : added ≤ base + n) {j : ℕ} (hj : base ≤ j) (hj' : j < added) :
    Forward n base added taken sender receiver (fwd ++ [some j]) where
  near i hi := by
    rw [List.mem_append, List.mem_singleton, Option.some.injEq] at hi
    rcases hi with hi | rfl
    · exact h.near i hi
    · exact ⟨by omega, hj'⟩
  blocks := by
    refine List.pairwise_append.2 ⟨h.blocks, List.pairwise_singleton _ _, ?_⟩
    intro a ha b hb' i k hi hk
    rw [List.mem_singleton.1 hb', Option.some.injEq] at hk
    rw [hi] at ha
    have hlt := (h.near i ha).2
    rw [← hk]
    exact div_le_div_of_block hn hb (by omega) hj
  current hc i hi := by
    rw [List.mem_append, List.mem_singleton, Option.some.injEq] at hi
    rcases hi with hi | rfl
    · exact h.current hc i hi
    · exact hj
  closesFirst hc := by
    refine List.pairwise_append.2 ⟨h.closesFirst hc, List.pairwise_singleton _ _, ?_⟩
    intro a _ b hb' hnone
    rw [List.mem_singleton.1 hb'] at hnone
    cases hnone
  noClose hc ht hmem := by
    rw [List.mem_append, List.mem_singleton] at hmem
    rcases hmem with hmem | hmem
    · exact h.noClose hc ht hmem
    · cases hmem

/-- Sending a close packet, when no data follows it. -/
theorem Forward.append_none {sender : SenderSide} {receiver : ReceiverSide}
    {fwd : List (Option ℕ)} (h : Forward n base added taken sender receiver fwd)
    (hs : sender ≠ .transmitting) :
    Forward n base added taken sender receiver (fwd ++ [none]) where
  near j hj := h.near j (by simpa using hj)
  blocks := by
    refine List.pairwise_append.2 ⟨h.blocks, List.pairwise_singleton _ _, ?_⟩
    intro a _ b hb i j _ hj
    rw [List.mem_singleton.1 hb] at hj
    cases hj
  current hc j hj := h.current hc j (by simpa using hj)
  closesFirst hc := absurd hc hs
  noClose hc := absurd hc hs

/-- The receiver takes the packet it waits for: everything behind it is of the present window,
and no close packet is. -/
theorem Forward.accept {sender : SenderSide} {receiver : ReceiverSide} {rest : List (Option ℕ)}
    (h : Forward n base added taken sender receiver (some taken :: rest)) (hn : 0 < n)
    (hb : n ∣ base) (hbase : base ≤ taken) : Forward n base added taken sender .holding rest where
  near j hj := h.near j (List.mem_cons_of_mem _ hj)
  blocks := h.blocks.of_cons
  current _ j hj :=
    le_of_div_le_div hn hb hbase ((List.pairwise_cons.1 h.blocks).1 _ hj taken j rfl rfl)
  closesFirst hc := (h.closesFirst hc).of_cons
  noClose hc _ hmem := by
    have := (List.pairwise_cons.1 (h.closesFirst hc)).1 _ hmem rfl
    cases this

theorem Reverse.sublist {acks acks' : List ℕ} (h : Reverse m acked taken final acks)
    (hs : acks'.Sublist acks) : Reverse m acked taken final acks' where
  near q hq := h.near q (hs.mem hq)
  sorted := h.sorted.sublist hs
  none_left hf ha := by
    have hnil := h.none_left hf ha
    subst hnil
    exact List.sublist_nil.1 hs

/-- Sending an acknowledgement that is not below those in flight. -/
theorem Reverse.append {acks : List ℕ} (h : Reverse m acked taken final acks) {q taken' : ℕ}
    (hle : taken ≤ taken') (hq : acked ≤ q + 1) (hq' : q < taken') (hmono : ∀ a ∈ acks, a ≤ q)
    (hlast : final = true → taken < m ∧ acked ≠ m) :
    Reverse m acked taken' final (acks ++ [q]) where
  near a ha := by
    rw [List.mem_append, List.mem_singleton] at ha
    rcases ha with ha | rfl
    · have := h.near a ha; omega
    · exact ⟨hq, hq'⟩
  sorted := by
    refine List.pairwise_append.2 ⟨h.sorted, List.pairwise_singleton _ _, ?_⟩
    intro a ha b hb
    rw [List.mem_singleton.1 hb]
    refine ⟨hmono a ha, fun hf => ?_⟩
    have := (h.near a ha).2
    have := (hlast hf).1
    omega
  none_left hf ha := absurd ha (hlast hf).2

/-- The sender acts on the first acknowledgement. -/
theorem Reverse.ack {q : ℕ} {acks : List ℕ} (h : Reverse m acked taken final (q :: acks)) :
    Reverse m (max acked (q + 1)) taken final acks where
  near a ha := by
    have h1 := h.near a (List.mem_cons_of_mem _ ha)
    have h2 := ((List.pairwise_cons.1 h.sorted).1 a ha).1
    omega
  sorted := h.sorted.of_cons
  none_left hf hm := by
    rcases Nat.lt_or_ge acked (q + 1) with hlt | hge
    · rw [Nat.max_eq_right hlt.le] at hm
      rw [List.eq_nil_iff_forall_not_mem]
      intro a ha
      exact ((List.pairwise_cons.1 h.sorted).1 a ha).2 hf hm
    · rw [Nat.max_eq_left hge] at hm
      cases h.none_left hf hm

/-! ### Steps -/

section Steps

variable (hs : Inv n m final s) (h : Step n m final s t)
include hs h

theorem Inv.counts_step : Counts n m t.base t.acked t.added t.taken t.receiver := by
  obtain ⟨haligned, hbase, hacked, htaken, hholding, hwindow, hlength⟩ := hs.counts
  cases h with
  | add _ hlt hroom =>
    exact ⟨haligned, hbase, hacked, Nat.le_succ_of_le htaken,
      fun e => Nat.lt_succ_of_lt (hholding e), hroom, hlt⟩
  | shift _ hfull =>
    exact ⟨(Nat.dvd_add_right haligned).2 (dvd_refl n), hfull.ge, hacked, htaken, hholding,
      by dsimp only; omega, hlength⟩
  | ack q rest _ hrev hq hq' =>
    have hr := hs.reverse
    rw [hrev, List.reduceOption_cons_of_some] at hr
    have hlt := (hr.near q List.mem_cons_self).2
    exact ⟨haligned, by dsimp only; omega, by dsimp only; omega, htaken, hholding, hwindow,
      hlength⟩
  | accept rest _ hfwd =>
    have hf := hs.forward
    rw [hfwd] at hf
    have hlt := (hf.near s.taken List.mem_cons_self).2
    exact ⟨haligned, hbase, hacked, htaken, fun _ => hlt, hwindow, hlength⟩
  | deliver hhold =>
    refine ⟨haligned, hbase, by dsimp only; omega, hholding hhold, fun e => ?_, hwindow, hlength⟩
    dsimp only at e
    split_ifs at e
  | closeReceived =>
    exact ⟨haligned, hbase, hacked, htaken, fun e => (by cases e), hwindow, hlength⟩
  | _ => exact hs.counts

theorem Inv.forward_step : Forward n t.base t.added t.taken t.sender t.receiver t.fwd := by
  have hn := hs.pos
  have hc := hs.counts
  have hf := hs.forward
  have hbase := hc.base_le
  have hacked := hc.acked_le
  have hwindow := hc.added_le
  cases h with
  | add =>
    refine ⟨fun j hj => ?_, hf.blocks, hf.current, hf.closesFirst, hf.noClose⟩
    have hnear := hf.near j hj
    exact ⟨hnear.1, Nat.lt_succ_of_lt hnear.2⟩
  | shift _ hfull =>
    -- the window is full and all of it has been taken, so all data in flight is from it
    refine ⟨fun j hj => ?_, hf.blocks, fun e => ?_, hf.closesFirst, hf.noClose⟩
    · have hcurrent := hf.current (.inl (by omega)) j hj
      exact ⟨by dsimp only; omega, (hf.near j hj).2⟩
    · have htaken := hc.taken_le
      rcases e with e | e
      · dsimp only at e
        omega
      · have hlt := hc.holding_lt e
        omega
  | send j _ hj hj' => exact hf.append hn hc.aligned hwindow (by omega) hj'
  | finish =>
    exact ⟨hf.near, hf.blocks, hf.current, fun e => (by cases e), fun e => (by cases e)⟩
  | sendClose hclosing => exact hf.append_none (by rw [hclosing]; exact fun e => by cases e)
  | leave =>
    exact ⟨hf.near, hf.blocks, hf.current, fun e => (by cases e), fun e => (by cases e)⟩
  | accept rest _ hfwd =>
    rw [hfwd] at hf
    exact hf.accept hn hc.aligned (by omega)
  | deliver hhold =>
    exact ⟨hf.near, hf.blocks, fun _ => hf.current (.inr hhold), hf.closesFirst,
      fun hsend _ => hf.noClose hsend (.inr hhold)⟩
  | closeReceived rest hclosing hfwd =>
    obtain ⟨-, -, hpos⟩ := hs.phases.received (.inl hclosing)
    have hsend : s.sender ≠ .transmitting := by
      intro e
      refine hf.noClose e (.inl hpos) ?_
      rw [hfwd]
      exact List.mem_cons_self
    have hrest : rest.Sublist s.fwd := by rw [hfwd]; exact List.sublist_cons_self _ _
    have hsub := hf.sublist hrest
    refine ⟨hsub.near, hsub.blocks, fun e => ?_, fun e => absurd e hsend, fun e => absurd e hsend⟩
    rcases e with e | e
    · exact hsub.current (.inl e)
    · cases e
  | loseFwd fwd hsub => exact hf.sublist hsub
  | _ => exact hf

theorem Inv.reverse_step : Reverse m t.acked t.taken final t.rev.reduceOption := by
  have hr := hs.reverse
  have hacked := hs.counts.acked_le
  have htaken := hs.counts.taken_le
  have hlength := hs.counts.added_le_length
  cases h with
  | ack q rest _ hrev =>
    rw [hrev, List.reduceOption_cons_of_some] at hr
    exact hr.ack
  | deliver hhold =>
    have hlt := hs.counts.holding_lt hhold
    rw [List.reduceOption_append, List.reduceOption_singleton, Option.toList_some]
    exact hr.append (Nat.le_succ _) (by omega) (Nat.lt_succ_self _)
      (fun a ha => (hr.near a ha).2.le) (fun _ => ⟨by omega, by omega⟩)
  | ackAgain hwait hpos =>
    -- a receiver that waits has not taken the flagged final packet
    have hne : final = true → s.taken ≠ m := by
      intro hfin hm
      rcases hs.phases.closes hfin hpos hm with e | e <;> rw [hwait] at e <;> cases e
    rw [List.reduceOption_append, List.reduceOption_singleton, Option.toList_some]
    exact hr.append le_rfl (by omega) (Nat.sub_lt hpos Nat.one_pos)
      (fun a ha => by have := (hr.near a ha).2; omega)
      (fun hfin => ⟨by have := hne hfin; omega, fun e => hne hfin (by omega)⟩)
  | loseRev rev hsub => exact hr.sublist hsub
  | _ => exact hr

theorem Inv.phases_step : Phases m t.acked t.taken final t.sender t.receiver := by
  have hp := hs.phases
  cases h with
  | ack q rest hsend =>
    exact ⟨hp.received, hp.closes, fun e => absurd hsend e, hp.left, hp.byDatagram⟩
  | finish _ hm =>
    exact ⟨hp.received, hp.closes, fun _ => hm, fun _ e => (by cases e), fun _ e => (by cases e)⟩
  | leave b hclosing hby =>
    have hm : s.acked = m := hp.finished (by rw [hclosing]; exact fun e => by cases e)
    refine ⟨hp.received, hp.closes, fun _ => hm, fun _ e => (by cases e), fun hfin e => ?_⟩
    obtain rfl : b = true := by simpa using e
    rcases hby rfl with hl | hne
    · exact hl
    · exact absurd (hs.reverse.none_left hfin hm) hne
  | accept rest hwait =>
    refine ⟨fun e => ?_, fun h1 h2 h3 => ?_, hp.finished, fun e => (by cases e), fun h1 h2 => ?_⟩
    · rcases e with e | e <;> cases e
    · rcases hp.closes h1 h2 h3 with e | e <;> rw [hwait] at e <;> cases e
    · have hleft := hp.byDatagram h1 h2
      rw [hwait] at hleft
      cases hleft
  | deliver hhold =>
    have hleft : (if final = true ∧ s.taken + 1 = m then ReceiverSide.closing else .waiting) ≠
        .left := by split_ifs <;> exact fun e => by cases e
    refine ⟨fun e => ?_, fun h1 _ h2 => .inl (if_pos ⟨h1, h2⟩), hp.finished,
      fun e => absurd e hleft, fun h1 h2 => ?_⟩
    · rcases e with e | e
      · dsimp only at e
        split_ifs at e with hfin
        exact ⟨hfin.1, hfin.2, Nat.succ_pos _⟩
      · exact absurd e hleft
    · have hbefore := hp.byDatagram h1 h2
      rw [hhold] at hbefore
      cases hbefore
  | closeReceived rest hclosing hfwd =>
    have hreceived := hp.received (.inl hclosing)
    refine ⟨fun _ => hreceived, fun _ _ _ => .inr rfl, hp.finished, fun _ e => ?_, fun _ _ => rfl⟩
    refine hs.forward.noClose e (.inl hreceived.2.2) ?_
    rw [hfwd]
    exact List.mem_cons_self
  | _ => exact hp

/-- The step lemma. -/
theorem Inv.step : Inv n m final t :=
  ⟨hs.pos, hs.counts_step h, hs.forward_step h, hs.reverse_step h, hs.phases_step h⟩

end Steps

/-- The invariant holds along every run. -/
theorem inv (hn : 0 < n) (h : (transfer n m final).Reachable s) : Inv n m final s :=
  h.invariant (fun _ h₀ => h₀.inv hn) fun _ _ _ ha hab => ha.step hab

/-! ### What the readers rely on -/

/-- A data packet in flight is less than two windows away from the one the receiver waits for. -/
theorem Inv.fwd_near (h : Inv n m final s) {j : ℕ} (hj : some j ∈ s.fwd) :
    j < s.taken + 2 * n ∧ s.taken < j + 2 * n := by
  have hn := h.pos
  have h1 := h.counts.base_le
  have h2 := h.counts.acked_le
  have h3 := h.counts.taken_le
  have h4 := h.counts.added_le
  have h5 := h.forward.near j hj
  rcases Nat.lt_or_ge s.base s.taken with hlt | hge
  · have := h.forward.current (.inl hlt) j hj
    omega
  · omega

/-- An acknowledgement in flight is of the sender's window or of the packet before it. -/
theorem Inv.rev_near (h : Inv n m final s) {q : ℕ} (hq : some q ∈ s.rev) :
    s.base ≤ q + 1 ∧ q < s.base + n := by
  have h1 := h.counts.base_le
  have h2 := h.counts.taken_le
  have h3 := h.counts.added_le
  have h4 := h.reverse.near q (List.reduceOption_mem_iff.2 hq)
  omega

/-! ### Without the last acknowledgement -/

/-- The receiver has taken the flagged final packet and closes, its only acknowledgement has not
reached the sender, and it is not in flight. -/
structure Wedged (m : ℕ) (s : Config) : Prop where
  sender : s.sender = .transmitting
  receiver : s.receiver = .closing
  acked : s.acked < m
  lost : ∀ q ∈ s.rev.reduceOption, q + 1 < m

/-- Nothing leads out of such a configuration. -/
theorem Wedged.step (h : Wedged m s) (hs : Inv n m final s) (hstep : Step n m final s t) :
    Wedged m t := by
  obtain ⟨hsender, hreceiver, hacked, hlost⟩ := h
  cases hstep with
  | add => exact ⟨hsender, hreceiver, hacked, hlost⟩
  | shift => exact ⟨hsender, hreceiver, hacked, hlost⟩
  | send => exact ⟨hsender, hreceiver, hacked, hlost⟩
  | ack q rest _ hrev =>
    rw [hrev, List.reduceOption_cons_of_some] at hlost
    exact ⟨hsender, hreceiver, max_lt hacked (hlost q List.mem_cons_self),
      fun a ha => hlost a (List.mem_cons_of_mem q ha)⟩
  | finish _ hm => exact absurd hm hacked.ne
  | sendClose hclosing => rw [hsender] at hclosing; cases hclosing
  | leave b hclosing => rw [hsender] at hclosing; cases hclosing
  | accept rest hwait => rw [hreceiver] at hwait; cases hwait
  | deliver hhold => rw [hreceiver] at hhold; cases hhold
  | ackAgain hwait => rw [hreceiver] at hwait; cases hwait
  | closeReceived rest _ hfwd =>
    have hpos := (hs.phases.received (.inl hreceiver)).2.2
    refine absurd ?_ (hs.forward.noClose hsender (.inl hpos))
    rw [hfwd]
    exact List.mem_cons_self
  | loseFwd => exact ⟨hsender, hreceiver, hacked, hlost⟩
  | loseRev rev hsub =>
    exact ⟨hsender, hreceiver, hacked, fun q hq => hlost q (hsub.mem hq)⟩

theorem Wedged.reaches (h : Wedged m s) (hs : (transfer n m final).Reachable s) (hn : 0 < n)
    (hreach : (transfer n m final).Reaches s t) : Wedged m t :=
  hreach.invariant hs h fun _ _ ha hw hab => hw.step (inv hn ha) hab

end Tcp118.Protocol
