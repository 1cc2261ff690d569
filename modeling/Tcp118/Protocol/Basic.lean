import Tcp118.Library.StepSystem
import Mathlib.Data.List.ReduceOption

/-!
# The transfer with packet numbers instead of sequence numbers

What one transfer is for: the sender moves the packets `0, …, m - 1` through a window of `n`
packets that it shifts as a whole, the receiver takes them one after the other, and each side
closes.  A datagram in flight is `some j`, for the data packet `j` or for the acknowledgement of
the packets up to `j`, or `none`, which stands for a close packet or a zeroed one.

* `Config`: the counters and phases of both sides and the two channels;
* `Step`: what each side and the network can do;
* `transfer`: the step system; a transfer starts with no data and no acknowledgement in flight.

The datagrams carry the numbers themselves, so nothing can be taken for something else here.
-/

namespace Tcp118.Protocol

/-- Where the sender is; it leaves because of a datagram or because nothing arrives. -/
inductive SenderSide
  | transmitting
  | closing
  | left (byDatagram : Bool)
  deriving DecidableEq

/-- Where the receiver is: `holding` a packet that it has accepted and not yet delivered. -/
inductive ReceiverSide
  | waiting
  | holding
  | closing
  | left
  deriving DecidableEq

/-- A joint configuration.  The packets before `base` have been shifted out of the sender's
window, those before `acked` have been acknowledged, those before `added` have been added; those
before `taken` have been delivered by the receiver. -/
structure Config where
  base : ℕ
  acked : ℕ
  added : ℕ
  sender : SenderSide
  taken : ℕ
  receiver : ReceiverSide
  fwd : List (Option ℕ)
  rev : List (Option ℕ)

/-- The steps of a transfer of `m` packets, the last of which is flagged if `final`. -/
inductive Step (n m : ℕ) (final : Bool) : Config → Config → Prop
  | add {s : Config} : s.sender = .transmitting → s.added < m → s.added < s.base + n →
      Step n m final s { s with added := s.added + 1 }
  | shift {s : Config} : s.sender = .transmitting → s.acked = s.base + n →
      Step n m final s { s with base := s.base + n }
  | send {s : Config} (j : ℕ) : s.sender = .transmitting → s.acked ≤ j → j < s.added →
      Step n m final s { s with fwd := s.fwd ++ [some j] }
  | ack {s : Config} (q : ℕ) (rest : List (Option ℕ)) : s.sender = .transmitting →
      s.rev = some q :: rest → s.base ≤ q → q < s.added →
      Step n m final s { s with acked := max s.acked (q + 1), rev := rest }
  | finish {s : Config} : s.sender = .transmitting → s.acked = m →
      Step n m final s { s with sender := .closing }
  | sendClose {s : Config} : s.sender = .closing →
      Step n m final s { s with fwd := s.fwd ++ [none] }
  | leave {s : Config} (byDatagram : Bool) : s.sender = .closing →
      (byDatagram = true → s.receiver = .left ∨ s.rev.reduceOption ≠ []) →
      Step n m final s { s with sender := .left byDatagram }
  | accept {s : Config} (rest : List (Option ℕ)) : s.receiver = .waiting →
      s.fwd = some s.taken :: rest →
      Step n m final s { s with receiver := .holding, fwd := rest }
  | deliver {s : Config} : s.receiver = .holding →
      Step n m final s
        { s with
          taken := s.taken + 1
          receiver := if final = true ∧ s.taken + 1 = m then .closing else .waiting
          rev := s.rev ++ [some s.taken] }
  | ackAgain {s : Config} : s.receiver = .waiting → 0 < s.taken →
      Step n m final s { s with rev := s.rev ++ [some (s.taken - 1)] }
  | closeReceived {s : Config} (rest : List (Option ℕ)) : s.receiver = .closing →
      s.fwd = none :: rest → Step n m final s { s with receiver := .left, fwd := rest }
  | loseFwd {s : Config} (fwd : List (Option ℕ)) : fwd.Sublist s.fwd →
      Step n m final s { s with fwd := fwd }
  | loseRev {s : Config} (rev : List (Option ℕ)) :
      rev.reduceOption.Sublist s.rev.reduceOption → Step n m final s { s with rev := rev }

/-- A transfer starts with nothing but close packets in flight. -/
structure Initial (s : Config) : Prop where
  base : s.base = 0
  acked : s.acked = 0
  added : s.added = 0
  sender : s.sender = .transmitting
  taken : s.taken = 0
  receiver : s.receiver = .waiting
  fwd : ∀ e ∈ s.fwd, e = none
  rev : ∀ e ∈ s.rev, e = none

/-- The step system of a transfer. -/
def transfer (n m : ℕ) (final : Bool) : StepSystem Config := ⟨Initial, Step n m final⟩

theorem Step.reaches {n m : ℕ} {final : Bool} {s t : Config} (h : Step n m final s t) :
    (transfer n m final).Reaches s t := StepSystem.Reaches.single h

end Tcp118.Protocol
