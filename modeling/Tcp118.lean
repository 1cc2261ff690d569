import Tcp118.Library.Cyclic
import Tcp118.Library.EndAroundCarry
import Tcp118.Library.LastWrite
import Tcp118.Library.Runs
import Tcp118.Library.StaleFront
import Tcp118.Library.StepSystem
import Tcp118.Packet.Basic
import Tcp118.Packet.Bytes
import Tcp118.Packet.Checksum
import Tcp118.Packet.Detection
import Tcp118.Packet.Fields
import Tcp118.Packet.InternetChecksum
import Tcp118.Packet.LongerBuffer
import Tcp118.Packet.Reassembly
import Tcp118.Packet.Segmentation
import Tcp118.Packet.Setters
import Tcp118.Protocol.Basic
import Tcp118.Protocol.Drained
import Tcp118.Protocol.Invariant
import Tcp118.Session.Answer
import Tcp118.Session.Basic
import Tcp118.Session.Copies
import Tcp118.Session.Delivery
import Tcp118.Session.Finish
import Tcp118.Session.Lift
import Tcp118.Session.Link
import Tcp118.Session.Service
import Tcp118.Session.Sides
import Tcp118.Session.Stages
import Tcp118.Session.Transfer
import Tcp118.Transport.AckOrder
import Tcp118.Transport.Basic
import Tcp118.Transport.CloseAck
import Tcp118.Transport.Completion
import Tcp118.Transport.Corruption
import Tcp118.Transport.Datagrams
import Tcp118.Transport.Delivery
import Tcp118.Transport.Ending
import Tcp118.Transport.Endpoints
import Tcp118.Transport.Events
import Tcp118.Transport.Files
import Tcp118.Transport.FinalAck
import Tcp118.Transport.Garbled
import Tcp118.Transport.Idle
import Tcp118.Transport.InFlight
import Tcp118.Transport.Joint
import Tcp118.Transport.LastAccepted
import Tcp118.Transport.Leaving
import Tcp118.Transport.Message
import Tcp118.Transport.Paced
import Tcp118.Transport.Patient
import Tcp118.Transport.Payload
import Tcp118.Transport.Progress
import Tcp118.Transport.Receiver
import Tcp118.Transport.ReceiverWindow
import Tcp118.Transport.Recovery
import Tcp118.Transport.Refinement
import Tcp118.Transport.Retransmission
import Tcp118.Transport.Returns
import Tcp118.Transport.Sender
import Tcp118.Transport.SenderPasses
import Tcp118.Transport.SenderRuns
import Tcp118.Transport.SenderWindow
import Tcp118.Transport.Slots
import Tcp118.Transport.Steps
import Tcp118.Transport.Undisturbed
import Tcp118.Transport.Unexpected
import Tcp118.Window.Basic
import Tcp118.Window.Capacity
import Tcp118.Window.Cumulative
import Tcp118.Window.Flat
import Tcp118.Window.Indexed
import Tcp118.Window.Operations
import Tcp118.Window.Outstanding
import Tcp118.Window.PendingSearch
import Tcp118.Window.Shape
import Tcp118.Window.ShiftTest
import Tcp118.Window.Slots
