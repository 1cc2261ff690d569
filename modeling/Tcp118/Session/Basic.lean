import Tcp118.Transport.Endpoints
import Tcp118.Transport.Files
import Tcp118.Transport.Idle
import Tcp118.Transport.Leaving

/-!
# `client.c` and `server.c`

The client copies the name of a file into a buffer, sends it with `writeTCP`, reads the answer with
`readTCP`, and writes it to a file.  The server reads a name with `readTCP`, reads the file, sends
it with `writeTCP` if there is anything to send, and starts again.  Each program has one socket, and
its calls take whatever arrives there, one after the other.

* `Setup`: what a session is given;
* `Call`, `Call.step`, `Call.recv`: the call a program is in, a step of it, and the return of its
  `recvfrom`;
* `Setup.copyName`, `clientStart`: what the client does before its first call;
* `Session`, `clientNext`, `serverNext`: both programs, what is in flight between them, and what
  the programs do behind a call;
* `SessionEvent`, `Session.step`: what happens next;
* `Call.Between`: a program between two transfers;
* `Session.Initial`, `sessionSystem`: the runs of a session.

A session starts with a new client.  Of an earlier one the server may still be closing, and there
may be datagrams in flight that `readTCP` ignores.  What the programs print is not modelled.
-/

namespace Tcp118

/-! ### Strings -/

/-- A C string: the bytes before its terminating zero. -/
structure CString where
  chars : List UInt8
  noZero : (0 : UInt8) ∉ chars

/-- The string that starts at an address, given the memory from there on. -/
def stringAt (mem : List UInt8) : CString where
  chars := mem.takeWhile (· ≠ 0)
  noZero := fun h => by simpa using List.mem_takeWhile_imp h

/-- The `strlen(s) + 1` bytes of a string. -/
def CString.bytes (s : CString) : List UInt8 := s.chars ++ [0]

theorem CString.ext_chars {s t : CString} (h : s.chars = t.chars) : s = t := by
  obtain ⟨chars, noZero⟩ := s
  cases h
  rfl

/-- The string is found where its bytes are. -/
theorem stringAt_bytes (s : CString) (rest : List UInt8) : stringAt (s.bytes ++ rest) = s := by
  apply CString.ext_chars
  have hall : ∀ b ∈ s.chars, decide (b ≠ 0) = true := fun b hb =>
    decide_eq_true fun e => s.noZero (e ▸ hb)
  change (s.chars ++ [0] ++ rest).takeWhile (· ≠ 0) = s.chars
  rw [List.append_assoc, List.takeWhile_append_of_pos hall]
  simp

/-! ### The calls -/

/-- The call a program is in. -/
inductive Call
  | writeTCP (pkts : List Packet) (S : Sender)
  | readTCP (R : Receiver)

def Call.step (lost corr : Bool) (behind heap : List UInt8) : Call → Option (Call × Option Packet)
  | .writeTCP pkts S => (senderStep pkts lost corr S).map fun r => (.writeTCP pkts r.1, r.2)
  | .readTCP R => (receiverStep lost corr behind heap R).map fun r => (.readTCP r.1, r.2)

def Call.recv (stack : Packet) (recv : Option Datagram) : Call → Option Call
  | .writeTCP pkts S => (senderRecv stack recv S).map (.writeTCP pkts)
  | .readTCP R => (receiverRecv stack recv R).map .readTCP

/-- `writeTCP` has returned. -/
def Sender.returned (S : Sender) : Bool :=
  match S.phase with
  | .exited _ => true
  | _ => false

/-! ### The two programs -/

/-- `MAX_FILE_SIZE`. -/
def maxFileSize : ℕ := 1000000

/-- The name the client is given, the files of the two machines, and the window the server is
given. -/
structure Setup where
  filename : CString
  clientFiles : Files
  serverFiles : Files
  cWnd : ℕ

/-- `BUFLEN`. -/
def bufLen : ℕ := 1024

/-- `buf` of `client.c`: zeroed, with the characters of the name copied into it.  A name that is too
long for it is written over what lies behind, and nothing is said of what the client does then. -/
def Setup.copyName (setup : Setup) : Option (List UInt8) :=
  if setup.filename.chars.length ≤ bufLen then
    some (setup.filename.chars ++ List.replicate (bufLen - setup.filename.chars.length) 0)
  else none

/-- The packets of the client's `writeTCP`. -/
def Setup.requestPackets (setup : Setup) : List Packet :=
  sentPackets setup.filename.bytes clientWnd

/-- `client.c` up to its call of `writeTCP`; `heap` is the memory that the window is allocated in.
-/
def clientStart (setup : Setup) (heap : ℕ → Packet) : Option Call :=
  setup.copyName.map fun _ => .writeTCP setup.requestPackets (senderInit clientWnd heap)

/-- `"rcv_"`, followed by the name. -/
def Setup.rcvFilename (setup : Setup) : List UInt8 :=
  [114, 99, 118, 95] ++ setup.filename.chars

/-- Both programs and the datagrams in flight, first in, first out.  `written` are the client's
files behind `writeFile`, `aborted` says that an assertion of the server has failed, and the names
the server has read, `served`, are no variable of the source. -/
structure Session where
  client : Call
  server : Call
  toServer : List Packet
  toClient : List Packet
  written : Option Files
  aborted : Bool
  served : List CString

/-- `client.c` behind a call; `heap` is the memory that the window of `readTCP` is allocated in.
The buffer that `readTCP` returns is never null. -/
def clientNext (setup : Setup) (heap : ℕ → Packet) (s : Session) : Option Session :=
  match s.client with
  | .writeTCP _ S =>
    if S.returned then some { s with client := .readTCP (receiverInit clientWnd heap) } else none
  | .readTCP R =>
    if R.phase = .exited ∧ s.written.isNone then
      (writeFile setup.clientFiles setup.rcvFilename (some R.message.msgBody)
        R.message.msgLen).map fun r => { s with written := some r.1 }
    else none

/-- `server.c` when it has read a file name: `fileBuf` is what its buffer holds before, `heap` the
memory that the window of the next call is allocated in. -/
def Session.answered (setup : Setup) (s : Session) (fileName : CString) (fileBuf : List UInt8)
    (heap : ℕ → Packet) : Session :=
  match readFile setup.serverFiles fileName.chars (some fileBuf) maxFileSize with
  | none => { s with aborted := true, served := s.served ++ [fileName] }
  | some (fileBuf, fbytesread) =>
    { s with
      server :=
        if fbytesread > 0 then
          .writeTCP (packetsOf fileBuf setup.cWnd (u32 fbytesread.toNat))
            (senderInit setup.cWnd heap)
        else .readTCP (receiverInit setup.cWnd heap)
      served := s.served ++ [fileName] }

/-- `server.c` behind a call; `rest` is what lies behind `msgBody`. -/
def serverNext (setup : Setup) (rest fileBuf : List UInt8) (heap : ℕ → Packet) (s : Session) :
    Option Session :=
  match s.server with
  | .readTCP R =>
    if R.phase = .exited ∧ s.aborted = false then
      some (s.answered setup (stringAt (R.message.msgBody ++ rest)) fileBuf heap)
    else none
  | .writeTCP _ S =>
    if S.returned then some { s with server := .readTCP (receiverInit setup.cWnd heap) } else none

/-! ### The session -/

/-- What the network does to a datagram: it drops it, or it zeroes an acknowledgement or a close
packet. -/
inductive Fault
  | drop (i : ℕ)
  | zero (i : ℕ)

def Fault.apply : Fault → List Packet → Option (List Packet)
  | .drop i, channel => if i < channel.length then some (channel.eraseIdx i) else none
  | .zero i, channel => zeroAt channel i

/-- What happens next. -/
inductive SessionEvent
  | client (lost corr : Bool) (behind heap : List UInt8)
  | clientRecv (stack : Packet)
  | clientTimeout (stack : Packet)
  | clientNext (heap : ℕ → Packet)
  | server (lost corr : Bool) (behind heap : List UInt8)
  | serverRecv (stack : Packet)
  | serverTimeout (stack : Packet)
  | serverNext (rest fileBuf : List UInt8) (heap : ℕ → Packet)
  | faultToServer (fault : Fault)
  | faultToClient (fault : Fault)

/-- What an event does to a session, if it can happen there. -/
def Session.step (setup : Setup) : SessionEvent → Session → Option Session
  | .client lost corr behind heap, s =>
    (s.client.step lost corr behind heap).map fun r =>
      { s with client := r.1, toServer := s.toServer ++ r.2.toList }
  | .clientRecv stack, s =>
    match s.toClient with
    | [] => none
    | pkt :: rest =>
      (s.client.recv stack (some (datagram pkt))).map fun c =>
        { s with client := c, toClient := rest }
  | .clientTimeout stack, s => (s.client.recv stack none).map fun c => { s with client := c }
  | .clientNext heap, s => Tcp118.clientNext setup heap s
  | .server lost corr behind heap, s =>
    (s.server.step lost corr behind heap).map fun r =>
      { s with server := r.1, toClient := s.toClient ++ r.2.toList }
  | .serverRecv stack, s =>
    match s.toServer with
    | [] => none
    | pkt :: rest =>
      (s.server.recv stack (some (datagram pkt))).map fun c =>
        { s with server := c, toServer := rest }
  | .serverTimeout stack, s => (s.server.recv stack none).map fun c => { s with server := c }
  | .serverNext rest fileBuf heap, s => Tcp118.serverNext setup rest fileBuf heap s
  | .faultToServer fault, s =>
    (fault.apply s.toServer).map fun channel => { s with toServer := channel }
  | .faultToClient fault, s =>
    (fault.apply s.toClient).map fun channel => { s with toClient := channel }

/-- A sender behind its transmission loop. -/
structure Sender.Leaving (S : Sender) : Prop where
  side : S.side ≠ .transmitting
  counting : S.Counting

/-- A program between two transfers: it is leaving `writeTCP`, or its `readTCP` has received
nothing. -/
inductive Call.Between (W : ℕ) : Call → Prop
  | leaving {pkts : List Packet} {S : Sender} : S.Leaving → Between W (.writeTCP pkts S)
  | idle {R : Receiver} : R.Idle W → Between W (.readTCP R)

/-- A new client, and a server that has received nothing of it. -/
structure Session.Initial (setup : Setup) (s : Session) : Prop where
  client : ∃ heap, clientStart setup heap = some s.client
  server : s.server.Between setup.cWnd
  toServer : ∀ pkt ∈ s.toServer, Ignorable pkt
  toClient : s.toClient = []
  written : s.written = none
  aborted : s.aborted = false
  served : s.served = []

/-- The runs of a session. -/
def sessionSystem (setup : Setup) : StepSystem Session :=
  .ofEvents (Session.Initial setup) (Session.step setup) fun _ _ => True

end Tcp118
