import Tcp118.Session.Delivery

/-!
# One client after another

The server goes on to the next request when it has answered one.  It takes its datagrams from
whoever sends them, and nothing keeps a client from starting while another one is not done; here
clients come one after another, each when the one before it has written its file.  The server may
still be leaving `writeTCP` then, and datagrams of the client before may be in flight to it.  What
the server goes on to send to that client is among what may be lost on the way to the new one.

* `Client`, `Setup.forClient`: what changes from one session to the next;
* `Service`, `ServiceEvent`, `Service.step`: the server and all its clients;
* `ServiceEvent.InTurn`, `serviceSystem`: the runs in which they come one after another;
* `Service.Sound`, `sound_of_reachable`: the session of every client is one of its own;
* `service_delivers`: every client that is done has been served once, in order;
* `service_serves_iff`: the clients that can all be served.
-/

namespace Tcp118

/-- A client: the name it is given, and the files of its machine. -/
structure Client where
  filename : CString
  clientFiles : Files

/-- The same server with another client. -/
def Setup.forClient (setup : Setup) (client : Client) : Setup :=
  { setup with filename := client.filename, clientFiles := client.clientFiles }

/-- A client that has come before: what its session was given, and what came of it. -/
structure Visit where
  setup : Setup
  session : Session

/-- The server with its present client, and the clients that have come before. -/
structure Service where
  setup : Setup
  session : Session
  earlier : List Visit

/-- The names the server has read from all its clients. -/
def Service.served (v : Service) : List CString :=
  (v.earlier.flatMap fun visit => visit.session.served) ++ v.session.served

/-- What happens next. -/
inductive ServiceEvent
  | session (event : SessionEvent)
  | newClient (client : Client) (heap : ℕ → Packet)

/-- A new client, which is in `call`, takes the place of the present one.  It has a socket of its
own: what is in flight to the present one does not come to it. -/
def Service.newClient (v : Service) (client : Client) (call : Call) : Service where
  setup := v.setup.forClient client
  session := { v.session with client := call, toClient := [], written := none, served := [] }
  earlier := v.earlier ++ [⟨v.setup, v.session⟩]

/-- What an event does, if it can happen. -/
def Service.step : ServiceEvent → Service → Option Service
  | .session event, v => (v.session.step v.setup event).map fun s => { v with session := s }
  | .newClient client heap, v =>
    (clientStart (v.setup.forClient client) heap).map (v.newClient client)

/-- A client starts when the one before it has written its file. -/
def ServiceEvent.InTurn : ServiceEvent → Service → Prop
  | .session _, _ => True
  | .newClient _ _, v => v.session.written ≠ none

/-- The start of the first session, with a server that has the clients' window. -/
structure Service.Initial (v : Service) : Prop where
  window : v.setup.cWnd = clientWnd
  session : v.session.Initial v.setup
  earlier : v.earlier = []

/-- The runs of the server with one client after another. -/
def serviceSystem : StepSystem Service :=
  .ofEvents Service.Initial Service.step ServiceEvent.InTurn

/-! ### Every session is one of its own -/

/-- A client that has come before is done, and has come there in a session. -/
structure Visit.Sound (visit : Visit) : Prop where
  window : visit.setup.cWnd = clientWnd
  reachable : (sessionSystem visit.setup).Reachable visit.session
  written : visit.session.written ≠ none

/-- The session of every client is one of its own, with the same server. -/
structure Service.Sound (v : Service) : Prop where
  window : v.setup.cWnd = clientWnd
  session : (sessionSystem v.setup).Reachable v.session
  earlier : ∀ visit ∈ v.earlier, visit.Sound ∧ visit.setup.serverFiles = v.setup.serverFiles

section Sound

variable {v v' : Service} {client : Client} {heap : ℕ → Packet} {call : Call}

/-- What a session leaves behind is the start of the next one. -/
theorem Service.Sound.initial (h : v.Sound) (hwritten : v.session.written ≠ none)
    (hstart : clientStart (v.setup.forClient client) heap = some call) :
    (v.newClient client call).session.Initial (v.newClient client call).setup := by
  obtain ⟨hserver, haborted, htoServer, -⟩ := between_of_written h.window h.session hwritten
  rw [← h.window] at hserver
  exact ⟨⟨heap, hstart⟩, hserver, htoServer, rfl, rfl, haborted, rfl⟩

theorem Service.Sound.step (h : v.Sound) (hstep : serviceSystem.step v v') : v'.Sound := by
  obtain ⟨event, hallowed, hstep⟩ := hstep
  cases event with
  | session event =>
    obtain ⟨s, hs, rfl⟩ := Option.map_eq_some_iff.1 hstep
    exact ⟨h.window, h.session.tail ⟨event, trivial, hs⟩, h.earlier⟩
  | newClient client heap =>
    obtain ⟨call, hstart, rfl⟩ := Option.map_eq_some_iff.1 hstep
    have hwritten : v.session.written ≠ none := hallowed
    refine ⟨h.window, .of_init (h.initial hwritten hstart), fun visit hvisit => ?_⟩
    rcases List.mem_append.1 hvisit with hold | hnew
    · exact h.earlier visit hold
    · rw [List.mem_singleton.1 hnew]
      exact ⟨⟨h.window, h.session, hwritten⟩, rfl⟩

theorem sound_of_reachable (h : serviceSystem.Reachable v) : v.Sound := by
  refine h.invariant (I := Service.Sound) (fun v₀ hinit => ?_) fun a b _ ha hstep => ha.step hstep
  refine ⟨hinit.window, .of_init hinit.session, fun visit hvisit => ?_⟩
  rw [hinit.earlier] at hvisit
  exact absurd hvisit List.not_mem_nil

theorem Visit.Sound.served {visit : Visit} (h : visit.Sound) :
    visit.session.served = [visit.setup.filename] := by
  obtain ⟨files, hsome⟩ := Option.ne_none_iff_exists'.1 h.written
  exact (delivered_of_written h.window h.reachable hsome).served

end Sound

/-! ### What is delivered -/

section Delivers

variable {v : Service}

/-- The names that have been read from the clients that are done. -/
theorem flatMap_served {visits : List Visit} (h : ∀ visit ∈ visits, visit.Sound) :
    (visits.flatMap fun visit => visit.session.served) =
      visits.map fun visit => visit.setup.filename := by
  induction visits with
  | nil => rfl
  | cons visit visits ih =>
    rw [List.forall_mem_cons] at h
    rw [List.flatMap_cons, ih h.2, h.1.served, List.map_cons]
    rfl

/-- In a session the server has read no name, or the one of the client. -/
theorem served_of_reachable {setup : Setup} {s : Session} (hwindow : setup.cWnd = clientWnd)
    (h : (sessionSystem setup).Reachable s) : s.served = [] ∨ s.served = [setup.filename] := by
  cases stage_of_reachable hwindow h with
  | requesting J hJ hstage => exact .inl hstage.served
  | responding buf J hanswer hJ hstage => exact .inr hstage.served
  | unanswered hanswer hstage => exact .inr hstage.served

end Delivers

/-! ### Who can be served -/

section Serves

variable {v : Service}

/-- Runs of a session are runs of the service. -/
theorem reaches_of_session {s : Session} (h : (sessionSystem v.setup).Reaches v.session s) :
    serviceSystem.Reaches v { v with session := s } := by
  obtain ⟨v', hv', rfl⟩ := h.carry (N := serviceSystem)
    (R := fun s v' => v' = { v with session := s }) rfl <| by
      rintro a b _ rfl ⟨event, -, hstep⟩
      have hnext : Service.step (.session event) { v with session := a } =
          some { v with session := b } := by
        rw [Service.step, hstep, Option.map_some]
      exact ⟨_, .single ⟨.session event, trivial, hnext⟩, rfl⟩
  exact hv'

/-- The clients that have come so far. -/
def Service.clients (v : Service) : List Setup := v.earlier.map Visit.setup ++ [v.setup]

/-- Clients that can be answered can be served one after another. -/
theorem reaches_serves (h : v.Sound) (hinit : v.session.Initial v.setup)
    (hanswerable : v.setup.Answerable) (clients : List Client)
    (hclients : ∀ client ∈ clients, (v.setup.forClient client).Answerable) :
    ∃ t, serviceSystem.Reaches v t ∧ t.session.written ≠ none ∧
      t.clients = v.clients ++ clients.map v.setup.forClient := by
  obtain ⟨s, hreach, hwritten⟩ := (hinit.canFinish_iff h.window).2 hanswerable
  have hdone : serviceSystem.Reaches v { v with session := s } := reaches_of_session hreach
  induction clients generalizing v s with
  | nil =>
    refine ⟨_, hdone, hwritten, ?_⟩
    rw [List.map_nil, List.append_nil]
    rfl
  | cons client clients ih =>
    rw [List.forall_mem_cons] at hclients
    obtain ⟨hanswerable', hrest⟩ := hclients
    have hsound : Service.Sound { v with session := s } :=
      ⟨h.window, h.session.trans hreach, h.earlier⟩
    obtain ⟨call, hstart⟩ : ∃ call, clientStart (v.setup.forClient client)
        (fun _ => zeroPacket) = some call := ⟨_, clientStart_of_le hanswerable'.1 _⟩
    have hstep : serviceSystem.step { v with session := s }
        (Service.newClient { v with session := s } client call) := by
      refine ⟨.newClient client fun _ => zeroPacket, hwritten, ?_⟩
      rw [Service.step, hstart, Option.map_some]
    have hinit' := hsound.initial hwritten hstart
    have hsound' := hsound.step hstep
    obtain ⟨s', hreach', hwritten'⟩ := (hinit'.canFinish_iff hsound'.window).2 hanswerable'
    obtain ⟨t, htreach, htwritten, htclients⟩ := ih hsound' hinit' hanswerable' hrest s' hreach'
      hwritten' (reaches_of_session hreach')
    refine ⟨t, (hdone.trans (.single hstep)).trans htreach, htwritten, ?_⟩
    rw [htclients, List.map_cons]
    simp only [Service.clients, Service.newClient, List.map_append, List.map_cons, List.map_nil,
      List.append_assoc, List.cons_append, List.nil_append]
    rfl

/-- The service of the two letters. -/
def startOfService : Service := ⟨letterSetup, startOfSession, []⟩

theorem startOfService_initial : startOfService.Initial := ⟨rfl, startOfSession_initial, rfl⟩

/-- The same client again. -/
def letterClient : Client := ⟨letterSetup.filename, letterSetup.clientFiles⟩

/-- **Who can be served.**  The server can serve the clients of a list one after another exactly if
each of them can be answered. -/
theorem service_serves_iff (h : v.Initial) (clients : List Client) :
    (∃ t, serviceSystem.Reaches v t ∧ t.session.written ≠ none ∧
      t.clients = v.setup :: clients.map v.setup.forClient) ↔
    v.setup.Answerable ∧ ∀ client ∈ clients, (v.setup.forClient client).Answerable := by
  have hstart : v.clients = [v.setup] := by
    rw [Service.clients, h.earlier]
    rfl
  constructor
  · rintro ⟨t, hreach, hwritten, hclients⟩
    have ht : t.Sound := sound_of_reachable (.trans (.of_init h) hreach)
    have hall : ∀ setup ∈ t.clients, setup.Answerable := by
      intro setup hsetup
      rcases List.mem_append.1 hsetup with hold | hnew
      · obtain ⟨visit, hvisit, rfl⟩ := List.mem_map.1 hold
        have hsound := (ht.earlier visit hvisit).1
        exact answerable_of_written hsound.window hsound.reachable hsound.written
      · rw [List.mem_singleton.1 hnew]
        exact answerable_of_written ht.window ht.session hwritten
    rw [hclients, List.forall_mem_cons, List.forall_mem_map] at hall
    exact hall
  · rintro ⟨hanswerable, hclients⟩
    obtain ⟨t, hreach, hwritten, hall⟩ := reaches_serves (sound_of_reachable (.of_init h))
      h.session hanswerable clients hclients
    exact ⟨t, hreach, hwritten, by rw [hall, hstart]; rfl⟩

theorem service_serves_letters :
    (∃ t, serviceSystem.Reaches startOfService t ∧ t.session.written ≠ none ∧
      t.clients = letterSetup :: [letterClient].map letterSetup.forClient) ↔
    letterSetup.Answerable ∧
      ∀ client ∈ [letterClient], (letterSetup.forClient client).Answerable :=
  service_serves_iff startOfService_initial [letterClient]

/-- **Every client is served once.**  In every run of the server with clients one after another, it
has read the names of those that are done, in their order, and at most that of the present one;
and what each of those has written is its copy of the server's file. -/
theorem service_delivers (h : serviceSystem.Reachable v) :
    (v.served = v.earlier.map (fun visit => visit.setup.filename) ∨
      v.served = v.earlier.map (fun visit => visit.setup.filename) ++ [v.setup.filename]) ∧
    ∀ visit ∈ v.earlier, visit.setup.serverFiles = v.setup.serverFiles ∧
      ∃ files, visit.session.written = some files ∧
        visit.session.Delivered visit.setup files := by
  have hsound := sound_of_reachable h
  refine ⟨?_, fun visit hvisit => ?_⟩
  · rw [Service.served, flatMap_served fun visit hvisit => (hsound.earlier visit hvisit).1]
    rcases served_of_reachable hsound.window hsound.session with hnone | hone
    · left
      rw [hnone, List.append_nil]
    · right
      rw [hone]
  · obtain ⟨hvisit', hfiles⟩ := hsound.earlier visit hvisit
    obtain ⟨files, hsome⟩ := Option.ne_none_iff_exists'.1 hvisit'.written
    exact ⟨hfiles, files, hsome, delivered_of_written hvisit'.window hvisit'.reachable hsome⟩

/-- When the second client is done. -/
theorem service_delivers_letters :
    ∃ v, serviceSystem.Reachable v ∧ v.earlier.length = 1 ∧
      (v.served = v.earlier.map (fun visit => visit.setup.filename) ∨
        v.served = v.earlier.map (fun visit => visit.setup.filename) ++ [v.setup.filename]) ∧
      ∀ visit ∈ v.earlier, visit.setup.serverFiles = v.setup.serverFiles ∧
        ∃ files, visit.session.written = some files ∧
          visit.session.Delivered visit.setup files := by
  obtain ⟨t, hreach, -, hclients⟩ := reaches_serves (sound_of_reachable (.of_init
    startOfService_initial)) startOfSession_initial letterSetup_answerable [letterClient]
    fun client h => by
      rw [List.mem_singleton.1 h]
      exact letterSetup_answerable
  have ht : serviceSystem.Reachable t := .trans (.of_init startOfService_initial) hreach
  have hlength := congrArg List.length hclients
  simp only [Service.clients, List.length_append, List.length_map, List.length_cons,
    List.length_nil] at hlength
  exact ⟨t, ht, Nat.add_right_cancel hlength, service_delivers ht⟩

end Serves

end Tcp118
