import Tcp118.Session.Lift

/-!
# Which sessions finish

* `CanFinish`: the client may come to its end;
* `Requesting.run`, `Responding.run`: what a run of a session comes to;
* `Requesting.reaches_read`, `Responding.reaches_read`: a program that is leaving `writeTCP` may go
  on to its next `readTCP`;
* `Requesting.reaches_responding`: the server may come to send its answer;
* `Responding.canFinish_iff`, `Requesting.canFinish_iff`: stage by stage;
* `Setup.Answerable`, `Session.Initial.canFinish_iff`: the sessions that can finish;
* `session_may_fail`: no session is sure to finish.
-/

namespace Tcp118

open Protocol

/-- The client may come to its end. -/
def CanFinish (setup : Setup) (s : Session) : Prop :=
  ∃ t, (sessionSystem setup).Reaches s t ∧ t.written ≠ none

section Finish

variable {setup : Setup} {buf : List UInt8} {s t : Session} {J J' : Joint}

theorem canFinish_of_reaches (hreach : (sessionSystem setup).Reaches s t)
    (h : CanFinish setup t) : CanFinish setup s := by
  obtain ⟨u, htu, hwritten⟩ := h
  exact ⟨u, hreach.trans htu, hwritten⟩

/-- `writeFile` does not fail. -/
theorem exists_writeFile (files : Files) (name body : List UInt8) (n : ℕ) :
    ∃ r, writeFile files name (some body) n = some r := by
  unfold writeFile
  by_cases hw : files.writable name = true
  · exact ⟨_, if_pos hw⟩
  · exact ⟨_, if_neg hw⟩

/-- When `readTCP` of the client has returned, the client comes to its end. -/
theorem canFinish_of_exited {R : Receiver} (hclient : s.client = .readTCP R)
    (hphase : R.phase = .exited) : CanFinish setup s := by
  by_cases hwritten : s.written = none
  · obtain ⟨r, hr⟩ := exists_writeFile setup.clientFiles setup.rcvFilename R.message.msgBody
      R.message.msgLen
    exact ⟨_, (Session.Moves.wrote hclient hphase hwritten hr).reaches, Option.some_ne_none _⟩
  · exact ⟨s, .refl s, hwritten⟩

/-! ### Where `readTCP` can return -/

/-- A receiver that has received nothing can return exactly if the length of the buffer is no
multiple of `MAX_BODY_SIZE`. -/
theorem canReturn_of_idle_iff
    (hlen : (buf.length + (maxBodySize - 1)) / maxBodySize * packetSize < 2 ^ 31)
    (hJ : (transferSystem buf clientWnd).Reachable J) (hidle : J.receiver.Idle clientWnd) :
    CanReturn buf clientWnd J ↔ buf.length % maxBodySize ≠ 0 := by
  rw [show clientWnd = 1024 * 4 from rfl] at hJ ⊢
  rw [canReturn_iff_of_length (by norm_num) (by norm_num) (by norm_num) hlen hJ]
  refine and_iff_left (.inr (.inl (Receiver.receiving_iff.2 ?_)))
  obtain ⟨heap, phase, hR, hphase⟩ := hidle
  rw [hR]
  exact hphase

theorem canReturn_iff_of_idles
    (hlen : (buf.length + (maxBodySize - 1)) / maxBodySize * packetSize < 2 ^ 31)
    (hJ : (transferSystem buf clientWnd).Reachable J)
    (hJ' : (transferSystem buf clientWnd).Reachable J') (hidle : J.receiver.Idle clientWnd)
    (hidle' : J'.receiver.Idle clientWnd) :
    CanReturn buf clientWnd J ↔ CanReturn buf clientWnd J' :=
  (canReturn_of_idle_iff hlen hJ hidle).trans (canReturn_of_idle_iff hlen hJ' hidle').symm

theorem Later.canReturn
    (hlen : (buf.length + (maxBodySize - 1)) / maxBodySize * packetSize < 2 ^ 31)
    (hJ : (transferSystem buf clientWnd).Reachable J)
    (hJ' : (transferSystem buf clientWnd).Reachable J') (h : Later buf J J')
    (hreturn : CanReturn buf clientWnd J') : CanReturn buf clientWnd J := by
  rcases h with hreach | ⟨hidle, hidle'⟩
  · exact canReturn_of_reaches hreach hreturn
  · exact (canReturn_iff_of_idles hlen hJ hJ' hidle hidle').2 hreturn

/-! ### The answer -/

/-- A run while the server answers. -/
theorem Responding.run (hfits : setup.Fits) (hanswer : setup.answer = some buf)
    (hJ : (transferSystem buf clientWnd).Reachable J) (h : Responding setup buf s J)
    (hreach : (sessionSystem setup).Reaches s t) :
    ∃ J', (transferSystem buf clientWnd).Reachable J' ∧
      (CanReturn buf clientWnd J' → CanReturn buf clientWnd J) ∧ Responding setup buf t J' := by
  have hlen := countable_of_le (Setup.answer_eq_some hanswer).2.1
  refine hreach.keeps (I := fun t => ∃ J', (transferSystem buf clientWnd).Reachable J' ∧
    (CanReturn buf clientWnd J' → CanReturn buf clientWnd J) ∧ Responding setup buf t J')
    ⟨J, hJ, id, h⟩ ?_
  rintro a b ⟨J₁, hJ₁, hback, ha⟩ ⟨event, -, hstep⟩
  obtain ⟨J₂, hJ₂, hlater, hb⟩ := ha.step hfits hanswer hJ₁ (Session.moves_of_step hstep)
  exact ⟨J₂, hJ₂, fun hreturn => hback (hlater.canReturn hlen hJ₁ hJ₂ hreturn), hb⟩

/-- What the client has written, it has written when its `readTCP` had returned. -/
theorem Responding.exited_of_written (h : Responding setup buf s J) (hwritten : s.written ≠ none) :
    J.receiver.phase = .exited := by
  rcases h.written with hnone | ⟨hphase, -⟩
  · exact absurd hnone hwritten
  · exact hphase

/-- The client may go on to its `readTCP`. -/
theorem Responding.reaches_read (hJ : (transferSystem buf clientWnd).Reachable J)
    (h : Responding setup buf s J) :
    ∃ t J', (sessionSystem setup).Reaches s t ∧ (transferSystem buf clientWnd).Reachable J' ∧
      (J' = J ∨ J.receiver.Idle clientWnd ∧ J'.receiver.Idle clientWnd) ∧
      Responding setup buf t J' ∧ t.client = .readTCP J'.receiver ∧ t.server = s.server := by
  cases hclient : s.client with
  | readTCP R =>
    refine ⟨s, J, .refl s, hJ, .inl rfl, h, ?_, rfl⟩
    rcases h.transferring.far with hfar | ⟨⟨pkts, S, hfar, -⟩, -⟩
    · exact hfar
    · cases hfar.symm.trans hclient
  | writeTCP pkts S =>
    obtain ⟨S', hreturned, hreach, h₁⟩ := h.transferring.leave hclient
    have hmove : (s.withLink (Link.swap { s.link.swap with far := .writeTCP pkts S' })).Moves setup
        _ := .requested (fun _ => zeroPacket) rfl hreturned
    obtain ⟨J', hJ', ⟨hidle, hidle'⟩, h₂⟩ :=
      h₁.called (fun _ => zeroPacket) hJ rfl
    have hnone : s.written = none := by
      rcases h.written with hnone | ⟨hphase, -⟩
      · exact hnone
      · exact absurd hphase hidle.not_exited
    refine ⟨_, J', (reaches_of_swap hreach).trans hmove.reaches, hJ', .inr ⟨hidle, hidle'⟩,
      ⟨h₂, h.served, .inl hnone, h.aborted⟩, ?_, rfl⟩
    rcases h₂.far with hfar | ⟨⟨pkts, S, hfar, -⟩, -⟩
    · exact hfar
    · cases hfar

/-- While the server answers, the session can finish exactly if `readTCP` of the client can
return. -/
theorem Responding.canFinish_iff (hfits : setup.Fits) (hanswer : setup.answer = some buf)
    (hJ : (transferSystem buf clientWnd).Reachable J) (h : Responding setup buf s J) :
    CanFinish setup s ↔ CanReturn buf clientWnd J := by
  have hlen := countable_of_le (Setup.answer_eq_some hanswer).2.1
  constructor
  · rintro ⟨t, hreach, hwritten⟩
    obtain ⟨J', -, hback, ht⟩ := h.run hfits hanswer hJ hreach
    exact hback ⟨J', .refl J', ht.exited_of_written hwritten⟩
  · intro hreturn
    obtain ⟨t, J', hst, hJ', hsame, ht, hclient, -⟩ := h.reaches_read hJ
    have hreturn' : CanReturn buf clientWnd J' := by
      rcases hsame with rfl | ⟨hidle, hidle'⟩
      · exact hreturn
      · exact (canReturn_iff_of_idles hlen hJ hJ' hidle hidle').1 hreturn
    obtain ⟨L, J'', hL, -, hu, hphase⟩ := ht.transferring.lift_return hclient hreturn'
    exact canFinish_of_reaches (hst.trans (reaches_of_swap hL))
      (canFinish_of_exited (hu.far_of_exited hphase) hphase)

/-- And it may come to where it cannot. -/
theorem Responding.may_fail (hfits : setup.Fits) (hanswer : setup.answer = some buf)
    (hJ : (transferSystem buf clientWnd).Reachable J) (h : Responding setup buf s J)
    (hreading : J.Reading) :
    ∃ t, (sessionSystem setup).Reaches s t ∧ ¬ CanFinish setup t := by
  obtain ⟨t, J', hst, hJ', hsame, ht, hclient, -⟩ := h.reaches_read hJ
  have hreading' : J'.Reading := by
    rcases hsame with rfl | ⟨-, hidle'⟩
    · exact hreading
    · exact hidle'.not_exited
  obtain ⟨L, J'', hL, hJ'', hu, hno⟩ := ht.transferring.strand hJ' hclient hreading'
  refine ⟨_, hst.trans (reaches_of_swap hL), fun hfinish => hno ?_⟩
  have hwritten : t.written = none := by
    rcases ht.written with hnone | ⟨hphase, -⟩
    · exact hnone
    · exact absurd hphase hreading'
  have hresponding : Responding setup buf (t.withLink L.swap) J'' :=
    ⟨hu, ht.served, .inl hwritten, ht.aborted⟩
  exact (hresponding.canFinish_iff hfits hanswer (hJ'.trans hJ'')).1 hfinish

/-! ### The request -/

/-- The server may go on to its `readTCP`. -/
theorem Requesting.reaches_read (hfits : setup.Fits)
    (hJ : (transferSystem setup.filename.bytes clientWnd).Reachable J) (h : Requesting setup s J) :
    ∃ t J', (sessionSystem setup).Reaches s t ∧
      (transferSystem setup.filename.bytes clientWnd).Reachable J' ∧
      (J' = J ∨ J.receiver.Idle clientWnd ∧ J'.receiver.Idle clientWnd) ∧
      Requesting setup t J' ∧ t.server = .readTCP J'.receiver := by
  cases hserver : s.server with
  | readTCP R =>
    refine ⟨s, J, .refl s, hJ, .inl rfl, h, ?_⟩
    rcases h.transferring.far with hfar | ⟨⟨pkts, S, hfar, -⟩, -⟩
    · exact hfar
    · cases hfar.symm.trans hserver
  | writeTCP pkts S =>
    obtain ⟨S', hreturned, hreach, h₁⟩ := h.transferring.leave hserver
    have hmove : (s.withLink { s.link with far := .writeTCP pkts S' }).Moves setup _ :=
      .served (fun _ => zeroPacket) rfl hreturned
    rw [hfits.window] at hmove
    obtain ⟨J', hJ', ⟨hidle, hidle'⟩, h₂⟩ :=
      h₁.called (fun _ => zeroPacket) hJ rfl
    refine ⟨_, J', (reaches_of_links hreach).trans hmove.reaches, hJ', .inr ⟨hidle, hidle'⟩,
      ⟨h₂, h.served, h.written, h.aborted⟩, ?_⟩
    rcases h₂.far with hfar | ⟨⟨pkts, S, hfar, -⟩, -⟩
    · exact hfar
    · cases hfar

/-- When `readTCP` of the server has returned, the server comes to its answer. -/
theorem Requesting.reaches_answered (h : Requesting setup s J)
    (hphase : J.receiver.phase = .exited) :
    (sessionSystem setup).Reaches s
      (s.answered setup (stringAt (J.receiver.message.msgBody ++ [])) [] fun _ => zeroPacket) :=
  (Session.Moves.answered [] [] _ (h.transferring.far_of_exited hphase) hphase h.aborted).reaches

/-- A run from the request on: it stays with the request, or `readTCP` of the server returns. -/
theorem Requesting.run (hfits : setup.Fits)
    (hJ : (transferSystem setup.filename.bytes clientWnd).Reachable J) (h : Requesting setup s J)
    (hreach : (sessionSystem setup).Reaches s t) :
    (∃ J', (transferSystem setup.filename.bytes clientWnd).Reachable J' ∧
      (CanReturn setup.filename.bytes clientWnd J' → CanReturn setup.filename.bytes clientWnd J) ∧
      Requesting setup t J') ∨
    CanReturn setup.filename.bytes clientWnd J ∧
      ((∃ buf J', setup.answer = some buf ∧ (transferSystem buf clientWnd).Reachable J' ∧
        Responding setup buf t J') ∨ Unanswered setup t) := by
  refine hreach.keeps (I := fun t =>
    (∃ J', (transferSystem setup.filename.bytes clientWnd).Reachable J' ∧
      (CanReturn setup.filename.bytes clientWnd J' → CanReturn setup.filename.bytes clientWnd J) ∧
      Requesting setup t J') ∨
    CanReturn setup.filename.bytes clientWnd J ∧
      ((∃ buf J', setup.answer = some buf ∧ (transferSystem buf clientWnd).Reachable J' ∧
        Responding setup buf t J') ∨ Unanswered setup t)) (.inl ⟨J, hJ, id, h⟩) ?_
  rintro a b ha ⟨event, -, hstep⟩
  have hmove := Session.moves_of_step hstep
  rcases ha with ⟨J₁, hJ₁, hback, ha⟩ | ⟨hcan, ⟨buf, J₁, hanswer, hJ₁, ha⟩ | ha⟩
  · rcases ha.step hfits hJ₁ hmove with
      ⟨J₂, hJ₂, hlater, hb⟩ | ⟨hphase, rest, fileBuf, heap, rfl⟩
    · exact .inl ⟨J₂, hJ₂,
        fun hreturn => hback (hlater.canReturn hfits.countable hJ₁ hJ₂ hreturn), hb⟩
    · refine .inr ⟨hback ⟨J₁, .refl J₁, hphase⟩, ?_⟩
      cases hanswer : setup.answer with
      | none => exact .inr (ha.unanswered hfits hJ₁ hphase hanswer)
      | some buf =>
        obtain ⟨J₂, hJ₂, -, hb⟩ := ha.responding rest fileBuf heap hfits hJ₁ hphase hanswer
        exact .inl ⟨buf, J₂, rfl, hJ₂, hb⟩
  · obtain ⟨J₂, hJ₂, -, hb⟩ := ha.step hfits hanswer hJ₁ hmove
    exact .inr ⟨hcan, .inl ⟨buf, J₂, hanswer, hJ₂, hb⟩⟩
  · exact .inr ⟨hcan, .inr (ha.step hmove)⟩

/-- Without an answer the client waits for good. -/
theorem Unanswered.not_canFinish (h : Unanswered setup s) : ¬ CanFinish setup s := by
  rintro ⟨t, hreach, hwritten⟩
  exact hwritten (h.run hreach).written

/-- Where `readTCP` of the server can return and there is an answer, the server may come to send
it. -/
theorem Requesting.reaches_responding (hfits : setup.Fits)
    (hJ : (transferSystem setup.filename.bytes clientWnd).Reachable J) (h : Requesting setup s J)
    (hreturn : CanReturn setup.filename.bytes clientWnd J) (hanswer : setup.answer = some buf) :
    ∃ t J', (sessionSystem setup).Reaches s t ∧ (transferSystem buf clientWnd).Reachable J' ∧
      J'.receiver.Idle clientWnd ∧ Responding setup buf t J' ∧
      ∃ heap, t.server = .writeTCP (sentPackets buf clientWnd) (senderInit clientWnd heap) := by
  obtain ⟨t, J', hst, hJ', hsame, ht, hserver⟩ := h.reaches_read hfits hJ
  have hreturn' : CanReturn setup.filename.bytes clientWnd J' := by
    rcases hsame with rfl | ⟨hidle, hidle'⟩
    · exact hreturn
    · exact (canReturn_iff_of_idles hfits.countable hJ hJ' hidle hidle').1 hreturn
  obtain ⟨L, J'', hL, hJJ, hu, hphase⟩ := ht.transferring.lift_return hserver hreturn'
  have hrequesting : Requesting setup (t.withLink L) J'' := ⟨hu, ht.served, ht.written, ht.aborted⟩
  obtain ⟨J₁, hJ₁, hidle, hv⟩ := hrequesting.responding [] []
    (fun _ => zeroPacket) hfits (hJ'.trans hJJ) hphase hanswer
  refine ⟨_, J₁, (hst.trans (reaches_of_links hL)).trans (hrequesting.reaches_answered hphase),
    hJ₁, hidle, hv, fun _ => zeroPacket, ?_⟩
  rw [stringAt_message hfits (hJ'.trans hJJ) hphase, Session.answered_of_some hanswer, hfits.window]

/-- From the request on, the session can finish exactly if `readTCP` of the server can return, and
there is an answer whose length is no multiple of `MAX_BODY_SIZE`. -/
theorem Requesting.canFinish_iff (hfits : setup.Fits)
    (hJ : (transferSystem setup.filename.bytes clientWnd).Reachable J) (h : Requesting setup s J) :
    CanFinish setup s ↔ CanReturn setup.filename.bytes clientWnd J ∧
      ∃ buf, setup.answer = some buf ∧ buf.length % maxBodySize ≠ 0 := by
  constructor
  · rintro ⟨t, hreach, hwritten⟩
    rcases h.run hfits hJ hreach with ⟨J', -, -, ht⟩ | ⟨hcan, ⟨buf, J', hanswer, hJ', ht⟩ | ht⟩
    · exact absurd ht.written hwritten
    · have hlen := countable_of_le (Setup.answer_eq_some hanswer).2.1
      refine ⟨hcan, buf, hanswer, ?_⟩
      exact ((canReturn_iff_of_length (n := 4) (by norm_num) (by norm_num) (by norm_num) hlen
        hJ').1 ⟨J', .refl J', ht.exited_of_written hwritten⟩).1
    · exact absurd ht.written hwritten
  · rintro ⟨hreturn, buf, hanswer, hmod⟩
    have hlen := countable_of_le (Setup.answer_eq_some hanswer).2.1
    obtain ⟨t, J', hst, hJ', hidle, ht, -⟩ := h.reaches_responding hfits hJ hreturn hanswer
    refine canFinish_of_reaches hst ?_
    exact (ht.canFinish_iff hfits hanswer hJ').2 ((canReturn_of_idle_iff hlen hJ' hidle).2 hmod)

theorem Requesting.may_fail (hfits : setup.Fits)
    (hJ : (transferSystem setup.filename.bytes clientWnd).Reachable J) (h : Requesting setup s J) :
    ∃ t, (sessionSystem setup).Reaches s t ∧ ¬ CanFinish setup t := by
  by_cases hphase : J.receiver.phase = .exited
  · have hreach := h.reaches_answered hphase
    cases hanswer : setup.answer with
    | none => exact ⟨_, hreach, (h.unanswered hfits hJ hphase hanswer).not_canFinish⟩
    | some buf =>
      obtain ⟨J', hJ', hidle, ht⟩ := h.responding [] []
        (fun _ => zeroPacket) hfits hJ hphase hanswer
      obtain ⟨u, htu, hno⟩ := ht.may_fail hfits hanswer hJ' hidle.not_exited
      exact ⟨u, hreach.trans htu, hno⟩
  · obtain ⟨t, J', hst, hJ', hsame, ht, hserver⟩ := h.reaches_read hfits hJ
    have hreading : J'.Reading := by
      rcases hsame with rfl | ⟨-, hidle'⟩
      · exact hphase
      · exact hidle'.not_exited
    obtain ⟨L, J'', hL, hJJ, hu, hno⟩ := ht.transferring.strand hJ' hserver hreading
    have hrequesting : Requesting setup (t.withLink L) J'' :=
      ⟨hu, ht.served, ht.written, ht.aborted⟩
    exact ⟨_, hst.trans (reaches_of_links hL),
      fun hfinish => hno ((hrequesting.canFinish_iff hfits (hJ'.trans hJJ)).1 hfinish).1⟩

end Finish

/-! ### Sessions -/

/-- The client has room for the name; the name, with its zero, and the bytes that `readFile` stores
for it have lengths that are no multiples of `MAX_BODY_SIZE`; and of the bytes there are at least
one and at most `MAX_FILE_SIZE`. -/
def Setup.Answerable (setup : Setup) : Prop :=
  setup.filename.chars.length ≤ bufLen ∧ setup.filename.bytes.length % maxBodySize ≠ 0 ∧
    ∃ buf, setup.answer = some buf ∧ buf.length % maxBodySize ≠ 0

theorem letterSetup_answerable : letterSetup.Answerable :=
  ⟨by decide, by decide, [72, 105], by decide, by decide⟩

section Sessions

variable {setup : Setup} {s : Session}

/-- From its start a session can finish exactly if the client can be answered. -/
theorem Session.Initial.canFinish_iff (hwindow : setup.cWnd = clientWnd)
    (h : Session.Initial setup s) : CanFinish setup s ↔ setup.Answerable := by
  have hfits := h.fits hwindow
  obtain ⟨J, hJ, hidle, hs⟩ := h.requesting hwindow
  rw [hs.canFinish_iff hfits hJ, canReturn_of_idle_iff hfits.countable hJ hidle,
    Setup.Answerable, and_iff_right hfits.name]

/-- Where the client can be answered, it may come to wait for the answer, and the server to send
it. -/
theorem Session.Initial.reaches_answering (hwindow : setup.cWnd = clientWnd)
    (h : Session.Initial setup s) (hanswerable : setup.Answerable) :
    ∃ t R pkts S, (sessionSystem setup).Reaches s t ∧ t.client = .readTCP R ∧ R.phase ≠ .exited ∧
      t.server = .writeTCP pkts S ∧ S.side = .transmitting := by
  have hfits := h.fits hwindow
  obtain ⟨-, hmod, buf, hanswer, -⟩ := hanswerable
  obtain ⟨J, hJ, hidle, hs⟩ := h.requesting hwindow
  obtain ⟨t, J₁, hst, hJ₁, hidle₁, ht, heap, hserver⟩ := hs.reaches_responding hfits hJ
    ((canReturn_of_idle_iff hfits.countable hJ hidle).2 hmod) hanswer
  obtain ⟨u, J₂, htu, -, hsame, -, hclient, hserver'⟩ := ht.reaches_read hJ₁
  have hidle₂ : J₂.receiver.Idle clientWnd := by
    rcases hsame with rfl | ⟨-, hidle₂⟩
    · exact hidle₁
    · exact hidle₂
  exact ⟨u, _, _, _, hst.trans htu, hclient, hidle₂.not_exited, hserver'.trans hserver, rfl⟩

/-- A session in which the client has written its file was one that can finish. -/
theorem answerable_of_written (hwindow : setup.cWnd = clientWnd)
    (h : (sessionSystem setup).Reachable s) (hwritten : s.written ≠ none) : setup.Answerable := by
  obtain ⟨s₀, hinit, hreach⟩ := h
  exact (hinit.canFinish_iff hwindow).1 ⟨s, hreach, hwritten⟩

/-- **No session is sure to finish.**  From every reachable state in which `readTCP` of the client
has not returned, a run leads to one from which the client never comes to its end. -/
theorem session_may_fail (hwindow : setup.cWnd = clientWnd)
    (h : (sessionSystem setup).Reachable s)
    (hreading : ∀ R, s.client = .readTCP R → R.phase ≠ .exited) :
    ∃ t, (sessionSystem setup).Reaches s t ∧ ¬ CanFinish setup t := by
  have hfits := fits_of_reachable hwindow h
  cases stage_of_reachable hwindow h with
  | requesting J hJ hstage => exact hstage.may_fail hfits hJ
  | responding buf J hanswer hJ hstage =>
    exact hstage.may_fail hfits hanswer hJ fun hphase =>
      hreading _ (hstage.transferring.far_of_exited hphase) hphase
  | unanswered hanswer hstage => exact ⟨s, .refl s, hstage.not_canFinish⟩

/-- The session of the two letters, when the client waits for them. -/
theorem session_may_fail_letter :
    ∃ s R, (sessionSystem letterSetup).Reachable s ∧ s.client = .readTCP R ∧ R.phase ≠ .exited ∧
      ∃ t, (sessionSystem letterSetup).Reaches s t ∧ ¬ CanFinish letterSetup t := by
  obtain ⟨s, R, -, -, hreach, hclient, hphase, -, -⟩ :=
    startOfSession_initial.reaches_answering rfl letterSetup_answerable
  have hs := (StepSystem.Reachable.of_init startOfSession_initial).trans hreach
  refine ⟨s, R, hs, hclient, hphase, session_may_fail rfl hs fun R' hR' => ?_⟩
  cases hclient.symm.trans hR'
  exact hphase

end Sessions

end Tcp118
