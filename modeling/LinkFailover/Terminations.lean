import LinkFailover.Sessions

/-!
# Sessions that were ended

The handler ends a session by shutting its socket down. The frames of the same chunk that were
handed over already are handled all the same, with the session as it stands: a session that was
open stays open, and one that was not can still be opened.

* `silent_iff`: when frames that are handled from a session on call the engine.
* `ended_session_silent`: when an ended session calls the engine no more.
-/

namespace LinkFailover

open Codec

/-! ## Frames that call the engine -/

/-- The envelope of the frame carries this authority, with a sequence above the last one. -/
def Frame.Carries (f : Frame) (id : UInt64) (client : Incarnation) (current : Epoch)
    (last : SessionSeq) (envelope : SessionEnvelope) : Prop :=
  f.envelope? = some envelope ∧ envelope.sessionId = id ∧ envelope.incarnation = client ∧
    envelope.epoch = current ∧ last < envelope.seq

/-- The frame asks for something that calls the engine. -/
def Frame.Asks (f : Frame) : Prop := ∃ request, f.request = .ok request ∧ request.callsEngine = true

/-- Every frame that asks the engine under this authority comes behind one with the same authority
whose sequence is not smaller. -/
def Overtaken (id : UInt64) (client : Incarnation) (current : Epoch) (last : SessionSeq)
    (frames : List Frame) : Prop :=
  ∀ before f rest envelope, frames = before ++ f :: rest →
    f.Carries id client current last envelope → f.Asks →
    ∃ g ∈ before, ∃ envelope', g.Carries id client current last envelope' ∧
      envelope.seq ≤ envelope'.seq

/-- No frame asks the engine under the authority of the session: of its handshake, or of the first
handshake among the frames. -/
def SessionState.Silent (s : SessionState) (current : Epoch) (frames : List Frame) : Prop :=
  (s.handshaken = true → Overtaken s.id s.client current s.lastSeq frames) ∧
    (s.handshaken = false → ∀ before f rest hello, frames = before ++ f :: rest →
      (∀ g ∈ before, g.hello? = none) → f.hello? = some hello →
      Overtaken s.id hello.clientIncarnation current .zero rest)

/-- Some frame calls the engine when the frames are handled from this session on. -/
def Calls (s : SessionState) (current : Epoch) (n : Nat) (frames : List Frame) : Prop :=
  ∃ m envelope request at', SessionEvent.executed m envelope request at' ∈
    replayFrames s current n frames ∧ request.callsEngine = true

theorem SessionState.admit_iff {s : SessionState} {current : Epoch} {f : Frame}
    (hs : s.handshaken = true) {envelope : SessionEnvelope} :
    s.judge current f = .admitted envelope ↔ f.Carries s.id s.client current s.lastSeq envelope := by
  rw [judge_admitted, Frame.Carries]
  exact ⟨fun h => h.2, fun h => ⟨hs, h⟩⟩

theorem Overtaken.cons_other {id : UInt64} {client : Incarnation} {current : Epoch}
    {last : SessionSeq} {f : Frame} {frames : List Frame}
    (hf : ∀ envelope, ¬ f.Carries id client current last envelope) :
    Overtaken id client current last (f :: frames) ↔ Overtaken id client current last frames := by
  constructor
  · intro h before g rest envelope hsplit hg hask
    obtain ⟨g', hg', envelope', hcarries, hle⟩ :=
      h (f :: before) g rest envelope (by rw [hsplit]; rfl) hg hask
    rcases List.mem_cons.mp hg' with rfl | hg'
    · exact absurd hcarries (hf envelope')
    · exact ⟨g', hg', envelope', hcarries, hle⟩
  · intro h before g rest envelope hsplit hg hask
    cases before with
    | nil =>
      cases hsplit
      exact absurd hg (hf envelope)
    | cons b before =>
      cases hsplit
      obtain ⟨g', hg', hrest⟩ := h before g rest envelope rfl hg hask
      exact ⟨g', List.mem_cons_of_mem _ hg', hrest⟩

theorem Overtaken.cons_carries {id : UInt64} {client : Incarnation} {current : Epoch}
    {last : SessionSeq} {f : Frame} {frames : List Frame} {envelope : SessionEnvelope}
    (hf : f.Carries id client current last envelope) :
    Overtaken id client current last (f :: frames) ↔
      ¬ f.Asks ∧ Overtaken id client current envelope.seq frames := by
  have hlast := StrongUint.lt_iff.mp hf.2.2.2.2
  constructor
  · intro h
    refine ⟨fun hask => ?_, fun before g rest env hsplit hg hask => ?_⟩
    · obtain ⟨g, hg, -⟩ := h [] f frames envelope rfl hf hask
      exact absurd hg List.not_mem_nil
    · obtain ⟨henv, hid, hclient, hepoch, hseq⟩ := hg
      have hseq' := StrongUint.lt_iff.mp hseq
      obtain ⟨g', hg', env', hcarries, hle⟩ := h (f :: before) g rest env (by rw [hsplit]; rfl)
        ⟨henv, hid, hclient, hepoch, StrongUint.lt_iff.mpr (Nat.lt_trans hlast hseq')⟩ hask
      have hle' := StrongUint.le_iff.mp hle
      rcases List.mem_cons.mp hg' with rfl | hg'
      · have hsame : env' = envelope := Option.some.inj (hcarries.1.symm.trans hf.1)
        rw [hsame] at hle'
        omega
      · exact ⟨g', hg', env', ⟨hcarries.1, hcarries.2.1, hcarries.2.2.1, hcarries.2.2.2.1,
          StrongUint.lt_iff.mpr (Nat.lt_of_lt_of_le hseq' hle')⟩, hle⟩
  · rintro ⟨hno, h⟩ before g rest env hsplit hg hask
    cases before with
    | nil =>
      cases hsplit
      exact absurd hask hno
    | cons b before =>
      cases hsplit
      by_cases hlt : envelope.seq < env.seq
      · obtain ⟨g', hg', env', hcarries, hle⟩ :=
          h before g rest env rfl ⟨hg.1, hg.2.1, hg.2.2.1, hg.2.2.2.1, hlt⟩ hask
        have hseq' := StrongUint.lt_iff.mp hcarries.2.2.2.2
        exact ⟨g', List.mem_cons_of_mem _ hg', env', ⟨hcarries.1, hcarries.2.1, hcarries.2.2.1,
          hcarries.2.2.2.1, StrongUint.lt_iff.mpr (Nat.lt_trans hlast hseq')⟩, hle⟩
      · refine ⟨f, List.mem_cons_self, envelope, hf, ?_⟩
        rw [StrongUint.lt_iff] at hlt
        exact StrongUint.le_iff.mpr (Nat.not_lt.mp hlt)

theorem not_calls_cons {s : SessionState} {current : Epoch} {n : Nat} {f : Frame}
    {frames : List Frame} :
    ¬ Calls s current n (f :: frames) ↔
      (∀ envelope, s.judge current f = .admitted envelope → ¬ f.Asks) ∧
        ¬ Calls (s.next current f) current (n + 1) frames := by
  constructor
  · intro h
    refine ⟨fun envelope hj hask => h ?_, fun ⟨m, envelope, request, at', hx, hcalls⟩ => h ?_⟩
    · obtain ⟨request, hr, hcalls⟩ := hask
      refine ⟨n, envelope, request, current, ?_, hcalls⟩
      rw [replayFrames]
      refine List.mem_append_left _ ?_
      simp [frameEvents, hj, hr]
    · exact ⟨m, envelope, request, at', List.mem_append_right _ hx, hcalls⟩
  · rintro ⟨hfirst, hrest⟩ ⟨m, envelope, request, at', hx, hcalls⟩
    rw [replayFrames, List.mem_append] at hx
    rcases hx with hx | hx
    · obtain ⟨a, b, hsplit⟩ := List.append_of_mem hx
      obtain ⟨-, -, -, -, hr, hj⟩ := frameEvents_executed hsplit
      exact hfirst envelope hj ⟨request, hr, hcalls⟩
    · exact hrest ⟨m, envelope, request, at', hx, hcalls⟩

/-- An open session. -/
theorem overtaken_iff {s : SessionState} {current : Epoch} (hs : s.handshaken = true) {n : Nat}
    {frames : List Frame} :
    Overtaken s.id s.client current s.lastSeq frames ↔ ¬ Calls s current n frames := by
  induction frames generalizing s n with
  | nil =>
    constructor
    · rintro - ⟨m, envelope, request, at', hx, -⟩
      exact absurd hx List.not_mem_nil
    · intro _ before f rest envelope hsplit
      exact absurd hsplit (by simp)
  | cons f frames ih =>
    rw [not_calls_cons]
    by_cases hadmitted : ∃ envelope, s.judge current f = .admitted envelope
    · obtain ⟨envelope, hj⟩ := hadmitted
      have hnext := SessionState.next_admitted hj
      have ih' := ih (s := s.next current f) (n := n + 1) (SessionState.next_handshaken hs)
      rw [hnext] at ih'
      rw [Overtaken.cons_carries ((SessionState.admit_iff hs).mp hj), hnext, ← ih']
      constructor
      · rintro ⟨hno, hrest⟩
        exact ⟨fun _ _ => hno, hrest⟩
      · rintro ⟨hno, hrest⟩
        exact ⟨hno envelope hj, hrest⟩
    · have hother : ∀ envelope, ¬ f.Carries s.id s.client current s.lastSeq envelope :=
        fun envelope hc => hadmitted ⟨envelope, (SessionState.admit_iff hs).mpr hc⟩
      have hnext : s.next current f = s := by
        cases hj : s.judge current f with
        | terminate status => exact SessionState.next_terminate hj
        | refuse status => exact SessionState.next_refuse hj
        | welcome hello =>
          have := (SessionState.judge_welcome.mp hj).1
          rw [hs] at this
          cases this
        | admitted envelope => exact absurd ⟨envelope, hj⟩ hadmitted
      rw [Overtaken.cons_other hother, hnext, ← ih hs]
      exact ⟨fun h => ⟨fun envelope hj => absurd ⟨envelope, hj⟩ hadmitted, h⟩, fun h => h.2⟩

/-- Frames that are handled from a session on call the engine exactly when they are not silent. -/
theorem silent_iff {s : SessionState} {current : Epoch} {n : Nat} {frames : List Frame} :
    s.Silent current frames ↔ ¬ Calls s current n frames := by
  cases hs : s.handshaken with
  | true =>
    rw [← overtaken_iff hs]
    refine ⟨fun h => h.1 hs, fun h => ⟨fun _ => h, fun hno => ?_⟩⟩
    rw [hs] at hno
    cases hno
  | false =>
    have hsilent : ∀ {gs}, s.Silent current gs ↔ ∀ before f rest hello,
        gs = before ++ f :: rest → (∀ g ∈ before, g.hello? = none) → f.hello? = some hello →
        Overtaken s.id hello.clientIncarnation current .zero rest := by
      intro gs
      refine ⟨fun h => h.2 hs, fun h => ⟨fun hyes => ?_, fun _ => h⟩⟩
      rw [hs] at hyes
      cases hyes
    have hnever : ∀ f envelope, s.judge current f ≠ .admitted envelope := by
      intro f envelope hj
      have := (SessionState.judge_admitted.mp hj).1
      rw [hs] at this
      cases this
    induction frames generalizing n with
    | nil =>
      rw [hsilent]
      constructor
      · rintro - ⟨m, envelope, request, at', hx, -⟩
        exact absurd hx List.not_mem_nil
      · intro _ before f rest hello hsplit
        exact absurd hsplit (by simp)
    | cons f frames ih =>
      rw [not_calls_cons]
      cases hhello : f.hello? with
      | some hello =>
        have hj := (@SessionState.judge_welcome s current f hello).mpr ⟨hs, hhello⟩
        have hnext := SessionState.next_welcome hj
        have hopen := @overtaken_iff (s.next current f) current (by rw [hnext]) (n + 1) frames
        rw [hnext] at hopen
        rw [hsilent, hnext, ← hopen]
        constructor
        · intro h
          exact ⟨fun envelope hj' => absurd hj' (hnever f envelope),
            h [] f frames hello rfl (fun g hg => absurd hg List.not_mem_nil) hhello⟩
        · rintro ⟨-, h⟩ before g rest hello' hsplit hbefore hg
          cases before with
          | nil =>
            cases hsplit
            rw [hhello] at hg
            cases hg
            exact h
          | cons b before =>
            cases hsplit
            rw [hbefore f List.mem_cons_self] at hhello
            cases hhello
      | none =>
        have hnext : s.next current f = s := by
          cases hj : s.judge current f with
          | terminate status => exact SessionState.next_terminate hj
          | refuse status => exact SessionState.next_refuse hj
          | welcome hello =>
            rw [(SessionState.judge_welcome.mp hj).2] at hhello
            cases hhello
          | admitted envelope => exact absurd hj (hnever f envelope)
        have ih' : s.Silent current frames ↔ ¬ Calls s current (n + 1) frames := ih
        rw [hnext, ← ih', hsilent, hsilent]
        constructor
        · intro h
          refine ⟨fun envelope hj => absurd hj (hnever f envelope), ?_⟩
          intro before g rest hello hsplit hbefore hg
          refine h (f :: before) g rest hello (by rw [hsplit]; rfl) ?_ hg
          intro x hx
          rcases List.mem_cons.mp hx with rfl | hx
          · exact hhello
          · exact hbefore x hx
        · rintro ⟨-, h⟩ before g rest hello hsplit hbefore hg
          cases before with
          | nil =>
            cases hsplit
            rw [hhello] at hg
            cases hg
          | cons b before =>
            cases hsplit
            exact h before g rest hello rfl
              (fun x hx => hbefore x (List.mem_cons_of_mem _ hx)) hg

/-! ## Frames behind the end -/

/-- The frame that was received, when the event is one. -/
def SessionEvent.frame? : SessionEvent → Option Frame
  | .received _ f => some f
  | _ => none

theorem frameEvents_frames (s : SessionState) (current : Epoch) (n : Nat) (f : Frame) :
    (frameEvents s current n f).filterMap SessionEvent.frame? = [f] := by
  unfold frameEvents
  cases s.judge current f with
  | terminate status => rfl
  | welcome hello => rfl
  | refuse status => rfl
  | admitted envelope =>
    dsimp only
    cases f.request <;> rfl

theorem replayFrames_frames (s : SessionState) (current : Epoch) (n : Nat) (fs : List Frame) :
    (replayFrames s current n fs).filterMap SessionEvent.frame? = fs := by
  induction fs generalizing s n with
  | nil => rfl
  | cons f fs ih =>
    rw [replayFrames, List.filterMap_append, frameEvents_frames, ih]
    rfl

theorem frameEvents_terminated {s : SessionState} {current : Epoch} {n m : Nat} {f : Frame}
    {status : Status} :
    SessionEvent.terminated m status ∈ frameEvents s current n f ↔
      m = n ∧ s.judge current f = .terminate status := by
  unfold frameEvents
  cases hj : s.judge current f with
  | terminate status' => simp [eq_comm]
  | welcome hello => simp
  | refuse status' => simp
  | admitted envelope => cases f.request <;> simp

/-- An end that was decided belongs to the frame with its number. -/
theorem replayFrames_terminated {s : SessionState} {current : Epoch} {n m : Nat}
    {fs : List Frame} {status : Status}
    (h : SessionEvent.terminated m status ∈ replayFrames s current n fs) :
    ∃ before f rest, fs = before ++ f :: rest ∧ m = n + before.length ∧
      (s.after current before).judge current f = .terminate status := by
  induction fs generalizing s n with
  | nil => exact absurd h List.not_mem_nil
  | cons f fs ih =>
    rw [replayFrames, List.mem_append] at h
    rcases h with h | h
    · obtain ⟨hm, hj⟩ := frameEvents_terminated.mp h
      exact ⟨[], f, fs, rfl, hm, hj⟩
    · obtain ⟨before, g, rest, hsplit, hm, hj⟩ := ih h
      refine ⟨f :: before, g, rest, by rw [hsplit]; rfl, ?_, hj⟩
      rw [hm, List.length_cons]
      omega

/-- No request is handed to the engine behind the end of the session. -/
def Ended (events : List SessionEvent) : Prop :=
  ∀ n status m envelope request at', SessionEvent.terminated n status ∈ events →
    SessionEvent.executed m envelope request at' ∈ events → request.callsEngine = true → m < n

/-- Behind every frame that ends the session there are silent frames only. -/
def SessionState.EndsSilent (s : SessionState) (current : Epoch) (frames : List Frame) : Prop :=
  ∀ before f rest status, frames = before ++ f :: rest →
    (s.after current before).judge current f = .terminate status →
    (s.after current before).Silent current rest

theorem SessionState.EndsSilent.dropLast {s : SessionState} {current : Epoch}
    {frames : List Frame} {f : Frame} (h : s.EndsSilent current (frames ++ [f])) :
    s.EndsSilent current frames := by
  intro before g rest status hsplit hj
  have hmore := h before g (rest ++ [f]) status (by rw [hsplit]; simp) hj
  have hcalls := (silent_iff (n := 0)).mp hmore
  refine (silent_iff (n := 0)).mpr fun ⟨m, envelope, request, at', hx, hr⟩ => hcalls ?_
  refine ⟨m, envelope, request, at', ?_, hr⟩
  rw [replayFrames_append]
  exact List.mem_append_left _ hx

theorem replay_ended {s : SessionState} {current : Epoch} {fs : List Frame} :
    Ended (replayFrames s current 0 fs) ↔ s.EndsSilent current fs := by
  constructor
  · intro h before f rest status hsplit hj
    have hnext := SessionState.next_terminate hj
    refine (silent_iff (n := before.length + 1)).mpr fun ⟨m, envelope, request, at', hx, hr⟩ => ?_
    have hsplit' : replayFrames s current 0 fs = replayFrames s current 0 before ++
        (frameEvents (s.after current before) current before.length f ++
          replayFrames (s.after current before) current (before.length + 1) rest) := by
      rw [hsplit, replayFrames_append, Nat.zero_add, replayFrames, hnext]
    have hend : SessionEvent.terminated before.length status ∈ replayFrames s current 0 fs := by
      rw [hsplit']
      exact List.mem_append_right _ (List.mem_append_left _ (frameEvents_terminated.mpr ⟨rfl, hj⟩))
    have hlater : SessionEvent.executed m envelope request at' ∈ replayFrames s current 0 fs := by
      rw [hsplit']
      exact List.mem_append_right _ (List.mem_append_right _ hx)
    have hlt := h _ _ _ _ _ _ hend hlater hr
    have hge : before.length + 1 ≤ m := (replayFrames_number hx).1
    omega
  · intro h n status m envelope request at' hend hx hr
    obtain ⟨before, f, rest, hsplit, hn, hj⟩ := replayFrames_terminated hend
    have hsilent := (silent_iff (n := before.length + 1)).mp (h before f rest status hsplit hj)
    rw [hsplit, replayFrames_append, Nat.zero_add, replayFrames, List.mem_append,
      List.mem_append, SessionState.next_terminate hj] at hx
    rcases hx with hx | hx | hx
    · have hlt := (replayFrames_number hx).2
      change m < 0 + before.length at hlt
      omega
    · obtain ⟨a, b, hsplit'⟩ := List.append_of_mem hx
      obtain ⟨-, -, -, -, -, hadmitted⟩ := frameEvents_executed hsplit'
      rw [hj] at hadmitted
      cases hadmitted
    · exact absurd ⟨m, envelope, request, at', hx, hr⟩ hsilent

/-! ## Clients that are shut out -/

namespace Sample

def pingFrame : Frame := Frame.of .ping []

def pingEnd : Status :=
  .failure .unauthenticated .sessionMismatch (text "the session has not completed its handshake")

theorem judge_ping (current : Epoch) :
    ({ id := 1 } : SessionState).judge current pingFrame = .terminate pingEnd := by
  have htype : ¬ pingFrame.header.type = .hello := by decide
  rw [SessionState.judge, if_neg htype]
  rfl

/-- The server has read the three frames of the client in one chunk, and handled the first. -/
theorem pinged {e : Engine} {s : Server} (hs : Server.start {} e = .ok s) :
    Server.At ((s.accept.read 0 ((asks true e.epoch).flatMap encoded)).handle 0 true) 0 e.epoch
      { id := 1 } 1 [helloFrame, askFrame e.epoch]
      [.received 0 pingFrame, .terminated 0 pingEnd] := by
  have h0 := Server.read_written hs (fun w hw => (encoded_asks hw).1) (asks_fit true e.epoch)
  have h1 := Server.At.handle (f := pingFrame) h0
    (fun envelope h => by rw [judge_ping] at h; cases h) true
  rw [SessionState.next_terminate (judge_ping e.epoch), frameEvents, judge_ping] at h1
  exact h1

/-- A client that sends all that it has to say a second time. -/
def twice (current : Epoch) : List (MessageType × Bytes) := asks false current ++ asks false current

/-- The session behind the request of that client. -/
def asked (current : Epoch) : SessionState := { opened current with lastSeq := ⟨1⟩ }

def helloEnd : Status :=
  .failure .conflict .sessionMismatch (text "the session has already completed its handshake")

/-- A second handshake ends the session. -/
theorem judge_again (current : Epoch) :
    (asked current).judge current helloFrame = .terminate helloEnd := by
  have hread : HelloRequest.decode.whole helloFrame.payload = some hello :=
    (HelloRequest.roundTrip rfl (by decide)).whole
  have htype : helloFrame.header.type = .hello := rfl
  rw [SessionState.judge, if_pos htype, hread]
  rfl

/-- The request that was carried out is not admitted again: its sequence is used up. -/
theorem judge_replayed (current : Epoch) (envelope : SessionEnvelope) :
    (asked current).judge current (askFrame current) ≠ .admitted envelope := by
  intro h
  obtain ⟨-, hread, -, -, -, hlt⟩ := SessionState.judge_admitted.mp h
  rw [askFrame_envelope] at hread
  cases hread
  exact absurd hlt (by change ¬ (⟨1⟩ : SessionSeq) < ⟨1⟩; decide)

theorem next_ask (current : Epoch) :
    (opened current).next current (askFrame current) = asked current :=
  SessionState.next_admitted (judge_ask current)

/-- The steps in which the server handles the four frames. -/
def handling (current : Epoch) : List Server.Action :=
  [.accept, .read 0 ((twice current).flatMap encoded), .handle 0 true, .handle 0 true,
    .dispatch 0 true, .handle 0 true, .handle 0 true]

/-- What happens on the connection of that client. -/
theorem handled {e : Engine} {s : Server} (he : Reachable e) (hs : Server.start {} e = .ok s) :
    (s.run (handling e.epoch)).At 0 e.epoch (asked e.epoch) 4 []
      (frameEvents { id := 1 } e.epoch 0 helloFrame ++
        frameEvents (opened e.epoch) e.epoch 1 (askFrame e.epoch) ++
        frameEvents (asked e.epoch) e.epoch 2 helloFrame ++
        frameEvents (asked e.epoch) e.epoch 3 (askFrame e.epoch)) := by
  have hfit : ((twice e.epoch).flatMap encoded).length ≤
      FrameDecoder.limit kDefaultFramePayload := by
    have hlength := asks_length false e.epoch
    rw [twice, List.flatMap_append, List.length_append]
    exact Nat.le_trans (Nat.add_le_add hlength hlength) (by decide)
  have h0 := Server.read_written hs
    (fun w hw => (encoded_asks ((List.mem_append.mp hw).elim id id)).1) hfit
  have h1 := Server.At.handle (f := helloFrame) h0
    (fun envelope h => by rw [judge_hello] at h; cases h) true
  rw [next_hello] at h1
  have hreach := (Server.run_ok (Server.start_ok he hs)
    [.accept, .read 0 ((twice e.epoch).flatMap encoded), .handle 0 true]).engine
  have h2 := Server.At.carry (f := askFrame e.epoch) h1 hreach (judge_ask e.epoch)
    (askFrame_request e.epoch) true true
  rw [next_ask] at h2
  have h3 := Server.At.handle (f := helloFrame) h2
    (fun envelope h => by rw [judge_again] at h; cases h) true
  rw [SessionState.next_terminate (judge_again e.epoch)] at h3
  have h4 := Server.At.handle (f := askFrame e.epoch) h3 (judge_replayed e.epoch) true
  have hnext : (asked e.epoch).next e.epoch (askFrame e.epoch) = asked e.epoch := by
    unfold SessionState.next
    split
    · rename_i hello hj
      have htype := (SessionState.judge_welcome.mp hj).2
      rw [Frame.hello?, if_neg (by exact MessageType.noConfusion)] at htype
      cases htype
    · rename_i envelope hj
      exact absurd hj (judge_replayed e.epoch envelope)
    · rfl
    · rfl
  rw [hnext] at h4
  exact h4

end Sample

/-- In every run of a server, whatever the chunks in which the bytes of a connection come: behind
a frame on which the handler decides to end the session, no request of the connection is handed
to the engine, if and only if no frame that is handled later carries the authority of the session
(of its handshake, or of the first handshake behind the end), with a request that calls the engine
and a sequence above all those before it. -/
theorem ended_session_silent {o : ServerOptions} {e : Engine} {s : Server} (he : Reachable e)
    (hs : Server.start o e = .ok s) (actions : List Server.Action) (i : Nat) (c : Connection)
    (hc : (s.run actions).connections[i]? = some c) :
    (SessionState.EndsSilent { id := c.session.id } e.epoch
        (((s.run actions).events i).filterMap SessionEvent.frame?) →
      Ended ((s.run actions).events i)) ∧
    (c.dispatching = none → Ended ((s.run actions).events i) →
      SessionState.EndsSilent { id := c.session.id } e.epoch
        (((s.run actions).events i).filterMap SessionEvent.frame?)) := by
  obtain ⟨frames, ha⟩ := Server.run_agrees he hs actions hc
  cases ha with
  | idle hd hsession hn hev =>
    rw [hev, replayFrames_frames]
    exact ⟨replay_ended.mpr, fun _ => replay_ended.mp⟩
  | @busy done f env hd hsession hn hev hj =>
    rw [hev]
    refine ⟨fun h => ?_, fun hno => (by rw [hd] at hno; cases hno)⟩
    rw [List.filterMap_append, replayFrames_frames] at h
    have hended := replay_ended.mpr (SessionState.EndsSilent.dropLast h)
    intro n status m envelope request at' hend hx hr
    refine hended n status m envelope request at' ?_ ?_ hr
    · exact (List.mem_append.mp hend).resolve_right (by simp)
    · exact (List.mem_append.mp hx).resolve_right (by simp)

/-- A client that pings first is shut out, and has its request carried out all the same, since
the handshake and the request came in the same chunk. -/
theorem ended_session_calls : ∃ e s actions, Reachable e ∧ Server.start {} e = .ok s ∧
    ¬ Ended ((s.run actions).events 0) := by
  obtain ⟨e, he, -⟩ := @System.of_serves (System.run (Sample.booted {} {})) (fun _ => true)
    (by decide +kernel)
  obtain ⟨s, hs⟩ : ∃ s, Server.start {} e = .ok s := ⟨_, rfl⟩
  have h1 := Sample.pinged hs
  have h2 := Server.At.handle (f := Sample.helloFrame) h1
    (fun envelope h => by rw [Sample.judge_hello] at h; cases h) true
  rw [Sample.next_hello] at h2
  have hreach := (Server.run_ok (Server.start_ok ⟨_, he⟩ hs) [.accept,
    .read 0 ((Sample.asks true e.epoch).flatMap Sample.encoded), .handle 0 true,
    .handle 0 true]).engine
  have h3 := (Server.At.carry h2 hreach (Sample.judge_ask e.epoch)
    (Sample.askFrame_request e.epoch) true true).events
  refine ⟨e, s, Sample.session true e.epoch, ⟨_, he⟩, hs, fun hended => ?_⟩
  have hevents : (s.run (Sample.session true e.epoch)).events 0 =
      [.received 0 Sample.pingFrame, .terminated 0 Sample.pingEnd] ++
        frameEvents { id := 1 } e.epoch 1 Sample.helloFrame ++
        frameEvents (Sample.opened e.epoch) e.epoch 2 (Sample.askFrame e.epoch) := h3
  rw [hevents] at hended
  have hlt := hended 0 Sample.pingEnd 2 (Sample.envelope e.epoch)
    (.operate (.requestFailover (Sample.request ⟨1⟩))) e.epoch (by simp)
    (by simp [frameEvents, Sample.judge_ask, Sample.askFrame_request]) rfl
  exact absurd hlt (by decide)

/-- A client whose second handshake ends its session has asked before, and asks again behind it.
The request in front of the end was carried out, and the one behind it is turned away. -/
theorem ended_session_silent_sample : ∃ e s actions envelope request at', Reachable e ∧
    Server.start {} e = .ok s ∧
    (.executed 1 envelope request at') ∈ (s.run actions).events 0 ∧ request.callsEngine = true ∧
    (.terminated 2 Sample.helloEnd) ∈ (s.run actions).events 0 ∧
    (.received 3 (Sample.askFrame e.epoch)) ∈ (s.run actions).events 0 ∧
    Ended ((s.run actions).events 0) := by
  obtain ⟨e, he, -⟩ := @System.of_serves (System.run (Sample.booted {} {})) (fun _ => true)
    (by decide +kernel)
  obtain ⟨s, hs⟩ : ∃ s, Server.start {} e = .ok s := ⟨_, rfl⟩
  obtain ⟨-, hevents, c, hc, -, hsession, -⟩ := Sample.handled ⟨_, he⟩ hs
  have hframes : ((s.run (Sample.handling e.epoch)).events 0).filterMap SessionEvent.frame? =
      [Sample.helloFrame, Sample.askFrame e.epoch, Sample.helloFrame,
        Sample.askFrame e.epoch] := by
    rw [hevents]
    simp only [List.filterMap_append, frameEvents_frames]
    rfl
  have hid : c.session.id = 1 := by
    rw [hsession]
    rfl
  refine ⟨e, s, Sample.handling e.epoch, Sample.envelope e.epoch,
    .operate (.requestFailover (Sample.request ⟨1⟩)), e.epoch, ⟨_, he⟩, hs, ?_, rfl, ?_, ?_,
    (ended_session_silent ⟨_, he⟩ hs _ 0 c hc).1 ?_⟩
  · rw [hevents]
    simp [frameEvents, Sample.judge_ask, Sample.askFrame_request]
  · rw [hevents]
    simp [frameEvents_terminated, Sample.judge_again]
  · rw [hevents]
    have hlast : SessionEvent.received 3 (Sample.askFrame e.epoch) ∈
        frameEvents (Sample.asked e.epoch) e.epoch 3 (Sample.askFrame e.epoch) := by
      unfold frameEvents
      exact List.mem_cons_self
    exact List.mem_append_right _ hlast
  · rw [hframes, hid]
    intro before f rest status hsplit hj
    -- only the second handshake ends the session, and one frame is behind it
    rcases before with _ | ⟨_, _ | ⟨_, _ | ⟨_, _ | ⟨_, before⟩⟩⟩⟩
    · cases hsplit
      rw [SessionState.after, List.foldl_nil, Sample.judge_hello] at hj
      cases hj
    · cases hsplit
      rw [SessionState.after, List.foldl_cons, List.foldl_nil, Sample.next_hello,
        Sample.judge_ask] at hj
      cases hj
    · cases hsplit
      have hafter : SessionState.after { id := 1 } e.epoch
          [Sample.helloFrame, Sample.askFrame e.epoch] = Sample.asked e.epoch := by
        rw [SessionState.after, List.foldl_cons, List.foldl_cons, List.foldl_nil,
          Sample.next_hello, Sample.next_ask]
      rw [hafter]
      refine (silent_iff (n := 0)).mpr ?_
      rintro ⟨m, envelope, request, at', hx, -⟩
      rw [replayFrames, replayFrames, List.append_nil] at hx
      obtain ⟨xs, ys, hsplit⟩ := List.append_of_mem hx
      obtain ⟨-, -, -, -, -, hadmitted⟩ := frameEvents_executed hsplit
      exact Sample.judge_replayed e.epoch envelope hadmitted
    · cases hsplit
      refine (silent_iff (n := 0)).mpr ?_
      rintro ⟨m, envelope, request, at', hx, -⟩
      exact absurd hx List.not_mem_nil
    · have hlength := congrArg List.length hsplit
      simp only [List.length_append, List.length_cons, List.length_nil] at hlength
      omega

end LinkFailover
