import LinkFailover.Server

/-!
# What sessions hand to the engine

The session of a connection is a function of the frames that were handled on it, because the
epoch of the engine does not change while it is served. So what happens on a connection in a run
of the server, whatever the other threads do in between, is what happens when its frames are
handled one after the other.

* `replay_executed`: what holds of a request that is carried out when frames are handled.
* `Server.run_agrees`: the events of a connection are those of its frames.
* `session_safety`: what a request passed before it reaches the engine.
-/

namespace LinkFailover

open Codec

/-! ## The epoch of an engine -/

theorem Engine.perform_epoch {e : Engine} (he : Reachable e) (op : Operation) :
    (e.perform op).1.epoch = e.epoch :=
  (perform_process he.ok op).2.2

/-! ## Verdicts on frames -/

theorem validateEnvelope_ok {s : SessionState} {envelope : SessionEnvelope} {current : Epoch}
    (h : (validateEnvelope s envelope current).isOk = true) :
    envelope.sessionId = s.id ∧ envelope.incarnation = s.client ∧ envelope.epoch = current ∧
      s.lastSeq < envelope.seq := by
  unfold validateEnvelope at h
  split at h
  · cases h
  · rename_i hid
    split at h
    · cases h
    · rename_i hclient
      split at h
      · cases h
      · rename_i hepoch
        split at h
        · cases h
        · rename_i hseq
          exact ⟨not_not.mp hid, not_not.mp hclient, not_not.mp hepoch, not_not.mp hseq⟩

theorem validateEnvelope_of {s : SessionState} {envelope : SessionEnvelope} {current : Epoch}
    (hid : envelope.sessionId = s.id) (hclient : envelope.incarnation = s.client)
    (hepoch : envelope.epoch = current) (hseq : s.lastSeq < envelope.seq) :
    (validateEnvelope s envelope current).isOk = true := by
  rw [validateEnvelope, if_neg (not_not.mpr hid), if_neg (not_not.mpr hclient),
    if_neg (not_not.mpr hepoch), if_neg (not_not.mpr hseq)]
  rfl

/-- The envelope of a frame, when the frame is a request that is long enough to carry one. -/
def Frame.envelope? (f : Frame) : Option SessionEnvelope :=
  if f.header.type = .hello ∨ f.payload.length < kEnvelopeSize then none
  else (SessionEnvelope.decode f.payload).map (·.1)

/-- The handshake in a frame, when it is a well-formed one of this protocol version. -/
def Frame.hello? (f : Frame) : Option HelloRequest :=
  if f.header.type = .hello then
    (HelloRequest.decode.whole f.payload).filter fun r => r.protocolVersion = kWireProtocolVersion
  else none

namespace SessionState

variable {s : SessionState} {current : Epoch} {f : Frame}

/-- A request is admitted exactly when its envelope carries the authority of the session. -/
theorem judge_admitted {envelope : SessionEnvelope} :
    s.judge current f = .admitted envelope ↔
      s.handshaken = true ∧ f.envelope? = some envelope ∧ envelope.sessionId = s.id ∧
        envelope.incarnation = s.client ∧ envelope.epoch = current ∧
        s.lastSeq < envelope.seq := by
  unfold judge Frame.envelope?
  by_cases htype : f.header.type = .hello
  · rw [if_pos htype, if_pos (.inl htype)]
    constructor
    · intro h
      split at h
      · cases h
      · split at h
        · cases h
        · split at h <;> cases h
    · rintro ⟨-, h, -⟩
      cases h
  · rw [if_neg htype]
    cases hshake : s.handshaken with
    | false => simp
    | true =>
      by_cases hshort : f.payload.length < kEnvelopeSize
      · simp [hshort]
      · simp only [Bool.not_true, Bool.false_eq_true, if_false, hshort, htype, or_self, true_and]
        cases hdec : SessionEnvelope.decode f.payload with
        | none => simp
        | some x =>
          obtain ⟨found, rest⟩ := x
          simp only [Option.map_some, Option.some.injEq]
          constructor
          · intro h
            split at h
            · rename_i hok
              cases h
              exact ⟨rfl, validateEnvelope_ok hok⟩
            · cases h
          · rintro ⟨rfl, hid, hclient, hepoch, hseq⟩
            rw [if_pos (validateEnvelope_of hid hclient hepoch hseq)]

/-- A session is opened exactly by the first well-formed handshake. -/
theorem judge_welcome {request : HelloRequest} :
    s.judge current f = .welcome request ↔ s.handshaken = false ∧ f.hello? = some request := by
  unfold judge Frame.hello?
  by_cases htype : f.header.type = .hello
  · rw [if_pos htype, if_pos htype]
    cases hdec : HelloRequest.decode.whole f.payload with
    | none => simp
    | some found =>
      simp only [Option.filter_some]
      by_cases hv : found.protocolVersion = kWireProtocolVersion
      · cases hshake : s.handshaken <;> simp [hv]
      · simp [hv]
  · rw [if_neg htype, if_neg htype]
    constructor
    · intro h
      split at h
      · cases h
      · split at h
        · cases h
        · split at h
          · cases h
          · dsimp only at h
            split at h <;> cases h
    · rintro ⟨-, h⟩
      cases h

@[simp] theorem next_id : (s.next current f).id = s.id := by
  unfold next
  split <;> rfl

theorem next_admitted {envelope : SessionEnvelope} (h : s.judge current f = .admitted envelope) :
    s.next current f = { s with lastSeq := envelope.seq } := by
  rw [next, h]

theorem next_welcome {request : HelloRequest} (h : s.judge current f = .welcome request) :
    s.next current f =
      { s with
        client := request.clientIncarnation
        epoch := current
        lastSeq := .zero
        handshaken := true } := by
  rw [next, h]

theorem next_terminate {status : Status} (h : s.judge current f = .terminate status) :
    s.next current f = s := by
  rw [next, h]

theorem next_refuse {status : Status} (h : s.judge current f = .refuse status) :
    s.next current f = s := by
  rw [next, h]

/-- A session that was opened stays open. -/
theorem next_handshaken (h : s.handshaken = true) : (s.next current f).handshaken = true := by
  unfold next
  split
  · rfl
  · exact h
  · exact h
  · exact h

/-- The session behind frames that were handled one after the other. -/
def after (s : SessionState) (current : Epoch) (frames : List Frame) : SessionState :=
  frames.foldl (fun s f => s.next current f) s

theorem after_concat (frames : List Frame) :
    s.after current (frames ++ [f]) = (s.after current frames).next current f := by
  rw [after, List.foldl_append]
  rfl

@[simp] theorem after_id (frames : List Frame) : (s.after current frames).id = s.id := by
  induction frames using List.reverseRecOn with
  | nil => rfl
  | append_singleton frames f ih => rw [after_concat, next_id, ih]

end SessionState

/-! ## Frames handled one after the other -/

/-- What happens when the `n`-th frame is handled. -/
def frameEvents (s : SessionState) (current : Epoch) (n : Nat) (f : Frame) : List SessionEvent :=
  .received n f ::
    match s.judge current f with
    | .terminate status => [.terminated n status]
    | .welcome request => [.welcomed n request]
    | .refuse status => [.refused n status]
    | .admitted envelope =>
      match f.request with
      | .ok request => [.executed n envelope request current]
      | .error _ => []

def replayFrames (s : SessionState) (current : Epoch) : Nat → List Frame → List SessionEvent
  | _, [] => []
  | n, f :: fs => frameEvents s current n f ++ replayFrames (s.next current f) current (n + 1) fs

theorem replayFrames_append (s : SessionState) (current : Epoch) (n : Nat) (fs gs : List Frame) :
    replayFrames s current n (fs ++ gs) =
      replayFrames s current n fs ++
        replayFrames (s.after current fs) current (n + fs.length) gs := by
  induction fs generalizing s n with
  | nil => rfl
  | cons f fs ih =>
    rw [List.cons_append, replayFrames, ih, replayFrames, List.append_assoc, List.length_cons,
      Nat.add_right_comm, ← Nat.add_assoc]
    rfl

theorem replayFrames_concat (s : SessionState) (current : Epoch) (fs : List Frame) (f : Frame) :
    replayFrames s current 0 (fs ++ [f]) =
      replayFrames s current 0 fs ++ frameEvents (s.after current fs) current fs.length f := by
  rw [replayFrames_append, replayFrames, replayFrames, List.append_nil, Nat.zero_add]

/-- The number of the frame that an event belongs to. -/
def SessionEvent.number : SessionEvent → Nat
  | .received n _ | .terminated n _ | .welcomed n _ | .refused n _ | .executed n _ _ _ => n

theorem frameEvents_number {s : SessionState} {current : Epoch} {n : Nat} {f : Frame}
    {x : SessionEvent} (h : x ∈ frameEvents s current n f) : x.number = n := by
  unfold frameEvents at h
  rcases List.mem_cons.mp h with rfl | h
  · rfl
  · split at h
    · rw [List.mem_singleton.mp h]
      rfl
    · rw [List.mem_singleton.mp h]
      rfl
    · rw [List.mem_singleton.mp h]
      rfl
    · split at h
      · rw [List.mem_singleton.mp h]
        rfl
      · exact absurd h List.not_mem_nil

theorem replayFrames_number {s : SessionState} {current : Epoch} {n : Nat} {fs : List Frame}
    {x : SessionEvent} (h : x ∈ replayFrames s current n fs) :
    n ≤ x.number ∧ x.number < n + fs.length := by
  induction fs generalizing s n with
  | nil => exact absurd h List.not_mem_nil
  | cons f fs ih =>
    rw [replayFrames, List.mem_append] at h
    rw [List.length_cons]
    rcases h with h | h
    · rw [frameEvents_number h]
      omega
    · have := ih h
      omega

/-- The only event of a frame behind its arrival tells what became of it. -/
theorem frameEvents_executed {s : SessionState} {current at' : Epoch} {n m : Nat} {f : Frame}
    {envelope : SessionEnvelope} {request : Request} {before rest : List SessionEvent}
    (h : frameEvents s current n f = before ++ .executed m envelope request at' :: rest) :
    m = n ∧ at' = current ∧ before = [.received n f] ∧ rest = [] ∧ f.request = .ok request ∧
      s.judge current f = .admitted envelope := by
  unfold frameEvents at h
  cases before with
  | nil => cases h
  | cons b before =>
    rw [List.cons_append, List.cons.injEq] at h
    obtain ⟨rfl, h⟩ := h
    have hone : ∀ x : SessionEvent, [x] = before ++ .executed m envelope request at' :: rest →
        before = [] ∧ x = .executed m envelope request at' ∧ rest = [] := by
      intro x hx
      cases before with
      | nil =>
        cases hx
        exact ⟨rfl, rfl, rfl⟩
      | cons b before =>
        have hlen := congrArg List.length hx
        simp at hlen
    split at h
    · cases (hone _ h).2.1
    · cases (hone _ h).2.1
    · cases (hone _ h).2.1
    · rename_i hj
      split at h
      · rename_i hr
        obtain ⟨rfl, hx, rfl⟩ := hone _ h
        cases hx
        exact ⟨rfl, rfl, rfl, rfl, hr, hj⟩
      · have hlen := congrArg List.length h
        simp at hlen

/-- A request that is carried out when frames are handled from a session on. -/
structure Passed (s : SessionState) (current : Epoch) (before : List SessionEvent) (m : Nat)
    (envelope : SessionEnvelope) (request : Request) (at' : Epoch) : Prop where
  epoch : at' = current ∧ envelope.epoch = current
  session : envelope.sessionId = s.id
  handshake : (s.handshaken = true ∧ envelope.incarnation = s.client ∧
      s.lastSeq < envelope.seq) ∨
    (s.handshaken = false ∧ ∃ k hello, SessionEvent.welcomed k hello ∈ before ∧
      envelope.incarnation = hello.clientIncarnation)
  frame : ∃ f, SessionEvent.received m f ∈ before ∧ f.envelope? = some envelope ∧
    f.request = .ok request
  advances : ∀ k env r cur, SessionEvent.executed k env r cur ∈ before →
    k < m ∧ env.seq < envelope.seq

/-- What a request passed behind one more frame, it passed before the frame. -/
theorem Passed.before {s : SessionState} {current at' : Epoch} {n m : Nat} {f : Frame}
    {envelope : SessionEnvelope} {request : Request} {mid : List SessionEvent}
    (hp : Passed (s.next current f) current mid m envelope request at') (hm : n < m) :
    Passed s current (frameEvents s current n f ++ mid) m envelope request at' := by
  refine ⟨hp.epoch, by rw [hp.session, SessionState.next_id], ?_, ?_, ?_⟩
  · rcases hp.handshake with ⟨hshake, hclient, hseq⟩ | ⟨hshake, k, hello, hk, hclient⟩
    · cases hj : s.judge current f with
      | terminate status =>
        rw [SessionState.next_terminate hj] at hshake hclient hseq
        exact .inl ⟨hshake, hclient, hseq⟩
      | refuse status =>
        rw [SessionState.next_refuse hj] at hshake hclient hseq
        exact .inl ⟨hshake, hclient, hseq⟩
      | welcome hello =>
        rw [SessionState.next_welcome hj] at hclient
        refine .inr ⟨(SessionState.judge_welcome.mp hj).1, n, hello, ?_, hclient⟩
        refine List.mem_append_left _ ?_
        simp [frameEvents, hj]
      | admitted env =>
        have hadm := SessionState.judge_admitted.mp hj
        rw [SessionState.next_admitted hj] at hshake hclient hseq
        refine .inl ⟨hshake, hclient, ?_⟩
        have h1 := StrongUint.lt_iff.mp hadm.2.2.2.2.2
        have h2 := StrongUint.lt_iff.mp hseq
        exact StrongUint.lt_iff.mpr (Nat.lt_trans h1 h2)
    · refine .inr ⟨?_, k, hello, List.mem_append_right _ hk, hclient⟩
      cases hs : s.handshaken with
      | false => rfl
      | true =>
        rw [SessionState.next_handshaken hs] at hshake
        cases hshake
  · obtain ⟨g, hg, hrest⟩ := hp.frame
    exact ⟨g, List.mem_append_right _ hg, hrest⟩
  · intro k env r cur hk
    rcases List.mem_append.mp hk with hk | hk
    · obtain ⟨a, b, hsplit⟩ := List.append_of_mem hk
      obtain ⟨rfl, -, -, -, -, hj⟩ := frameEvents_executed hsplit
      refine ⟨hm, ?_⟩
      have hshake := @SessionState.next_handshaken _ current f
        (SessionState.judge_admitted.mp hj).1
      rcases hp.handshake with ⟨-, -, hseq⟩ | ⟨hno, -⟩
      · rwa [SessionState.next_admitted hj] at hseq
      · rw [hno] at hshake
        cases hshake
    · exact hp.advances k env r cur hk

theorem replay_executed {s : SessionState} {current at' : Epoch} {n m : Nat} {fs : List Frame}
    {envelope : SessionEnvelope} {request : Request} {before rest : List SessionEvent}
    (h : replayFrames s current n fs = before ++ .executed m envelope request at' :: rest) :
    Passed s current before m envelope request at' := by
  induction fs generalizing s n before with
  | nil =>
    have hlen := congrArg List.length h
    simp [replayFrames] at hlen
  | cons f fs ih =>
    have later : ∀ mid, before = frameEvents s current n f ++ mid →
        replayFrames (s.next current f) current (n + 1) fs =
          mid ++ .executed m envelope request at' :: rest →
        Passed s current before m envelope request at' := by
      rintro mid rfl hrest
      have hm : n < m := by
        have hx : SessionEvent.executed m envelope request at' ∈
            replayFrames (s.next current f) current (n + 1) fs := by
          rw [hrest]
          simp
        exact (replayFrames_number hx).1
      exact (ih hrest).before hm
    rw [replayFrames, List.append_eq_append_iff] at h
    rcases h with ⟨mid, hbefore, hrest⟩ | ⟨mid, hfirst, hrest⟩
    · exact later mid hbefore hrest
    · cases mid with
      | nil =>
        rw [List.append_nil] at hfirst
        exact later [] (by rw [hfirst, List.append_nil]) hrest.symm
      | cons x mid =>
        rw [List.cons_append, List.cons.injEq] at hrest
        rw [← hrest.1] at hfirst
        obtain ⟨rfl, rfl, rfl, -, hr, hj⟩ := frameEvents_executed hfirst
        obtain ⟨hshake, henv, hid, hclient, hepoch, hseq⟩ := SessionState.judge_admitted.mp hj
        refine ⟨⟨rfl, hepoch⟩, hid, .inl ⟨hshake, hclient, hseq⟩, ⟨f, by simp, henv, hr⟩, ?_⟩
        intro k env r cur hk
        rw [List.mem_singleton] at hk
        cases hk

theorem frameEvents_welcomed {s : SessionState} {current : Epoch} {n k : Nat} {f : Frame}
    {hello : HelloRequest} (h : SessionEvent.welcomed k hello ∈ frameEvents s current n f) :
    s.judge current f = .welcome hello := by
  unfold frameEvents at h
  rcases List.mem_cons.mp h with h | h
  · cases h
  · split at h
    · cases List.mem_singleton.mp h
    · rename_i hj
      cases List.mem_singleton.mp h
      exact hj
    · cases List.mem_singleton.mp h
    · split at h
      · cases List.mem_singleton.mp h
      · exact absurd h List.not_mem_nil

/-- A session is opened at most once. -/
theorem replay_welcomed {s : SessionState} {current : Epoch} {n : Nat} {fs : List Frame} :
    (s.handshaken = true → ∀ k hello, SessionEvent.welcomed k hello ∉
      replayFrames s current n fs) ∧
    ∀ k k' hello hello', SessionEvent.welcomed k hello ∈ replayFrames s current n fs →
      SessionEvent.welcomed k' hello' ∈ replayFrames s current n fs → hello' = hello := by
  induction fs generalizing s n with
  | nil => exact ⟨fun _ k hello h => absurd h List.not_mem_nil,
      fun k k' hello hello' h => absurd h List.not_mem_nil⟩
  | cons f fs ih =>
    obtain ⟨hnone, honce⟩ := ih (s := s.next current f) (n := n + 1)
    have hopen : ∀ {k hello}, SessionEvent.welcomed k hello ∈ frameEvents s current n f →
        (s.next current f).handshaken = true := by
      intro k hello h
      rw [SessionState.next_welcome (frameEvents_welcomed h)]
    rw [replayFrames]
    constructor
    · intro hs k hello h
      rcases List.mem_append.mp h with h | h
      · have := (SessionState.judge_welcome.mp (frameEvents_welcomed h)).1
        rw [hs] at this
        cases this
      · exact hnone (SessionState.next_handshaken hs) k hello h
    · intro k k' hello hello' h h'
      rcases List.mem_append.mp h with h | h <;> rcases List.mem_append.mp h' with h' | h'
      · have h1 := frameEvents_welcomed h
        rw [frameEvents_welcomed h'] at h1
        cases h1
        rfl
      · exact absurd h' (hnone (hopen h) k' hello')
      · exact absurd h (hnone (hopen h') k hello)
      · exact honce k k' hello hello' h h'

/-! ## Frames in a run of the server -/

/-- The events of a connection and its session are those of the frames that were handled, and of
the first half of the frame that is being handled. -/
inductive Connection.Agrees (c : Connection) (current : Epoch) (events : List SessionEvent) :
    List Frame → Prop
  | idle {done : List Frame} (hd : c.dispatching = none)
      (hs : c.session = SessionState.after { id := c.session.id } current done)
      (hn : c.handled = done.length)
      (he : events = replayFrames { id := c.session.id } current 0 done) :
      Agrees c current events done
  | busy {done : List Frame} {f : Frame} {envelope : SessionEnvelope}
      (hd : c.dispatching = some (f, envelope))
      (hs : c.session = SessionState.after { id := c.session.id } current done)
      (hn : c.handled = done.length + 1)
      (he : events = replayFrames { id := c.session.id } current 0 done ++
        [.received done.length f])
      (hj : c.session.judge current f = .admitted envelope) :
      Agrees c current events (done ++ [f])

/-- What an agreement is about. -/
structure Connection.Same (c c' : Connection) : Prop where
  session : c'.session = c.session
  handled : c'.handled = c.handled
  dispatching : c'.dispatching = c.dispatching

theorem Connection.Agrees.congr {c c' : Connection} {current : Epoch}
    {events : List SessionEvent} {frames : List Frame} (h : c.Agrees current events frames)
    (hsame : c.Same c') : c'.Agrees current events frames := by
  obtain ⟨hs, hn, hd⟩ := hsame
  cases h with
  | idle hd' hs' hn' he' =>
    exact .idle (by rw [hd, hd']) (by rw [hs]; exact hs') (by rw [hn, hn']) (by rw [hs]; exact he')
  | busy hd' hs' hn' he' hj' =>
    exact .busy (by rw [hd, hd']) (by rw [hs]; exact hs') (by rw [hn, hn']) (by rw [hs]; exact he')
      (by rw [hs]; exact hj')

theorem Connection.send_same (c : Connection) (type : MessageType) (payload : Bytes)
    (maxPayload : UInt64) (takes : Bool) : c.Same (c.send type payload maxPayload takes).1 := by
  unfold Connection.send
  split
  · exact ⟨rfl, rfl, rfl⟩
  · split <;> exact ⟨rfl, rfl, rfl⟩

theorem Connection.send_waiting (c : Connection) (type : MessageType) (payload : Bytes)
    (maxPayload : UInt64) (takes : Bool) :
    (c.send type payload maxPayload takes).1.waiting = c.waiting := by
  unfold Connection.send
  split
  · rfl
  · split <;> rfl

theorem Connection.shutDown_same (c : Connection) : c.Same c.shutDown := ⟨rfl, rfl, rfl⟩

theorem Connection.Same.trans {c c' c'' : Connection} (h : c.Same c') (h' : c'.Same c'') :
    c.Same c'' :=
  ⟨h'.session.trans h.session, h'.handled.trans h.handled, h'.dispatching.trans h.dispatching⟩

namespace Server

/-- What holds of a server whenever a step begins. -/
structure Ok (s : Server) (current : Epoch) : Prop where
  engine : Reachable s.engine
  epoch : s.engine.epoch = current
  agrees : ∀ i (c : Connection), s.connections[i]? = some c →
    ∃ frames, c.Agrees current (s.events i) frames
  quiet : ∀ i, s.connections.length ≤ i → s.events i = []

variable {s : Server} {current : Epoch}

@[simp] theorem events_note (s : Server) (i j : Nat) (xs : List SessionEvent) :
    (s.note i xs).events j = s.events j ++ if i = j then xs else [] := by
  unfold events note
  rw [List.filterMap_append]
  congr 1
  by_cases h : i = j
  · subst h
    rw [if_pos rfl, List.filterMap_map]
    induction xs with
    | nil => rfl
    | cons x xs ih => simp
  · rw [if_neg h, List.filterMap_map]
    simp [h]

/-- One connection is replaced, with what happened on it. -/
theorem Ok.replace (h : s.Ok current) {i : Nat} {c c' : Connection}
    (hc : s.connections[i]? = some c) {xs : List SessionEvent} {frames : List Frame}
    (ha : c'.Agrees current (s.events i ++ xs) frames) : ((s.update i c').note i xs).Ok current := by
  have hi : i < s.connections.length := (List.getElem?_eq_some_iff.mp hc).1
  have hevents : ∀ j, ((s.update i c').note i xs).events j =
      s.events j ++ if i = j then xs else [] := fun j => events_note _ _ _ _
  refine ⟨h.engine, h.epoch, fun j d hd => ?_, fun j hj => ?_⟩
  · rw [hevents]
    change (s.connections.set i c')[j]? = some d at hd
    by_cases hij : i = j
    · subst hij
      rw [List.getElem?_set_self hi] at hd
      cases hd
      rw [if_pos rfl]
      exact ⟨frames, ha⟩
    · rw [List.getElem?_set_ne hij] at hd
      rw [if_neg hij, List.append_nil]
      exact h.agrees j d hd
  · rw [hevents]
    change (s.connections.set i c').length ≤ j at hj
    rw [List.length_set] at hj
    rw [if_neg (by omega), List.append_nil]
    exact h.quiet j hj

theorem Ok.same (h : s.Ok current) {i : Nat} {c c' : Connection}
    (hc : s.connections[i]? = some c) (hsame : c.Same c') : (s.update i c').Ok current := by
  obtain ⟨frames, ha⟩ := h.agrees i c hc
  have := @replace s current h i c c' hc [] frames
    (by rw [List.append_nil]; exact ha.congr hsame)
  have hnote : (s.update i c').note i [] = s.update i c' := by
    simp [note]
  rwa [hnote] at this

theorem Ok.shutAll (h : s.Ok current) (stop : Bool) :
    { s with stopRequested := stop
             connections := s.connections.map Connection.shutDown }.Ok current := by
  refine ⟨h.engine, h.epoch, fun j d hd => ?_, fun j hj => ?_⟩
  · change (s.connections.map Connection.shutDown)[j]? = some d at hd
    rw [List.getElem?_map, Option.map_eq_some_iff] at hd
    obtain ⟨c, hc, rfl⟩ := hd
    obtain ⟨frames, ha⟩ := h.agrees j c hc
    exact ⟨frames, ha.congr c.shutDown_same⟩
  · change (s.connections.map Connection.shutDown).length ≤ j at hj
    rw [List.length_map] at hj
    exact h.quiet j hj

theorem Ok.withEngine (h : s.Ok current) {e : Engine} (he : Reachable e)
    (hepoch : e.epoch = s.engine.epoch) : { s with engine := e }.Ok current :=
  ⟨he, hepoch.trans h.epoch, h.agrees, h.quiet⟩

theorem accept_ok (h : s.Ok current) : s.accept.Ok current := by
  unfold accept
  split
  · exact h
  · refine ⟨h.engine, h.epoch, fun j d hd => ?_, fun j hj => ?_⟩
    · rw [List.getElem?_append] at hd
      split at hd
      · exact h.agrees j d hd
      · rename_i hj
        have hevents : s.events j = [] := h.quiet j (Nat.not_lt.mp hj)
        have hd' := List.mem_of_getElem? hd
        rw [List.mem_singleton] at hd'
        rw [hd']
        refine ⟨[], .idle rfl rfl rfl ?_⟩
        exact hevents
    · rw [List.length_append] at hj
      exact h.quiet j (by omega)

theorem read_ok (h : s.Ok current) (i : Nat) (chunk : Bytes) : (s.read i chunk).Ok current := by
  unfold read
  split
  · exact h
  · rename_i c hc
    split
    · exact h
    · exact h.same hc ⟨rfl, rfl, rfl⟩

theorem leave_ok (h : s.Ok current) (i : Nat) : (s.leave i).Ok current := by
  unfold leave
  split
  · exact h
  · rename_i c hc
    split
    · exact h
    · exact h.same hc ⟨rfl, rfl, rfl⟩

/-- A thread between two frames. -/
theorem Agrees.of_idle {c : Connection} {events : List SessionEvent} {frames : List Frame}
    (h : Connection.Agrees c current events frames) (hd : c.dispatching = none) :
    c.session = SessionState.after { id := c.session.id } current frames ∧
      c.handled = frames.length ∧
      events = replayFrames { id := c.session.id } current 0 frames := by
  cases h with
  | idle _ hs hn he => exact ⟨hs, hn, he⟩
  | busy hd' =>
    rw [hd] at hd'
    cases hd'

/-- A frame that is handled in one step, with the session it leaves. -/
theorem Agrees.handled {c c' : Connection} {events : List SessionEvent} {frames : List Frame}
    {f : Frame} {xs : List SessionEvent}
    (hs : c.session = SessionState.after { id := c.session.id } current frames)
    (hn : c.handled = frames.length)
    (he : events = replayFrames { id := c.session.id } current 0 frames)
    (hsession : c'.session = c.session.next current f) (hhandled : c'.handled = c.handled + 1)
    (hd : c'.dispatching = none) (hxs : xs = frameEvents c.session current c.handled f) :
    Connection.Agrees c' current (events ++ xs) (frames ++ [f]) := by
  have hid : c'.session.id = c.session.id := by rw [hsession, SessionState.next_id]
  refine .idle hd ?_ ?_ ?_
  · rw [hid, SessionState.after_concat, ← hs, hsession]
  · rw [hhandled, hn, List.length_append, List.length_singleton]
  · rw [hid, replayFrames_concat, ← hs, ← he, hxs, hn]

/-- The first half of handling the frame that waits: all there is to do, or up to the request. -/
theorem handle_first (s : Server) {i : Nat} {c : Connection} {f : Frame} {waiting : List Frame}
    (hc : s.connections[i]? = some c) (hd : c.dispatching = none) (hw : c.waiting = f :: waiting)
    (takes : Bool) :
    ∃ c' xs, s.handle i takes = (s.update i c').note i (.received c.handled f :: xs) ∧
      c'.waiting = waiting ∧ c'.handled = c.handled + 1 ∧
      (((∀ envelope, c.session.judge s.engine.epoch f ≠ .admitted envelope) ∧
          c'.dispatching = none ∧ c'.session = c.session.next s.engine.epoch f ∧
          .received c.handled f :: xs = frameEvents c.session s.engine.epoch c.handled f) ∨
        ∃ envelope, c.session.judge s.engine.epoch f = .admitted envelope ∧ xs = [] ∧
          c'.session = c.session ∧ c'.dispatching = some (f, envelope)) := by
  have hidle : ¬ c.idle = false := by
    rw [Connection.idle, hd]
    exact Bool.noConfusion
  unfold handle
  rw [hc]
  dsimp only
  rw [hw]
  dsimp only
  rw [if_neg hidle]
  cases hj : c.session.judge s.engine.epoch f with
  | terminate status =>
    have hsend := Connection.send_same { c with waiting := waiting, handled := c.handled + 1 }
      .response (Writer.run (encodeResponseEnvelope f.header.type.code status) ++ [])
      s.options.maxFramePayload takes
    exact ⟨_, _, rfl, Connection.send_waiting _ _ _ _ _, hsend.handled,
      .inl ⟨fun _ => Admission.noConfusion, hsend.dispatching.trans hd,
        hsend.session.trans (SessionState.next_terminate hj).symm, by rw [frameEvents, hj]⟩⟩
  | refuse status =>
    have hsend := Connection.send_same { c with waiting := waiting, handled := c.handled + 1 }
      .response (Writer.run (encodeResponseEnvelope f.header.type.code status) ++ [])
      s.options.maxFramePayload takes
    exact ⟨_, _, rfl, Connection.send_waiting _ _ _ _ _, hsend.handled,
      .inl ⟨fun _ => Admission.noConfusion, hsend.dispatching.trans hd,
        hsend.session.trans (SessionState.next_refuse hj).symm, by rw [frameEvents, hj]⟩⟩
  | welcome request =>
    dsimp only
    generalize hsent : Connection.send _ MessageType.helloAck _ _ _ = sent
    have hsend : Connection.Same { c with
        waiting := waiting
        handled := c.handled + 1
        session := c.session.next s.engine.epoch f } sent.1 := by
      rw [← hsent]
      exact Connection.send_same _ _ _ _ _
    have hwaiting : sent.1.waiting = waiting := by
      rw [← hsent]
      exact Connection.send_waiting _ _ _ _ _
    have hsend' : Connection.Same { c with
        waiting := waiting
        handled := c.handled + 1
        session := c.session.next s.engine.epoch f }
        (if sent.2 = true then sent.1 else sent.1.shutDown) := by
      split
      · exact hsend
      · exact hsend.trans sent.1.shutDown_same
    refine ⟨_, _, rfl, ?_, hsend'.handled, .inl ⟨fun _ => Admission.noConfusion,
      hsend'.dispatching.trans hd, hsend'.session, by rw [frameEvents, hj]⟩⟩
    split <;> exact hwaiting
  | admitted envelope =>
    exact ⟨_, _, rfl, rfl, rfl, .inr ⟨envelope, rfl, rfl, rfl, rfl⟩⟩

theorem handle_cases (s : Server) (i : Nat) (takes : Bool) :
    s.handle i takes = s ∨ ∃ c f c' xs, s.connections[i]? = some c ∧ c.dispatching = none ∧
      s.handle i takes = (s.update i c').note i (.received c.handled f :: xs) ∧
      c'.handled = c.handled + 1 ∧
      ((c'.dispatching = none ∧ c'.session = c.session.next s.engine.epoch f ∧
          .received c.handled f :: xs = frameEvents c.session s.engine.epoch c.handled f) ∨
        ∃ envelope, c.session.judge s.engine.epoch f = .admitted envelope ∧ xs = [] ∧
          c'.session = c.session ∧ c'.dispatching = some (f, envelope)) := by
  cases hc : s.connections[i]? with
  | none =>
    left
    rw [handle, hc]
  | some c =>
    cases hw : c.waiting with
    | nil =>
      left
      rw [handle, hc]
      dsimp only
      rw [hw]
    | cons f waiting =>
      cases hd : c.dispatching with
      | some busy =>
        left
        rw [handle, hc]
        dsimp only
        rw [hw]
        dsimp only
        rw [if_pos (by rw [Connection.idle, hd]; rfl)]
      | none =>
        obtain ⟨c', xs, hstep, -, hn, hrest⟩ := s.handle_first hc hd hw takes
        exact .inr ⟨c, f, c', xs, rfl, hd, hstep, hn, hrest.imp_left And.right⟩

theorem handle_ok (h : s.Ok current) (i : Nat) (takes : Bool) : (s.handle i takes).Ok current := by
  rcases s.handle_cases i takes with hsame | ⟨c, f, c', xs, hc, hd, hstep, hhandled, hcase⟩
  · rw [hsame]
    exact h
  · obtain ⟨frames, ha⟩ := h.agrees i c hc
    obtain ⟨hs, hn, he⟩ := Agrees.of_idle ha hd
    rw [hstep]
    rw [h.epoch] at hcase
    rcases hcase with ⟨hd', hsession, hxs⟩ | ⟨envelope, hj, rfl, hsession, hd'⟩
    · exact h.replace hc (Agrees.handled hs hn he hsession hhandled hd' hxs)
    · refine @Ok.replace _ _ h _ _ _ hc _ (frames ++ [f]) (.busy hd' ?_ ?_ ?_ ?_)
      · rw [hsession]
        exact hs
      · rw [hhandled, hn]
      · rw [hsession, he, hn]
      · rw [hsession]
        exact hj

/-- The frame that is being carried out, with its session. -/
theorem Agrees.of_busy {c : Connection} {events : List SessionEvent} {frames : List Frame}
    {f : Frame} {envelope : SessionEnvelope} (h : Connection.Agrees c current events frames)
    (hd : c.dispatching = some (f, envelope)) :
    ∃ done, frames = done ++ [f] ∧
      c.session = SessionState.after { id := c.session.id } current done ∧
      c.handled = done.length + 1 ∧
      events = replayFrames { id := c.session.id } current 0 done ++ [.received done.length f] ∧
      c.session.judge current f = .admitted envelope := by
  cases h with
  | idle hd' =>
    rw [hd] at hd'
    cases hd'
  | busy hd' hs hn he hj =>
    rw [hd] at hd'
    cases hd'
    exact ⟨_, rfl, hs, hn, he, hj⟩

theorem answer_ok (h : s.Ok current) {i : Nat} {c : Connection} {f : Frame}
    {envelope : SessionEnvelope} (hc : s.connections[i]? = some c)
    (hd : c.dispatching = some (f, envelope)) {xs : List SessionEvent}
    (hxs : frameEvents c.session current (c.handled - 1) f =
      .received (c.handled - 1) f :: xs) (status : Status) (body : Bytes) (stopAfter takes : Bool) :
    ((s.answer i c f envelope status body stopAfter takes).note i xs).Ok current := by
  obtain ⟨frames, ha⟩ := h.agrees i c hc
  obtain ⟨done, rfl, hs, hn, he, hj⟩ := Agrees.of_busy ha hd
  generalize hsent : Connection.sendResponse { c with
      session := { c.session with lastSeq := envelope.seq }
      dispatching := none } f.header.type status body s.options.maxFramePayload takes = sent
  have hsend : Connection.Same { c with
      session := { c.session with lastSeq := envelope.seq }
      dispatching := none } sent.1 := by
    rw [← hsent]
    exact Connection.send_same _ _ _ _ _
  have hlast : c.handled - 1 = done.length := by omega
  have hagrees : ∀ c', Connection.Same { c with
      session := { c.session with lastSeq := envelope.seq }
      dispatching := none } c' →
      Connection.Agrees c' current (s.events i ++ xs) (done ++ [f]) := by
    intro c' hsame
    have hid : c'.session.id = c.session.id := by rw [hsame.session]
    refine .idle hsame.dispatching ?_ ?_ ?_
    · rw [hid, SessionState.after_concat, ← hs, SessionState.next_admitted hj, hsame.session]
    · rw [hsame.handled, List.length_append, List.length_singleton]
      exact hn
    · rw [hid, replayFrames_concat, ← hs, he, List.append_assoc, ← hlast, hxs]
      rfl
  unfold answer
  dsimp only
  rw [hsent]
  split
  · exact h.replace hc (hagrees _ (hsend.trans sent.1.shutDown_same))
  · split
    · exact (h.replace hc (hagrees _ hsend)).shutAll true
    · exact h.replace hc (hagrees _ hsend)

/-- Carrying out a request is at most one operation of the engine. -/
theorem serve_engine (e : Engine) (request : Request) :
    (e.serve request).engine =
      match request.operation? with
      | none => e
      | some op => (e.perform op).1 := by
  cases request with
  | operate op =>
    unfold Engine.serve Request.operation?
    dsimp only
    generalize e.perform op = performed
    obtain ⟨e', answer⟩ := performed
    cases answer with
    | status status => rfl
    | decision r => cases r <;> rfl
  | inspect limit => rfl
  | claim maxCount => rfl
  | ping => rfl
  | shutdown => rfl

/-- What the second half of handling a frame does. -/
theorem dispatch_cases (s : Server) (i : Nat) (takes : Bool) :
    s.dispatch i takes = s ∨ ∃ c f envelope, s.connections[i]? = some c ∧
      c.dispatching = some (f, envelope) ∧
      ((∃ status, f.request = .error status ∧
          s.dispatch i takes = s.answer i c f envelope status [] false takes) ∨
        ∃ request stopAfter, f.request = .ok request ∧
          s.dispatch i takes =
            ({ s with engine := (s.engine.serve request).engine }.answer i c f envelope
              (s.engine.serve request).status (s.engine.serve request).body stopAfter takes).note i
              [.executed (c.handled - 1) envelope request s.engine.epoch]) := by
  unfold dispatch
  split
  · exact .inl rfl
  · rename_i c hc
    split
    · exact .inl rfl
    · rename_i f envelope hd
      right
      refine ⟨c, f, envelope, hc, hd, ?_⟩
      cases hr : f.request with
      | error status => exact .inl ⟨status, rfl, rfl⟩
      | ok request => exact .inr ⟨request, _, rfl, rfl⟩

theorem dispatch_ok (h : s.Ok current) (i : Nat) (takes : Bool) :
    (s.dispatch i takes).Ok current := by
  rcases s.dispatch_cases i takes with hsame | ⟨c, f, envelope, hc, hd, hcase⟩
  · rw [hsame]
    exact h
  · obtain ⟨frames, ha⟩ := h.agrees i c hc
    obtain ⟨done, -, -, -, -, hj⟩ := Agrees.of_busy ha hd
    rcases hcase with ⟨status, hr, hstep⟩ | ⟨request, stopAfter, hr, hstep⟩
    · have := @answer_ok _ _ h _ _ _ _ hc hd [] (by rw [frameEvents, hj, hr]) status [] false takes
      rw [hstep]
      rwa [note, List.map_nil, List.append_nil] at this
    · have hreach : Reachable (s.engine.serve request).engine ∧
          (s.engine.serve request).engine.epoch = s.engine.epoch := by
        rw [serve_engine]
        cases request.operation? with
        | none => exact ⟨h.engine, rfl⟩
        | some op => exact ⟨h.engine.perform op, Engine.perform_epoch h.engine op⟩
      rw [hstep]
      refine answer_ok (h.withEngine hreach.1 hreach.2) hc hd ?_ _ _ _ takes
      rw [frameEvents, hj, hr, h.epoch]

theorem step_ok (h : s.Ok current) (a : Action) : (s.step a).Ok current := by
  cases a with
  | accept => exact accept_ok h
  | read i chunk => exact read_ok h i chunk
  | leave i => exact leave_ok h i
  | handle i takes => exact handle_ok h i takes
  | dispatch i takes => exact dispatch_ok h i takes
  | operate op => exact h.withEngine (h.engine.perform op) (Engine.perform_epoch h.engine op)

theorem start_ok {o : ServerOptions} {e : Engine} (he : Reachable e) (hs : start o e = .ok s) :
    s.Ok e.epoch := by
  unfold start at hs
  split at hs
  · cases hs
  · split at hs
    · cases hs
    · cases hs
      exact ⟨he, rfl, fun i c hc => (by cases hc), fun _ _ => rfl⟩

theorem run_ok (h : s.Ok current) (actions : List Action) : (s.run actions).Ok current := by
  induction actions using List.reverseRecOn with
  | nil => exact h
  | append_singleton actions a ih =>
    rw [run_append]
    exact step_ok ih a

/-- The events of a connection are those of the frames that were handled on it. -/
theorem run_agrees {o : ServerOptions} {e : Engine} (he : Reachable e) (hs : start o e = .ok s)
    (actions : List Action) {i : Nat} {c : Connection}
    (hc : (s.run actions).connections[i]? = some c) :
    ∃ frames, c.Agrees e.epoch ((s.run actions).events i) frames :=
  (run_ok (start_ok he hs) actions).agrees i c hc

/-! ## One step and the engine -/

@[simp] theorem answer_engine (s : Server) (i : Nat) (c : Connection) (f : Frame)
    (envelope : SessionEnvelope) (status : Status) (body : Bytes) (stopAfter takes : Bool) :
    (s.answer i c f envelope status body stopAfter takes).engine = s.engine ∧
      (s.answer i c f envelope status body stopAfter takes).log = s.log := by
  unfold answer
  dsimp only
  split
  · exact ⟨rfl, rfl⟩
  · split <;> exact ⟨rfl, rfl⟩

/-- What a step of another kind changes. -/
theorem step_quiet (s : Server) {a : Action}
    (ha : a = .accept ∨ (∃ i chunk, a = .read i chunk) ∨ ∃ i, a = .leave i) :
    (s.step a).engine = s.engine ∧ (s.step a).log = s.log := by
  rcases ha with rfl | ⟨i, chunk, rfl⟩ | ⟨i, rfl⟩
  · change s.accept.engine = _ ∧ s.accept.log = _
    unfold accept
    split <;> exact ⟨rfl, rfl⟩
  · change (s.read i chunk).engine = _ ∧ (s.read i chunk).log = _
    unfold read
    split
    · exact ⟨rfl, rfl⟩
    · split <;> exact ⟨rfl, rfl⟩
  · change (s.leave i).engine = _ ∧ (s.leave i).log = _
    unfold leave
    split
    · exact ⟨rfl, rfl⟩
    · split <;> exact ⟨rfl, rfl⟩

/-- The engine changes only through its owner and through requests that are carried out, by one
operation each. -/
theorem step_engine (s : Server) (a : Action) :
    (s.step a).engine = s.engine ∨
      (∃ op, a = .operate op ∧ (s.step a).engine = (s.engine.perform op).1) ∨
      ∃ i n envelope op, (s.step a).log =
          s.log ++ [(i, .executed n envelope (.operate op) s.engine.epoch)] ∧
        (s.step a).engine = (s.engine.perform op).1 := by
  cases a with
  | accept => exact .inl (s.step_quiet (.inl rfl)).1
  | read i chunk => exact .inl (s.step_quiet (.inr (.inl ⟨i, chunk, rfl⟩))).1
  | leave i => exact .inl (s.step_quiet (.inr (.inr ⟨i, rfl⟩))).1
  | handle i takes =>
    left
    rcases s.handle_cases i takes with hsame | ⟨c, f, c', xs, -, -, hstep, -⟩
    · exact congrArg Server.engine hsame
    · exact (congrArg Server.engine hstep).trans rfl
  | operate op => exact .inr (.inl ⟨op, rfl, rfl⟩)
  | dispatch i takes =>
    rcases s.dispatch_cases i takes with hsame | ⟨c, f, envelope, -, -, hcase⟩
    · exact .inl (congrArg Server.engine hsame)
    · rcases hcase with ⟨status, -, hstep⟩ | ⟨request, stopAfter, -, hstep⟩
      · left
        exact (congrArg Server.engine hstep).trans (answer_engine s _ _ _ _ _ _ _ _).1
      · obtain ⟨hengine, hlog⟩ := answer_engine
          { s with engine := (s.engine.serve request).engine } i c f envelope
          (s.engine.serve request).status (s.engine.serve request).body stopAfter takes
        have hafter : (s.dispatch i takes).engine = (s.engine.serve request).engine :=
          (congrArg Server.engine hstep).trans hengine
        have hlog' : (s.dispatch i takes).log =
            s.log ++ [(i, .executed (c.handled - 1) envelope request s.engine.epoch)] := by
          rw [hstep, note, hlog]
          rfl
        have hserve := serve_engine s.engine request
        cases request with
        | operate op => exact .inr (.inr ⟨i, _, envelope, op, hlog', hafter.trans hserve⟩)
        | inspect | claim | ping | shutdown => exact .inl (hafter.trans hserve)

/-- A frame that the handshake or the envelope checks turn away leaves its session and the engine
as they were. -/
theorem step_refuses (s : Server) (a : Action) {i n : Nat} {status : Status}
    (h : (i, SessionEvent.refused n status) ∈ (s.step a).log.drop s.log.length ∨
      (i, SessionEvent.terminated n status) ∈ (s.step a).log.drop s.log.length) :
    (s.step a).engine = s.engine ∧
      ∃ c c', s.connections[i]? = some c ∧ (s.step a).connections[i]? = some c' ∧
        c'.session = c.session := by
  have hnew : ∀ {xs}, (s.step a).log = s.log ++ xs →
      (i, SessionEvent.refused n status) ∈ xs ∨ (i, SessionEvent.terminated n status) ∈ xs := by
    intro xs hlog
    rwa [hlog, List.drop_left] at h
  have hquiet : (s.step a).log ≠ s.log := by
    intro hlog
    have := @hnew [] (by rw [hlog, List.append_nil])
    simp at this
  cases a with
  | accept => exact absurd (s.step_quiet (.inl rfl)).2 hquiet
  | read j chunk => exact absurd (s.step_quiet (.inr (.inl ⟨j, chunk, rfl⟩))).2 hquiet
  | leave j => exact absurd (s.step_quiet (.inr (.inr ⟨j, rfl⟩))).2 hquiet
  | operate op => exact absurd rfl hquiet
  | dispatch j takes =>
    rcases s.dispatch_cases j takes with hsame | ⟨c, f, envelope, -, -, hcase⟩
    · exact absurd (congrArg Server.log hsame) hquiet
    · rcases hcase with ⟨status', -, hstep⟩ | ⟨request, stopAfter, -, hstep⟩
      · exact absurd ((congrArg Server.log hstep).trans (answer_engine s _ _ _ _ _ _ _ _).2) hquiet
      · have hlog : (s.dispatch j takes).log =
            s.log ++ [(j, .executed (c.handled - 1) envelope request s.engine.epoch)] := by
          rw [hstep, note, (answer_engine _ _ _ _ _ _ _ _ _).2]
          rfl
        have := hnew hlog
        simp at this
  | handle j takes =>
    rcases s.handle_cases j takes with hsame | ⟨c, f, c', xs, hc, -, hstep, -, hcase⟩
    · exact absurd (congrArg Server.log hsame) hquiet
    · have hlog : (s.handle j takes).log = s.log ++
          (SessionEvent.received c.handled f :: xs).map fun e => (j, e) := by
        rw [hstep]
        rfl
      have hmem := hnew hlog
      have hj : i = j ∧ (SessionEvent.refused n status ∈ SessionEvent.received c.handled f :: xs ∨
          SessionEvent.terminated n status ∈ SessionEvent.received c.handled f :: xs) := by
        rcases hmem with hmem | hmem <;> obtain ⟨x, hx, he⟩ := List.mem_map.mp hmem <;> cases he
        · exact ⟨rfl, .inl hx⟩
        · exact ⟨rfl, .inr hx⟩
      obtain ⟨rfl, hx⟩ := hj
      have hi : i < s.connections.length := (List.getElem?_eq_some_iff.mp hc).1
      refine ⟨(congrArg Server.engine hstep).trans rfl, c, c', hc, ?_, ?_⟩
      · change (s.handle i takes).connections[i]? = _
        rw [hstep]
        exact List.getElem?_set_self hi
      · rcases hcase with ⟨-, hsession, hxs⟩ | ⟨envelope, -, rfl, -⟩
        · rw [hxs] at hx
          rw [hsession]
          unfold frameEvents at hx
          cases hj : c.session.judge s.engine.epoch f with
          | terminate status' => exact SessionState.next_terminate hj
          | refuse status' => exact SessionState.next_refuse hj
          | welcome hello =>
            rw [hj] at hx
            simp at hx
          | admitted envelope =>
            rw [hj] at hx
            cases hr : f.request <;> rw [hr] at hx <;> simp at hx
        · simp at hx

end Server

/-! ## A thread that handles a chunk -/

/-- A thread between two frames, with what happened on its connection. -/
structure Server.At (s : Server) (i : Nat) (current : Epoch) (session : SessionState)
    (handled : Nat) (waiting : List Frame) (events : List SessionEvent) : Prop where
  epoch : s.engine.epoch = current
  events : s.events i = events
  thread : ∃ c, s.connections[i]? = some c ∧ c.dispatching = none ∧ c.session = session ∧
    c.handled = handled ∧ c.waiting = waiting

section Thread

variable {s : Server} {i n : Nat} {current : Epoch} {session : SessionState} {f : Frame}
  {waiting : List Frame} {events : List SessionEvent}

/-- A frame without a request that is let through. -/
theorem Server.At.handle (h : s.At i current session n (f :: waiting) events)
    (hj : ∀ envelope, session.judge current f ≠ .admitted envelope) (takes : Bool) :
    (s.handle i takes).At i current (session.next current f) (n + 1) waiting
      (events ++ frameEvents session current n f) := by
  obtain ⟨c, hc, hd, hs, hn, hw⟩ := h.thread
  have hi : i < s.connections.length := (List.getElem?_eq_some_iff.mp hc).1
  obtain ⟨c', xs, hstep, hw', hn', hcase⟩ := s.handle_first hc hd hw takes
  rw [h.epoch, hs, hn] at hcase
  rcases hcase with ⟨-, hd', hs', hxs⟩ | ⟨envelope, hadmitted, -⟩
  · rw [hstep]
    refine ⟨h.epoch, ?_, c', List.getElem?_set_self hi, hd', hs', by rw [hn', hn], hw'⟩
    rw [Server.events_note, if_pos rfl, hn, hxs]
    exact congrArg (· ++ _) h.events
  · exact absurd hadmitted (hj envelope)

/-- The connection of a request that was answered goes on with the sequence used up. -/
theorem Server.answer_connection {c : Connection} (hi : i < s.connections.length) (f : Frame)
    (envelope : SessionEnvelope) (status : Status) (body : Bytes) (stopAfter takes : Bool) :
    ∃ c', (s.answer i c f envelope status body stopAfter takes).connections[i]? = some c' ∧
      Connection.Same { c with
        session := { c.session with lastSeq := envelope.seq }
        dispatching := none } c' ∧ c'.waiting = c.waiting := by
  unfold answer
  dsimp only
  generalize hsent : Connection.sendResponse { c with
      session := { c.session with lastSeq := envelope.seq }
      dispatching := none } f.header.type status body s.options.maxFramePayload takes = sent
  have hsame : Connection.Same { c with
      session := { c.session with lastSeq := envelope.seq }
      dispatching := none } sent.1 := by
    rw [← hsent]
    exact Connection.send_same _ _ _ _ _
  have hwaiting : sent.1.waiting = c.waiting := by
    rw [← hsent]
    exact Connection.send_waiting _ _ _ _ _
  split
  · exact ⟨_, List.getElem?_set_self hi, hsame.trans sent.1.shutDown_same, hwaiting⟩
  split
  · refine ⟨sent.1.shutDown, ?_, hsame.trans sent.1.shutDown_same, hwaiting⟩
    change ((s.connections.set i sent.1).map Connection.shutDown)[i]? = _
    rw [List.getElem?_map, List.getElem?_set_self hi]
    rfl
  · exact ⟨_, List.getElem?_set_self hi, hsame, hwaiting⟩

/-- A frame whose request is carried out. -/
theorem Server.At.carry (h : s.At i current session n (f :: waiting) events)
    (he : Reachable s.engine) {envelope : SessionEnvelope}
    (hj : session.judge current f = .admitted envelope) {request : Request}
    (hr : f.request = .ok request) (takes takes' : Bool) :
    ((s.handle i takes).dispatch i takes').At i current (session.next current f) (n + 1) waiting
      (events ++ frameEvents session current n f) := by
  obtain ⟨c, hc, hd, hs, hn, hw⟩ := h.thread
  have hi : i < s.connections.length := (List.getElem?_eq_some_iff.mp hc).1
  obtain ⟨c', xs, hstep, hw', hn', hcase⟩ := s.handle_first hc hd hw takes
  rw [h.epoch, hs, hn] at hcase
  rcases hcase with ⟨hno, -⟩ | ⟨found, hfound, rfl, hs', hd'⟩
  · exact absurd hj (hno envelope)
  · rw [hj] at hfound
    cases hfound
    have hc' : (s.handle i takes).connections[i]? = some c' := by
      rw [hstep]
      exact List.getElem?_set_self hi
    have hengine : (s.handle i takes).engine = s.engine := by
      rw [hstep]
      rfl
    have hepoch : ((s.handle i takes).engine.serve request).engine.epoch = current := by
      rw [Server.serve_engine, hengine]
      cases request.operation? with
      | none => exact h.epoch
      | some op => exact (Engine.perform_epoch he op).trans h.epoch
    rw [Server.dispatch, hc']
    dsimp only
    rw [hd']
    dsimp only
    rw [hr]
    dsimp only
    have hanswered := fun stopAfter => @Server.answer_connection
      { s.handle i takes with engine := ((s.handle i takes).engine.serve request).engine } i c'
      (List.getElem?_eq_some_iff.mp hc').1 f envelope
      ((s.handle i takes).engine.serve request).status
      ((s.handle i takes).engine.serve request).body stopAfter takes'
    have hsession : { c'.session with lastSeq := envelope.seq } = session.next current f := by
      rw [SessionState.next_admitted hj, hs']
    have hhandled : c'.handled = n + 1 := by rw [hn', hn]
    refine ⟨?_, ?_, (hanswered _).imp fun c'' h => ⟨h.1, h.2.1.dispatching,
      h.2.1.session.trans hsession, h.2.1.handled.trans hhandled, h.2.2.trans hw'⟩⟩
    · rw [← hepoch]
      exact congrArg Engine.epoch (Server.answer_engine _ _ _ _ _ _ _ _ _).1
    · rw [Server.events_note, if_pos rfl, Server.events,
        (Server.answer_engine _ _ _ _ _ _ _ _ _).2]
      change (s.handle i takes).events i ++ _ = _
      rw [hstep, Server.events_note, if_pos rfl, frameEvents, hj, hr, hn', hn,
        Nat.add_sub_cancel]
      change s.events i ++ _ ++ _ = _
      rw [h.events, List.append_assoc, ← h.epoch]
      rfl

/-- The first connection of a server has read written frames in one chunk. -/
theorem Server.read_written {o : ServerOptions} {e : Engine} (hs : Server.start o e = .ok s)
    {written : List (MessageType × Bytes)} {encode : MessageType × Bytes → Bytes}
    (h : ∀ w ∈ written, encodeFrame w.1 0 w.2 o.maxFramePayload = .ok (encode w))
    (hfit : (written.flatMap encode).length ≤ FrameDecoder.limit o.maxFramePayload) :
    (s.accept.read 0 (written.flatMap encode)).At 0 e.epoch { id := 1 } 0
      (written.map fun w => Frame.of w.1 w.2) [] := by
  unfold Server.start at hs
  split at hs
  · cases hs
  · rename_i hroom
    split at hs
    · cases hs
    · cases hs
      have haccept : ¬ (false = true ∨
          (([] : List Connection).filter fun c => !c.stopped).length ≥ o.maxSessions) := by
        rintro (h | h)
        · cases h
        · exact hroom (Nat.le_zero.mp h)
      have hpush := FrameDecoder.push_written h hfit
      rw [Server.accept, if_neg haccept]
      refine ⟨rfl, rfl, _, rfl, rfl, rfl, rfl, ?_⟩
      exact congrArg Prod.fst hpush

end Thread

/-! ## A client that asks for a failover -/

/-- A written frame whose payload fits is read back from the bytes of its frames. -/
theorem encodeFrame_fits {type : MessageType} {payload : Bytes} {maxPayload : UInt64}
    (h : payload.length ≤ (clampPayload maxPayload).toNat) :
    ∃ bytes, encodeFrame type 0 payload maxPayload = .ok bytes := by
  unfold encodeFrame
  rw [if_neg (Nat.not_lt.mpr h), if_neg (not_not.mpr rfl)]
  exact ⟨_, rfl⟩

theorem SessionEnvelope.encode_length (v : SessionEnvelope) :
    (Writer.run v.encode).length = kEnvelopeSize := by
  simp [Writer.run, encode, Writer.fields, Writer.u64, Writer.uint, Writer.fixed, kEnvelopeSize,
    v.incarnation.size]

/-- The envelope and the request of a frame that was written with them. -/
theorem Frame.of_envelope {type : MessageType} (ht : type ≠ .hello) (v : SessionEnvelope)
    (body : Bytes) : (Frame.of type (Writer.run v.encode ++ body)).envelope? = some v := by
  have hlong : ¬ (Writer.run v.encode ++ body).length < kEnvelopeSize := by
    rw [List.length_append, v.encode_length]
    omega
  rw [envelope?, if_neg (by rintro (h | h); exacts [ht h, hlong h])]
  change (SessionEnvelope.decode (Writer.run v.encode ++ body)).map _ = _
  rw [v.roundTrip.reads body]
  rfl

theorem Frame.of_request {type : MessageType} (v : SessionEnvelope) (body : Bytes) :
    (Frame.of type (Writer.run v.encode ++ body)).request = parseRequest type body := by
  change parseRequest type ((Writer.run v.encode ++ body).drop kEnvelopeSize) = _
  rw [List.drop_left' v.encode_length]

namespace Sample

def hello : HelloRequest := { clientIncarnation := incarnation 3 }

def helloFrame : Frame := Frame.of .hello (Writer.run hello.encode)

def envelope (current : Epoch) : SessionEnvelope where
  sessionId := 1
  epoch := current
  incarnation := incarnation 3
  seq := ⟨1⟩

def askFrame (current : Epoch) : Frame :=
  Frame.of .requestFailover
    (Writer.run (envelope current).encode ++ Writer.run (request ⟨1⟩).encode)

theorem helloFrame_hello : helloFrame.hello? = some hello := by
  have hread : HelloRequest.decode.whole helloFrame.payload = some hello :=
    (HelloRequest.roundTrip rfl (by decide)).whole
  have htype : helloFrame.header.type = .hello := rfl
  rw [Frame.hello?, if_pos htype, hread]
  rfl

theorem askFrame_envelope (current : Epoch) :
    (askFrame current).envelope? = some (envelope current) :=
  Frame.of_envelope (by decide) _ _

theorem askFrame_request (current : Epoch) :
    (askFrame current).request = .ok (.operate (.requestFailover (request ⟨1⟩))) := by
  rw [askFrame, Frame.of_request, parseRequest, readBody,
    (FailoverRequest.roundTrip (by decide) (by decide)).whole]

/-- The session of the client behind its handshake. -/
def opened (current : Epoch) : SessionState where
  id := 1
  client := incarnation 3
  epoch := current
  handshaken := true

theorem judge_hello (current : Epoch) :
    ({ id := 1 } : SessionState).judge current helloFrame = .welcome hello :=
  SessionState.judge_welcome.mpr ⟨rfl, helloFrame_hello⟩

theorem judge_ask (current : Epoch) :
    (opened current).judge current (askFrame current) = .admitted (envelope current) :=
  SessionState.judge_admitted.mpr
    ⟨rfl, askFrame_envelope current, rfl, rfl, rfl, (by decide : (.zero : SessionSeq) < ⟨1⟩)⟩

theorem next_hello (current : Epoch) :
    ({ id := 1 } : SessionState).next current helloFrame = opened current :=
  SessionState.next_welcome (judge_hello current)

/-- What the client sends, in front of which there may be a ping. -/
def asks (ping : Bool) (current : Epoch) : List (MessageType × Bytes) :=
  (if ping then [(.ping, [])] else []) ++
    [(.hello, Writer.run hello.encode),
      (.requestFailover,
        Writer.run (envelope current).encode ++ Writer.run (request ⟨1⟩).encode)]

def encoded (w : MessageType × Bytes) : Bytes :=
  ((encodeFrame w.1 0 w.2 kDefaultFramePayload).toOption).getD []

theorem asks_short (ping : Bool) (current : Epoch) : ∀ w ∈ asks ping current, w.2.length ≤ 300 := by
  have hask : (Writer.run (envelope current).encode ++ Writer.run (request ⟨1⟩).encode).length ≤
      300 := by
    rw [List.length_append, SessionEnvelope.encode_length]
    decide
  intro w hw
  rcases List.mem_append.mp hw with hw | hw
  · cases ping with
    | false => exact absurd hw List.not_mem_nil
    | true =>
      rw [List.mem_singleton.mp hw]
      decide
  · rcases List.mem_cons.mp hw with rfl | hw
    · decide
    · rw [List.mem_singleton.mp hw]
      exact hask

theorem encoded_asks {ping : Bool} {current : Epoch} {w : MessageType × Bytes}
    (hw : w ∈ asks ping current) :
    encodeFrame w.1 0 w.2 kDefaultFramePayload = .ok (encoded w) ∧ (encoded w).length ≤ 320 := by
  have hlen := asks_short ping current w hw
  obtain ⟨bytes, hb⟩ := @encodeFrame_fits w.1 w.2 kDefaultFramePayload
    (Nat.le_trans hlen (by decide))
  have henc : encoded w = bytes := by
    rw [encoded, hb]
    rfl
  rw [henc]
  refine ⟨hb, ?_⟩
  rw [(encodeFrame_ok hb).2, List.length_append, List.length_append, rawFrameHead_length _ rfl,
    leBytes_length]
  omega

theorem asks_length (ping : Bool) (current : Epoch) :
    ((asks ping current).flatMap encoded).length ≤ 960 := by
  have h : ∀ {l : List (MessageType × Bytes)}, (∀ w ∈ l, (encoded w).length ≤ 320) →
      (l.flatMap encoded).length ≤ 320 * l.length := by
    intro l hl
    induction l with
    | nil => exact Nat.le_refl _
    | cons w l ih =>
      have h1 := hl w List.mem_cons_self
      have h2 := ih fun x hx => hl x (List.mem_cons_of_mem _ hx)
      rw [List.flatMap_cons, List.length_append, List.length_cons]
      omega
  have hlen : (asks ping current).length ≤ 3 := by cases ping <;> simp [asks]
  have := h (l := asks ping current) fun w hw => (encoded_asks hw).2
  omega

theorem asks_fit (ping : Bool) (current : Epoch) :
    ((asks ping current).flatMap encoded).length ≤ FrameDecoder.limit kDefaultFramePayload :=
  Nat.le_trans (asks_length ping current) (by decide)

/-- The steps in which a server serves the client: they are accepted, and their frames are read
at once. -/
def session (ping : Bool) (current : Epoch) : List Server.Action :=
  [.accept, .read 0 ((asks ping current).flatMap encoded)] ++
    (if ping then [.handle 0 true] else []) ++ [.handle 0 true, .handle 0 true, .dispatch 0 true]

/-- What happens on the connection. -/
theorem session_events {e : Engine} {s : Server} (he : Reachable e)
    (hs : Server.start {} e = .ok s) : (s.run (session false e.epoch)).events 0 =
      frameEvents { id := 1 } e.epoch 0 helloFrame ++
        frameEvents (opened e.epoch) e.epoch 1 (askFrame e.epoch) := by
  have h0 := Server.read_written hs (fun w hw => (encoded_asks hw).1) (asks_fit false e.epoch)
  have h1 := Server.At.handle (f := helloFrame) h0
    (fun envelope h => by rw [judge_hello] at h; cases h) true
  rw [next_hello] at h1
  have hreach := (Server.run_ok (Server.start_ok he hs)
    [.accept, .read 0 ((asks false e.epoch).flatMap encoded), .handle 0 true]).engine
  exact (Server.At.carry h1 hreach (judge_ask e.epoch) (askFrame_request e.epoch) true true).events

end Sample

/-! ## Session safety -/

/-- In every run of a server, whatever the steps of other connections and of the owner of the
engine in between:

* a request is handed to the engine only behind the one handshake that its connection accepted,
  and the envelope of its frame carries the id of the session, the incarnation of the handshake,
  the epoch of the engine and a sequence above all sequences of requests handed over before;
* every frame hands over at most one request, and the engine changes only by the operation of
  such a request or by its owner;
* a frame that is turned away leaves its session and the engine as they were. -/
theorem session_safety {o : ServerOptions} {e : Engine} {s : Server} (he : Reachable e)
    (hs : Server.start o e = .ok s) (actions : List Server.Action) :
    (∀ i before rest n envelope request current,
      (s.run actions).events i = before ++ .executed n envelope request current :: rest →
        current = (s.run actions).engine.epoch ∧ envelope.epoch = current ∧
        (∃ c, (s.run actions).connections[i]? = some c ∧ envelope.sessionId = c.session.id) ∧
        (∃ k hello, .welcomed k hello ∈ before ∧
          envelope.incarnation = hello.clientIncarnation ∧
          ∀ k' hello', .welcomed k' hello' ∈ (s.run actions).events i → hello' = hello) ∧
        (∃ f, .received n f ∈ before ∧ f.envelope? = some envelope ∧ f.request = .ok request) ∧
        ∀ k env r cur, .executed k env r cur ∈ before → k < n ∧ env.seq < envelope.seq) ∧
    (∀ a, ((s.run actions).step a).engine = (s.run actions).engine ∨
      (∃ op, a = .operate op ∧
        ((s.run actions).step a).engine = ((s.run actions).engine.perform op).1) ∨
      ∃ i n envelope op, ((s.run actions).step a).log = (s.run actions).log ++
          [(i, .executed n envelope (.operate op) (s.run actions).engine.epoch)] ∧
        ((s.run actions).step a).engine = ((s.run actions).engine.perform op).1) ∧
    (∀ a i n status,
      ((i, SessionEvent.refused n status) ∈
          ((s.run actions).step a).log.drop (s.run actions).log.length ∨
        (i, SessionEvent.terminated n status) ∈
          ((s.run actions).step a).log.drop (s.run actions).log.length) →
      ((s.run actions).step a).engine = (s.run actions).engine ∧
        ∃ c c', (s.run actions).connections[i]? = some c ∧
          ((s.run actions).step a).connections[i]? = some c' ∧ c'.session = c.session) := by
  refine ⟨?_, (s.run actions).step_engine, fun a i n status => (s.run actions).step_refuses a⟩
  intro i before rest n envelope request current hsplit
  have hok := Server.run_ok (Server.start_ok he hs) actions
  have hi : i < (s.run actions).connections.length := by
    by_contra hge
    have hnil := hok.quiet i (Nat.not_lt.mp hge)
    rw [hsplit] at hnil
    simp at hnil
  obtain ⟨c, hc⟩ : ∃ c, (s.run actions).connections[i]? = some c :=
    ⟨_, List.getElem?_eq_getElem hi⟩
  obtain ⟨frames, ha⟩ := hok.agrees i c hc
  have hreplay : ∃ done rest', replayFrames { id := c.session.id } e.epoch 0 done =
        before ++ .executed n envelope request current :: rest' ∧
      ∀ k hello, SessionEvent.welcomed k hello ∈ (s.run actions).events i →
        SessionEvent.welcomed k hello ∈ replayFrames { id := c.session.id } e.epoch 0 done := by
    cases ha with
    | idle hd hsession hn hev =>
      exact ⟨frames, rest, by rw [← hev, hsplit], fun k hello hk => by rwa [hev] at hk⟩
    | @busy done f env hd hsession hn hev hj =>
      rw [hev] at hsplit
      rcases List.eq_nil_or_concat rest with rfl | ⟨rest', x, rfl⟩
      · have hlast := (List.append_inj' hsplit rfl).2
        cases hlast
      · rw [List.concat_eq_append, ← List.cons_append, ← List.append_assoc] at hsplit
        refine ⟨done, rest', (List.append_inj' hsplit rfl).1, fun k hello hk => ?_⟩
        rw [hev, List.mem_append, List.mem_singleton] at hk
        exact hk.resolve_right (by rintro ⟨⟩)
  obtain ⟨done, rest', hdone, hwelcomed⟩ := hreplay
  have hp := replay_executed hdone
  refine ⟨hp.epoch.1.trans hok.epoch.symm, hp.epoch.2.trans hp.epoch.1.symm, ⟨c, hc, hp.session⟩,
    ?_, hp.frame, hp.advances⟩
  rcases hp.handshake with ⟨hno, -⟩ | ⟨-, k, hello, hk, hclient⟩
  · cases hno
  · refine ⟨k, hello, hk, hclient, fun k' hello' hk' => ?_⟩
    have hmem : SessionEvent.welcomed k hello ∈
        replayFrames { id := c.session.id } e.epoch 0 done := by
      rw [hdone]
      exact List.mem_append_left _ hk
    exact replay_welcomed.2 k k' hello hello' hmem (hwelcomed k' hello' hk')

/-- The client is served. -/
theorem session_safety_sample : ∃ e s, Reachable e ∧ Server.start {} e = .ok s ∧
    ∃ before, (s.run (Sample.session false e.epoch)).events 0 =
        before ++ [.executed 1 (Sample.envelope e.epoch)
          (.operate (.requestFailover (Sample.request ⟨1⟩))) e.epoch] ∧
      ∃ k hello, .welcomed k hello ∈ before ∧ hello.clientIncarnation = Sample.incarnation 3 := by
  obtain ⟨e, he, -⟩ := @System.of_serves (System.run (Sample.booted {} {})) (fun _ => true)
    (by decide +kernel)
  obtain ⟨s, hs⟩ : ∃ s, Server.start {} e = .ok s := ⟨_, rfl⟩
  have hsplit : (s.run (Sample.session false e.epoch)).events 0 =
      [.received 0 Sample.helloFrame, .welcomed 0 Sample.hello,
        .received 1 (Sample.askFrame e.epoch)] ++ [.executed 1 (Sample.envelope e.epoch)
          (.operate (.requestFailover (Sample.request ⟨1⟩))) e.epoch] := by
    rw [Sample.session_events ⟨_, he⟩ hs, frameEvents, frameEvents, Sample.judge_hello, Sample.judge_ask]
    dsimp only
    rw [Sample.askFrame_request]
    rfl
  obtain ⟨-, -, -, ⟨k, hello, hk, hclient, -⟩, -⟩ :=
    (session_safety ⟨_, he⟩ hs (Sample.session false e.epoch)).1 0 _ _ _ _ _ _ hsplit
  exact ⟨e, s, ⟨_, he⟩, hs, _, hsplit, k, hello, hk, hclient.symm⟩

end LinkFailover
