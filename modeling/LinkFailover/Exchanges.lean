import LinkFailover.Dialogue

/-!
# Exchanges

A client sends one frame and waits. The frame is somewhere between the two ends, or its answer is,
or there will be none: at each moment at most one frame is under way.

* `Exchange`: where the frame of a client and its answer are.
* `Exchange.On.serve`, `Exchange.On.deliver`: the server takes it from one stage to the next.
* `Exchange.On.receive`: what the client gets to read.
-/

namespace LinkFailover

open Codec FrameDecoder

/-! ## Requests that are carried out -/

def SessionEvent.request? : SessionEvent → Option Request
  | .executed _ _ request _ => some request
  | _ => none

namespace Server

/-- The requests of a connection that were carried out, in order. -/
def requests (s : Server) (i : Nat) : List Request := (s.events i).filterMap SessionEvent.request?

theorem requests_of_log {s s' : Server} (h : s'.log = s.log) (i : Nat) :
    s'.requests i = s.requests i := by rw [requests, requests, events, events, h]

theorem requests_note (s : Server) (i j : Nat) (xs : List SessionEvent) :
    (s.note i xs).requests j =
      s.requests j ++ if i = j then xs.filterMap SessionEvent.request? else [] := by
  rw [requests, events_note, List.filterMap_append]
  split <;> rfl

theorem requests_quiet {s : Server} {i j : Nat} {xs : List SessionEvent}
    (h : xs.filterMap SessionEvent.request? = []) : (s.note i xs).requests j = s.requests j := by
  rw [requests_note, h, ite_self, List.append_nil]

theorem answer_requests (s : Server) (i j : Nat) (c : Connection) (f : Frame) (v : SessionEnvelope)
    (status : Status) (body : Bytes) (stopAfter takes : Bool) :
    (s.answer i c f v status body stopAfter takes).requests j = s.requests j :=
  requests_of_log (answer_engine s i c f v status body stopAfter takes).2 j

/-- Only the second half of handling a frame carries a request of its connection out. -/
theorem requests_other (s : Server) {i : Nat} {a : Action} (h : ∀ takes, a ≠ .dispatch i takes) :
    (s.step a).requests i = s.requests i := by
  cases a with
  | accept => exact requests_of_log (s.step_quiet (.inl rfl)).2 i
  | read j chunk => exact requests_of_log (s.step_quiet (.inr (.inl ⟨j, chunk, rfl⟩))).2 i
  | leave j => exact requests_of_log (s.step_quiet (.inr (.inr ⟨j, rfl⟩))).2 i
  | operate op => rfl
  | handle j takes =>
    change (s.handle j takes).requests i = _
    unfold handle
    split
    · rfl
    split
    · rfl
    split
    · rfl
    dsimp only
    split <;> exact requests_quiet rfl
  | dispatch j takes =>
    have hj : ¬ j = i := fun hj => h takes (by rw [hj])
    change (s.dispatch j takes).requests i = _
    rcases s.dispatch_cases j takes with
      hsame | ⟨c, f, v, -, -, ⟨status, -, hstep⟩ | ⟨request, stopAfter, -, hstep⟩⟩
    · rw [hsame]
    · rw [hstep, answer_requests]
    · rw [hstep, requests_note, if_neg hj, List.append_nil, answer_requests]
      rfl

end Server

/-! ## Errands -/

/-- A frame of a client, and what its answer must be. The frame finds the session of the server as
it was before. -/
structure Errand where
  current : Epoch
  /-- The most that a decoder of the server takes. -/
  max : UInt64
  /-- The most that the decoder of the client takes. -/
  small : UInt64
  type : MessageType
  payload : Bytes
  bytes : Bytes
  before : SessionState
  /-- What the server may answer when it has carried the request out, or not, and the session behind
  the answer. -/
  replies : Bool → SessionState → MessageType → Bytes → Prop

namespace Errand

def frame (q : Errand) : Frame := Frame.of q.type q.payload

/-- What becomes of the frame at the server. -/
def judged (q : Errand) : Admission := q.before.judge q.current q.frame

/-- The session of the server in front of the frame, or behind it. -/
def Follows (q : Errand) (session : SessionState) : Prop :=
  session = q.before ∨ session = q.before.next q.current q.frame

/-- A server that has the answers of an errand. -/
structure Meets (q : Errand) (s : Server) : Prop where
  epoch : s.engine.epoch = q.current
  max : s.options.maxFramePayload = q.max
  terminate : ∀ status, q.judged = .terminate status →
    q.replies false q.before .response
      (Writer.run (encodeResponseEnvelope q.type.code status) ++ [])
  refuse : ∀ status, q.judged = .refuse status →
    q.replies false q.before .response
      (Writer.run (encodeResponseEnvelope q.type.code status) ++ [])
  welcome : ∀ request, q.judged = .welcome request →
    q.replies false (q.before.next q.current q.frame) .helloAck (Writer.run (HelloResponse.encode {
      epoch := s.engine.epoch
      coordinator := s.engine.incarnation
      sessionId := (q.before.next q.current q.frame).id
      maxPayload := UInt32.ofNat q.max.toNat }))

/-- An errand of a client that listens no more. -/
def deaf (q : Errand) : Errand := { q with replies := fun _ _ _ _ => True }

theorem deaf_meets {q : Errand} {s : Server} (hepoch : s.engine.epoch = q.current)
    (hmax : s.options.maxFramePayload = q.max) : q.deaf.Meets s where
  epoch := hepoch
  max := hmax
  terminate _ _ := trivial
  refuse _ _ := trivial
  welcome _ _ := trivial

end Errand

/-- Where a frame and its answer are: in front of the server, in its hands, in front of the client,
or nowhere. The flag tells whether the request of the frame was carried out. -/
inductive Exchange (q : Errand) (done : Bool) (c : Connection) (toServer unread : Bytes)
    (d : FrameDecoder) : Prop
  | asking {front : Bytes} (hdone : done = false) (hs : front ++ toServer = q.bytes)
      (hfront : reference q.max front = ⟨[], front, none⟩) (hd : c.decoder = behind q.max front)
      (hw : c.waiting = []) (hn : c.dispatching = none) (hbefore : c.session = q.before)
      (hu : unread = []) (hc : d = behind q.small [])
  | queued (hdone : done = false) (ht : toServer = []) (hd : c.decoder = behind q.max [])
      (hw : c.waiting = [q.frame]) (hn : c.dispatching = none)
      (hbefore : c.session = q.before) (hu : unread = []) (hc : d = behind q.small [])
  | carried {v : SessionEnvelope} (hdone : done = false) (ht : toServer = [])
      (hd : c.decoder = behind q.max []) (hw : c.waiting = [])
      (hn : c.dispatching = some (q.frame, v))
      (hj : q.judged = .admitted v) (hbefore : c.session = q.before) (hu : unread = [])
      (hc : d = behind q.small [])
  | answering {type : MessageType} {payload bytes front : Bytes} (ht : toServer = [])
      (hd : c.decoder = behind q.max []) (hw : c.waiting = []) (hn : c.dispatching = none)
      (henc : encodeFrame type 0 payload q.max = .ok bytes) (hs : front ++ unread = bytes)
      (hfront : reference q.small front = ⟨[], front, none⟩) (hc : d = behind q.small front)
      (hr : q.replies done c.session type payload)
  | silent (ht : toServer = [] ∨ c.stopped = true) (hw : c.waiting = []) (hn : c.dispatching = none)
      (hu : unread = [])

namespace Exchange

variable {q : Errand} {done : Bool} {s : Server} {i taken : Nat} {c c' : Connection}
  {toServer unread : Bytes} {d : FrameDecoder}

theorem alike (h : Exchange q done c toServer unread d) (ha : c.Alike c') :
    Exchange q done c' toServer unread d := by
  obtain ⟨hsession, hdecoder, hwaiting, hdispatching, -, hstopped⟩ := ha
  cases h with
  | asking hdone hs hfront hd hw hn hbefore hu hc =>
    exact .asking hdone hs hfront (hdecoder.trans hd) (hwaiting.trans hw) (hdispatching.trans hn)
      (hsession.trans hbefore) hu hc
  | queued hdone ht hd hw hn hbefore hu hc =>
    exact .queued hdone ht (hdecoder.trans hd) (hwaiting.trans hw) (hdispatching.trans hn)
      (hsession.trans hbefore) hu hc
  | carried hdone ht hd hw hn hj hbefore hu hc =>
    exact .carried hdone ht (hdecoder.trans hd) (hwaiting.trans hw) (hdispatching.trans hn) hj
      (hsession.trans hbefore) hu hc
  | answering ht hd hw hn henc hs hfront hc hr =>
    exact .answering ht (hdecoder.trans hd) (hwaiting.trans hw) (hdispatching.trans hn) henc hs
      hfront hc (by rwa [hsession])
  | silent ht hw hn hu =>
    exact .silent (ht.imp_right hstopped) (hwaiting.trans hw) (hdispatching.trans hn) hu

/-- An exchange on a connection of a server, with what its client has read. -/
def On (q : Errand) (done : Bool) (s : Server) (i taken : Nat) (toServer : Bytes)
    (d : FrameDecoder) : Prop :=
  ∃ c, s.connections[i]? = some c ∧ taken ≤ c.sent.flatten.length ∧ q.Follows c.session ∧
    Exchange q done c toServer (c.sent.flatten.drop taken) d

theorem On.of_has (hc : s.Has i c) (ht : taken ≤ c.sent.flatten.length) (hf : q.Follows c.session)
    (h : Exchange q done c toServer (c.sent.flatten.drop taken) d) :
    On q done s i taken toServer d := by
  obtain ⟨c', hc', ha⟩ := hc
  refine ⟨c', hc', by rwa [ha.sent], by rwa [ha.session], ?_⟩
  rw [ha.sent]
  exact h.alike ha

/-- What is under way does not depend on what the client expects. -/
theorem On.deaf (h : On q done s i taken toServer d) : On q.deaf done s i taken toServer d := by
  obtain ⟨c, hc, ht, hf, hx⟩ := h
  refine ⟨c, hc, ht, hf, ?_⟩
  cases hx with
  | asking hdone hs hfront hd hw hn hbefore hu hc =>
    exact .asking hdone hs hfront hd hw hn hbefore hu hc
  | queued hdone ht hd hw hn hbefore hu hc => exact .queued hdone ht hd hw hn hbefore hu hc
  | carried hdone ht hd hw hn hj hbefore hu hc =>
    exact .carried hdone ht hd hw hn hj hbefore hu hc
  | answering ht hd hw hn henc hs hfront hc hr =>
    exact .answering ht hd hw hn henc hs hfront hc trivial
  | silent ht hw hn hu => exact .silent ht hw hn hu

/-- The server sends an answer, or it cannot and there will be none. -/
theorem sent {type : MessageType} {payload : Bytes} {takes : Bool}
    (hd : c.decoder = behind q.max []) (hw : c.waiting = []) (hn : c.dispatching = none) (ht : taken ≤ c.sent.flatten.length)
    (hu : c.sent.flatten.drop taken = []) (hr : q.replies done c.session type payload)
    (hsent : c' = (c.send type payload q.max takes).1 ∨
      c' = (c.send type payload q.max takes).1.shutDown) :
    taken ≤ c'.sent.flatten.length ∧ c'.session = c.session ∧
      Exchange q done c' [] (c'.sent.flatten.drop taken) (behind q.small []) := by
  suffices h : taken ≤ (c.send type payload q.max takes).1.sent.flatten.length ∧
      (c.send type payload q.max takes).1.session = c.session ∧
      Exchange q done (c.send type payload q.max takes).1 []
        ((c.send type payload q.max takes).1.sent.flatten.drop taken) (behind q.small []) by
    rcases hsent with rfl | rfl
    · exact h
    · exact ⟨h.1, h.2.1, h.2.2.alike (Connection.Alike.refl _).shutDown⟩
  rcases c.send_cases type payload q.max takes with hno | ⟨frame, henc, hyes⟩
  · rw [hno]
    exact ⟨ht, rfl, .silent (.inl rfl) hw hn hu⟩
  · rw [hyes]
    have hflat : (c.sent ++ [frame]).flatten = c.sent.flatten ++ frame := by simp
    refine ⟨?_, rfl, ?_⟩
    · dsimp only
      rw [hflat, List.length_append]
      omega
    · refine @Exchange.answering _ _ _ _ _ _ _ _ _ [] rfl hd hw hn henc ?_ (reference_nil _) rfl hr
      dsimp only
      rw [hflat, List.drop_append_of_le_length ht, hu]
      rfl

/-- A thread without frames has nothing to handle. -/
theorem handle_nil (hc : s.connections[i]? = some c) (hw : c.waiting = []) (takes : Bool) :
    s.handle i takes = s := by
  rw [Server.handle, hc]
  dsimp only
  rw [hw]

theorem dispatch_none (hc : s.connections[i]? = some c) (hn : c.dispatching = none)
    (takes : Bool) : s.dispatch i takes = s := by
  rw [Server.dispatch, hc]
  dsimp only
  rw [hn]

/-- The frame that waits is handled. -/
theorem handled (hq : q.Meets s) (hdone : done = false) (hc : s.connections[i]? = some c)
    (ht : taken ≤ c.sent.flatten.length) (hd : c.decoder = behind q.max [])
    (hw : c.waiting = [q.frame]) (hn : c.dispatching = none) (hbefore : c.session = q.before)
    (hu : c.sent.flatten.drop taken = []) (takes : Bool) :
    On q done (s.handle i takes) i taken [] (behind q.small []) := by
  have hidle : ¬ c.idle = false := by
    rw [Connection.idle, hn]
    exact Bool.noConfusion
  have hjudged : c.session.judge s.engine.epoch q.frame = q.judged := by
    rw [hbefore, hq.epoch, Errand.judged]
  rw [Server.handle, hc]
  dsimp only
  rw [hw]
  dsimp only
  rw [if_neg hidle, hjudged]
  cases hj : q.judged with
  | terminate status =>
    obtain ⟨ht', hsame, hx⟩ := @sent q done taken { c with waiting := [], handled := c.handled + 1 } _
      .response (Writer.run (encodeResponseEnvelope q.type.code status) ++ []) takes hd rfl hn ht hu
      (by rw [hbefore, hdone]; exact hq.terminate status hj) (.inr rfl)
    dsimp only
    rw [hq.max]
    exact On.of_has (Server.has_note (Server.has_self hc)) ht' (.inl (hsame.trans hbefore)) hx
  | refuse status =>
    obtain ⟨ht', hsame, hx⟩ := @sent q done taken { c with waiting := [], handled := c.handled + 1 } _
      .response (Writer.run (encodeResponseEnvelope q.type.code status) ++ []) takes hd rfl hn ht hu
      (by rw [hbefore, hdone]; exact hq.refuse status hj) (.inl rfl)
    dsimp only
    rw [hq.max]
    exact On.of_has (Server.has_note (Server.has_self hc)) ht' (.inl (hsame.trans hbefore)) hx
  | welcome request =>
    have hnext : c.session.next s.engine.epoch q.frame = q.before.next q.current q.frame := by
      rw [hbefore, hq.epoch]
    dsimp only
    rw [hq.max, hnext]
    generalize hsent : Connection.send _ MessageType.helloAck _ _ _ = x
    obtain ⟨ht', hsame, hx⟩ := @sent q done taken
      { c with
        waiting := []
        handled := c.handled + 1
        session := q.before.next q.current q.frame }
      (if x.2 = true then x.1 else x.1.shutDown) .helloAck _ takes hd rfl hn ht hu
      (by rw [hdone]; exact hq.welcome request hj) (by
        rw [hsent]
        split
        · exact .inl rfl
        · exact .inr rfl)
    exact On.of_has (Server.has_note (Server.has_self hc)) ht' (.inr hsame) hx
  | admitted v =>
    exact On.of_has (Server.has_note (Server.has_self hc)) ht (.inl hbefore)
      (.carried hdone rfl hd rfl rfl hj hbefore hu rfl)

/-- The request that is being carried out is answered. -/
theorem dispatched (hq : q.Meets s) {v : SessionEnvelope} (hc : s.connections[i]? = some c)
    (ht : taken ≤ c.sent.flatten.length) (hd : c.decoder = behind q.max []) (hw : c.waiting = [])
    (hn : c.dispatching = some (q.frame, v)) (hj : q.judged = .admitted v)
    (hbefore : c.session = q.before) (hu : c.sent.flatten.drop taken = []) (takes : Bool)
    (hr : q.replies true { q.before with lastSeq := v.seq } .response
      (Writer.run (encodeResponseEnvelope q.type.code (s.engine.respond q.frame).status) ++
        (s.engine.respond q.frame).body)) :
    On q true (s.dispatch i takes) i taken [] (behind q.small []) ∧
      (s.dispatch i takes).requests i = s.requests i ++ q.frame.request.toOption.toList := by
  obtain ⟨ht', hsame, hx⟩ := @sent q true taken
    { c with session := { c.session with lastSeq := v.seq }, dispatching := none } _ .response _
    takes hd hw rfl ht hu (by rw [hbefore]; exact hr) (.inl rfl)
  have hnext : { c.session with lastSeq := v.seq } = q.before.next q.current q.frame := by
    rw [hbefore, SessionState.next_admitted hj]
  have hlog := fun (s : Server) => s.answer_requests i i c q.frame v
  rw [Server.dispatch, hc]
  dsimp only
  rw [hn]
  dsimp only
  unfold Engine.respond at hx ht' hsame
  cases hf : q.frame.request with
  | error status =>
    rw [hf] at hx ht' hsame
    rw [← hq.max] at hx ht' hsame
    refine ⟨On.of_has (Server.answer_self hc c q.frame v status [] false takes) ht'
      (.inr (hsame.trans hnext)) hx, ?_⟩
    exact (hlog s _ _ _ _).trans (List.append_nil _).symm
  | ok request =>
    rw [hf] at hx ht' hsame
    rw [← hq.max] at hx ht' hsame
    refine ⟨On.of_has (Server.has_note (@Server.answer_self
      { s with engine := (s.engine.serve request).engine } _ _ hc c q.frame v
      (s.engine.serve request).status (s.engine.serve request).body _ takes)) ht'
      (.inr (hsame.trans hnext)) hx, ?_⟩
    dsimp only
    rw [Server.requests_note, if_pos rfl, hlog]
    rfl

/-- A step of the server that does not read from the connection: the request of the frame is carried
out in it or not. -/
theorem On.serve (h : On q done s i taken toServer d) (hq : q.Meets s) {a : Server.Action}
    (hread : ∀ chunk, a ≠ .read i chunk)
    (hserve : ∀ v takes, done = false → a = .dispatch i takes → q.judged = .admitted v →
      (∃ c, s.connections[i]? = some c ∧ c.dispatching = some (q.frame, v)) →
      q.replies true { q.before with lastSeq := v.seq } .response
        (Writer.run (encodeResponseEnvelope q.type.code (s.engine.respond q.frame).status) ++
          (s.engine.respond q.frame).body)) :
    On q done (s.step a) i taken toServer d ∧ (s.step a).requests i = s.requests i ∨
      done = false ∧ (∃ v, q.judged = .admitted v) ∧ On q true (s.step a) i taken toServer d ∧
        (s.step a).requests i = s.requests i ++ q.frame.request.toOption.toList := by
  obtain ⟨c, hc, ht, hf, hx⟩ := h
  have hsame : On q done s i taken toServer d := ⟨c, hc, ht, hf, hx⟩
  by_cases hdispatch : ∃ takes, a = .dispatch i takes
  · obtain ⟨takes, rfl⟩ := hdispatch
    change On q done (s.dispatch i takes) i taken toServer d ∧ _ ∨
      _ ∧ _ ∧ On q true (s.dispatch i takes) i taken toServer d ∧ _
    cases hx with
    | carried hdone ht' hd hw hn hj hbefore hu hc' =>
      right
      rw [ht', hc']
      exact ⟨hdone, ⟨_, hj⟩, dispatched hq hc ht hd hw hn hj hbefore hu takes
        (hserve _ takes hdone rfl hj ⟨c, hc, hn⟩)⟩
    | asking _ _ _ _ _ hn | queued _ _ _ _ hn | answering _ _ _ hn | silent _ _ hn =>
      left
      change _ ∧ (s.dispatch i takes).requests i = _
      rw [dispatch_none hc hn]
      exact ⟨hsame, rfl⟩
  left
  refine ⟨?_, s.requests_other fun takes he => hdispatch ⟨takes, he⟩⟩
  by_cases hhandle : ∃ takes, a = .handle i takes
  · obtain ⟨takes, rfl⟩ := hhandle
    change On q done (s.handle i takes) i taken toServer d
    cases hx with
    | queued hdone ht' hd hw hn hbefore hu hc' =>
      rw [ht', hc']
      exact handled hq hdone hc ht hd hw hn hbefore hu takes
    | asking _ _ _ _ hw | carried _ _ _ hw | answering _ _ hw | silent _ hw =>
      rwa [handle_nil hc hw]
  · exact On.of_has (Server.step_other hc hread (fun takes he => hhandle ⟨takes, he⟩)
      fun takes he => hdispatch ⟨takes, he⟩) ht hf hx

/-- The server reads a piece of the frame. -/
theorem On.deliver (h : On q done s i taken toServer d) {cap : UInt64}
    (henc : encodeFrame q.type 0 q.payload cap = .ok q.bytes) {n : Nat}
    (hchunk : toServer.take n ≠ []) (hreads : ∀ c, s.connections[i]? = some c → c.stopped = false ∧
      c.dispatching = none ∧ c.waiting = []) (hstop : s.stopRequested = false) :
    On q done (s.read i (toServer.take n)) i taken (toServer.drop n) d := by
  obtain ⟨c, hc, ht, hf, hx⟩ := h
  obtain ⟨hstopped, hidle, hwaiting⟩ := hreads c hc
  have hempty : ¬ toServer = [] := by
    rintro rfl
    exact hchunk (List.take_nil)
  have hgo : ¬ (c.stopped = true ∨ s.stopRequested = true ∨ c.idle = false ∨ c.waiting ≠ []) := by
    rw [hstopped, hstop, Connection.idle, hidle, hwaiting]
    simp
  have hread : s.read i (toServer.take n) = s.update i { c with
      decoder := (c.decoder.push (toServer.take n)).1
      waiting := (c.decoder.push (toServer.take n)).2.1
      stopped := !(c.decoder.push (toServer.take n)).2.2.isOk } := by
    rw [Server.read, hc]
    dsimp only
    rw [if_neg hgo]
  rw [hread]
  refine On.of_has (Server.has_self hc) ht hf ?_
  cases hx with
  | @asking front hdone hs hfront hd hw hn hbefore hu hc' =>
    rw [← List.take_append_drop n toServer] at hs
    rcases push_piece henc hs hfront with
      ⟨d', status, hpush, hbad⟩ | ⟨hmore, hpush⟩ | ⟨hrest, hpush⟩
    · rw [hd, hpush]
      exact .silent (.inr (by rw [hbad]; rfl)) rfl hn hu
    · rw [hd, hpush]
      exact .asking hdone (by rw [List.append_assoc]; exact hs) hmore rfl rfl hn hbefore hu hc'
    · rw [hd, hpush]
      exact .queued hdone hrest rfl rfl hn hbefore hu hc'
  | queued _ ht' | carried _ ht' | answering ht' => exact absurd ht' hempty
  | silent ht' =>
    rcases ht' with ht' | ht'
    · exact absurd ht' hempty
    · rw [hstopped] at ht'
      cases ht'

/-- A connection on which nothing is under way. -/
structure Calm (max : UInt64) (c : Connection) : Prop where
  decoder : c.decoder = behind max []
  waiting : c.waiting = []
  dispatching : c.dispatching = none

theorem Calm.alike {max : UInt64} (h : Calm max c) (ha : c.Alike c') : Calm max c' :=
  ⟨ha.decoder.trans h.decoder, ha.waiting.trans h.waiting, ha.dispatching.trans h.dispatching⟩

/-- A step of the server that does not read from a connection on which nothing is under way. -/
theorem Calm.step {max : UInt64} (h : Calm max c) (hc : s.connections[i]? = some c)
    {a : Server.Action} (hread : ∀ chunk, a ≠ .read i chunk) :
    (s.step a).Has i c ∧ (s.step a).requests i = s.requests i := by
  by_cases hdispatch : ∃ takes, a = .dispatch i takes
  · obtain ⟨takes, rfl⟩ := hdispatch
    change (s.dispatch i takes).Has i c ∧ (s.dispatch i takes).requests i = _
    rw [dispatch_none hc h.dispatching]
    exact ⟨.of_eq hc, rfl⟩
  have hquiet : ∀ takes, a ≠ .dispatch i takes := fun takes he => hdispatch ⟨takes, he⟩
  refine ⟨?_, s.requests_other hquiet⟩
  by_cases hhandle : ∃ takes, a = .handle i takes
  · obtain ⟨takes, rfl⟩ := hhandle
    change (s.handle i takes).Has i c
    rw [handle_nil hc h.waiting]
    exact .of_eq hc
  · exact Server.step_other hc hread (fun takes he => hhandle ⟨takes, he⟩) hquiet

/-- The client reads a piece of the answer. -/
theorem On.receive (h : On q done s i taken toServer d) {c : Connection}
    (hc : s.connections[i]? = some c) {n : Nat} (hchunk : (c.sent.flatten.drop taken).take n ≠ []) :
    let chunk := (c.sent.flatten.drop taken).take n
    toServer = [] ∧ Calm q.max c ∧
      ((∃ status, d.hear chunk = .failed status) ∨
      (∃ d', d.hear chunk = .more d' ∧ On q done s i (taken + chunk.length) toServer d') ∨
      ∃ type payload, d.hear chunk = .frame (Frame.of type payload) ∧
        taken + chunk.length = c.sent.flatten.length ∧ q.replies done c.session type payload) := by
  intro chunk
  obtain ⟨c', hc', ht, hf, hx⟩ := h
  rw [hc] at hc'
  cases hc'
  have hempty : ¬ c.sent.flatten.drop taken = [] := by
    intro hnil
    rw [hnil] at hchunk
    exact hchunk List.take_nil
  cases hx with
  | asking _ _ _ _ _ _ _ hu | queued _ _ _ _ _ _ hu | carried _ _ _ _ _ _ _ hu | silent _ _ _ hu =>
    exact absurd hu hempty
  | @answering type payload bytes front ht' hd hw hn henc hs hfront hd' hr =>
    have hlength : (c.sent.flatten.drop taken).length = c.sent.flatten.length - taken :=
      List.length_drop
    have hpieces : chunk ++ (c.sent.flatten.drop taken).drop n = c.sent.flatten.drop taken :=
      List.take_append_drop n _
    have hsum := congrArg List.length hpieces
    rw [List.length_append, hlength] at hsum
    rw [← hpieces] at hs
    refine ⟨ht', ⟨hd, hw, hn⟩, ?_⟩
    rw [hd']
    rcases hear_piece henc hs hfront hchunk with hfailed | ⟨hmore, hhear⟩ | ⟨hrest, hhear⟩
    · exact .inl hfailed
    · refine .inr (.inl ⟨_, hhear, c, hc, by omega, hf, ?_⟩)
      have hskip : (c.sent.flatten.drop taken).drop chunk.length =
          (c.sent.flatten.drop taken).drop n :=
        (congrArg (List.drop chunk.length) hpieces).symm.trans List.drop_left
      refine .answering ht' hd hw hn henc ?_ hmore rfl hr
      rw [List.append_assoc, ← List.drop_drop, hskip]
      exact hs
    · refine .inr (.inr ⟨type, payload, hhear, ?_, hr⟩)
      rw [hrest, List.length_nil] at hsum
      omega

end Exchange

end LinkFailover
