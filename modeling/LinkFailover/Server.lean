import LinkFailover.Requests
import LinkFailover.System
import LinkFailover.Wire

/-!
# The server

Each connection has a thread that reads chunks, hands the frames of a chunk to the handler one
after the other, and reads on. The handler first decides what becomes of a frame, from the
session and the epoch of the engine alone, and then carries an admitted request out. Steps of
different connections interleave between and within frames.
-/

namespace LinkFailover

open Codec

inductive SessionSeqTag

abbrev SessionSeq := StrongUint SessionSeqTag UInt64

/-! ## Messages -/

/-- The authority that every request after the handshake carries. -/
structure SessionEnvelope where
  sessionId : UInt64 := 0
  epoch : Epoch := .zero
  incarnation : Incarnation := .zero 16
  seq : SessionSeq := .zero
  deriving DecidableEq

namespace SessionEnvelope

def encode (v : SessionEnvelope) : Writer → Writer :=
  Writer.fields [.u64 v.sessionId, .uint v.epoch, .fixed v.incarnation, .uint v.seq]

def decode : Parser SessionEnvelope := do
  let sessionId ← Parser.u64
  let epoch ← Parser.u64
  let incarnation ← Parser.fixed 16
  let seq ← Parser.u64
  return { sessionId, epoch := ⟨epoch⟩, incarnation, seq := ⟨seq⟩ }

theorem roundTrip (v : SessionEnvelope) : RoundTrip v.encode decode v := by
  refine .cons (.u64 _) ?_
  refine .cons (.uint _) ?_
  refine .cons (.fixed _) ?_
  exact .cons (.uint _) (.nil _)

end SessionEnvelope

structure HelloRequest where
  protocolVersion : UInt16 := kWireProtocolVersion
  clientIncarnation : Incarnation := .zero 16
  clientEpoch : Epoch := .zero
  role : Bytes := []
  deriving DecidableEq

namespace HelloRequest

def encode (r : HelloRequest) : Writer → Writer :=
  Writer.fields
    [.u16 kWireProtocolVersion, .u16 r.protocolVersion, .fixed r.clientIncarnation,
      .uint r.clientEpoch, .blob r.role 64]

def decode : Parser HelloRequest := do
  let envelopeVersion ← Parser.u16
  let protocolVersion ← Parser.u16
  let clientIncarnation ← Parser.fixed 16
  let clientEpoch ← Parser.u64
  let role ← Parser.blob 64
  Parser.require (envelopeVersion == kWireProtocolVersion)
  Parser.require (protocolVersion == kWireProtocolVersion)
  return { protocolVersion, clientIncarnation, clientEpoch := ⟨clientEpoch⟩, role }

theorem roundTrip {r : HelloRequest} (hv : r.protocolVersion = kWireProtocolVersion)
    (hr : r.role.length ≤ 64) : RoundTrip r.encode decode r := by
  refine .cons (.u16 _) ?_
  refine .cons (.u16 _) ?_
  refine .cons (.fixed _) ?_
  refine .cons (.uint _) ?_
  refine .cons (.blob hr (Nat.lt_of_le_of_lt hr (by decide))) ?_
  refine .require (by decide) ?_
  exact .require (by rw [hv]; decide) (.nil _)

end HelloRequest

structure HelloResponse where
  epoch : Epoch
  coordinator : Incarnation
  sessionId : UInt64
  maxPayload : UInt32

def HelloResponse.encode (r : HelloResponse) : Writer → Writer :=
  Writer.fields
    [.u16 kWireProtocolVersion, .u16 kWireProtocolVersion, .uint r.epoch, .fixed r.coordinator,
      .u64 r.sessionId, .u32 r.maxPayload, .u64 0]

/-- The head of every response. -/
def encodeResponseEnvelope (op : UInt16) (status : Status) : Writer → Writer :=
  Writer.fields
    [.u16 kWireProtocolVersion, .u16 op, .u16 (WireEnum.code status.outcome),
      encodeReasons status.reasons]

/-- A version and a count, as the requests for inspection and for directives carry them. -/
def decodeCount (bound : UInt32 → Bool) : Parser Nat := do
  let envelopeVersion ← Parser.u16
  let count ← Parser.u32
  Parser.require (envelopeVersion == kWireProtocolVersion)
  Parser.require (bound count)
  return count.toNat

def decodeInspectRequest : Parser Nat := decodeCount fun limit => limit ≤ 256

def decodeClaimRequest : Parser Nat := decodeCount fun count => count ≠ 0 && count ≤ 64

def encodeClaimResponse (directives : List ApplyDirective) : Writer → Writer :=
  Writer.fields
    [.u16 kWireProtocolVersion, .u32 (UInt32.ofNat directives.length),
      .each ApplyDirective.encode directives]

/-! ## Inspection -/

structure EngineView where
  fabric : FabricName
  epoch : Epoch
  coordinator : Incarnation
  policyGeneration : PolicyGeneration
  topologyGeneration : TopologyGeneration
  policyDigest : Digest
  topologyDigest : Digest
  bootCount : UInt64
  lastSeq : LineageSeq
  trackedPublishers : Nat
  evidenceEntries : Nat
  retainedAttempts : Nat
  retainedFences : Nat
  retainedDecisions : Nat
  pendingDirectives : Nat
  activeAuthorities : Nat
  interruptedAttempts : Nat
  storeFailed : Bool
  recentAttempts : List AttemptRecord
  recentFences : List FenceRecord

/-- By subject, and the latest attempt of a subject first. -/
def recentAttemptLess (a b : AttemptRecord) : Bool :=
  if a.subject.less b.subject then true
  else if b.subject.less a.subject then false
  else b.attemptSeq < a.attemptSeq

def recentFenceLess (a b : FenceRecord) : Bool := b.seq < a.seq

def Engine.inspect (e : Engine) (historyLimit : Nat) : EngineView where
  fabric := e.options.fabric
  epoch := e.epoch
  coordinator := e.incarnation
  policyGeneration := e.state.policy.generation
  topologyGeneration := e.state.topology.generation
  policyDigest := e.state.policy.digest
  topologyDigest := e.state.topology.digest
  bootCount := e.state.bootCount
  lastSeq := e.state.lastSeq
  trackedPublishers := e.publishers.entries.length
  evidenceEntries := e.evidenceEntries
  retainedAttempts := e.state.attempts.length
  retainedFences := e.state.fences.length
  retainedDecisions := e.decisions.length
  pendingDirectives := e.state.attempts.countP fun r => r.phase = .authorized
  activeAuthorities := e.state.attempts.countP fun r =>
    attemptPhaseHoldsAuthority r.phase && r.authority.epoch == e.epoch &&
      r.authority.coordinator == e.incarnation
  interruptedAttempts := e.state.attempts.countP fun r => r.phase = .interrupted
  storeFailed := e.storeFailed || e.store.failed
  recentAttempts := (BoundedTable.sortBy recentAttemptLess e.state.attempts).take historyLimit
  recentFences := (BoundedTable.sortBy recentFenceLess e.state.fences).take historyLimit

def EngineView.encode (v : EngineView) : Writer → Writer :=
  Writer.fields
    [.u16 kWireProtocolVersion, .name v.fabric, .uint v.epoch, .fixed v.coordinator,
      .uint v.policyGeneration, .uint v.topologyGeneration, .fixed v.policyDigest,
      .fixed v.topologyDigest, .u64 v.bootCount, .uint v.lastSeq,
      .u64 (UInt64.ofNat v.trackedPublishers), .u64 (UInt64.ofNat v.evidenceEntries),
      .u64 (UInt64.ofNat v.retainedAttempts), .u64 (UInt64.ofNat v.retainedFences),
      .u64 (UInt64.ofNat v.retainedDecisions), .u64 (UInt64.ofNat v.pendingDirectives),
      .u64 (UInt64.ofNat v.activeAuthorities), .u64 (UInt64.ofNat v.interruptedAttempts),
      .bool8 v.storeFailed, .u32 (UInt32.ofNat v.recentAttempts.length),
      .each AttemptRecord.encode v.recentAttempts, .u32 (UInt32.ofNat v.recentFences.length),
      .each FenceRecord.encode v.recentFences]

/-! ## Requests -/

/-- What a frame asks of the engine. -/
inductive Request where
  | operate (op : Operation)
  | inspect (historyLimit : Nat)
  | claim (maxCount : Nat)
  | ping
  | shutdown

/-- A body that must be used up. -/
def readBody {α : Type} (p : Parser α) (body : Bytes) (what : String) (ask : α → Request) :
    Result Request :=
  match p.whole body with
  | none => fail .invalid .malformedEncoding what
  | some a => .ok (ask a)

def parseRequest (type : MessageType) (body : Bytes) : Result Request :=
  match type with
  | .publishFailure =>
    readBody FailureReport.decode body "malformed failure report" fun r =>
      .operate (.publishFailure r)
  | .publishReplacement =>
    readBody ReplacementReport.decode body "malformed replacement report" fun r =>
      .operate (.publishReplacement r)
  | .setPolicy =>
    readBody FailoverPolicy.decode body "malformed policy" fun p => .operate (.setPolicy p)
  | .setTopology =>
    readBody TopologySnapshot.decode body "malformed topology" fun t => .operate (.setTopology t)
  | .requestFailover =>
    readBody FailoverRequest.decode body "malformed failover request" fun r =>
      .operate (.requestFailover r)
  | .requestRollback =>
    readBody RollbackRequest.decode body "malformed rollback request" fun r =>
      .operate (.requestRollback r)
  | .reportApplication =>
    readBody ApplicationReport.decode body "malformed application report" fun r =>
      .operate (.recordApplication r)
  | .reportVerification =>
    readBody VerificationReport.decode body "malformed verification report" fun r =>
      .operate (.recordVerification r)
  | .resolveInterrupted =>
    readBody RevalidationRequest.decode body "malformed revalidation request" fun r =>
      .operate (.resolveInterrupted r)
  | .inspect => readBody decodeInspectRequest body "malformed inspect request" .inspect
  | .claimDirective => readBody decodeClaimRequest body "malformed claim request" .claim
  | .ping => .ok .ping
  | .shutdown => .ok .shutdown
  | .hello | .helloAck | .response =>
    fail .unsupported .unknownMessageType "message type is not accepted from a client"

/-- The operation that a request performs, when it changes the engine. -/
def Request.operation? : Request → Option Operation
  | .operate op => some op
  | _ => none

/-- A request that calls the engine at all. -/
def Request.callsEngine : Request → Bool
  | .shutdown => false
  | _ => true

structure Served where
  engine : Engine
  status : Status
  body : Bytes

def Engine.serve (e : Engine) : Request → Served
  | .operate op =>
    match e.perform op with
    | (e, .status status) => ⟨e, status, []⟩
    | (e, .decision (.error status)) => ⟨e, status, []⟩
    | (e, .decision (.ok d)) => ⟨e, { outcome := d.outcome }, Writer.run d.encode⟩
  | .inspect limit => ⟨e, .success, Writer.run (e.inspect limit).encode⟩
  | .claim maxCount =>
    ⟨e, .success, Writer.run (encodeClaimResponse (e.pendingDirectives maxCount))⟩
  | .ping =>
    ⟨e, .success, Writer.run (Writer.fields
      [.u16 kWireProtocolVersion, .uint e.epoch, .fixed e.incarnation])⟩
  | .shutdown => ⟨e, .success, []⟩

/-! ## Sessions -/

structure SessionState where
  id : UInt64
  client : Incarnation := .zero 16
  epoch : Epoch := .zero
  lastSeq : SessionSeq := .zero
  handshaken : Bool := false
  deriving DecidableEq

/-- Validates the session authority of one request, field by field. -/
def validateEnvelope (s : SessionState) (envelope : SessionEnvelope) (current : Epoch) : Status :=
  if envelope.sessionId ≠ s.id then
    .failure .conflict .sessionMismatch (text "the request does not belong to this session")
  else if envelope.incarnation ≠ s.client then
    .failure .conflict .incarnationMismatch
      (text "the request does not carry this session's incarnation")
  else if envelope.epoch ≠ current then
    (Status.failure .stale .epochMismatch
      (text "the request binds a coordinator epoch that is not current")).add .staleAuthority
      (decimal envelope.epoch.toNat)
  else if ¬ s.lastSeq < envelope.seq then
    (Status.failure .stale .sessionSequenceReplayed
      (text "the request sequence does not advance")).add .sequenceRegression
      (decimal envelope.seq.toNat)
  else .success

def kEnvelopeSize : Nat := 8 + 8 + 16 + 8

/-- What becomes of a frame. -/
inductive Admission where
  /-- It is answered and the session is ended. -/
  | terminate (status : Status)
  /-- It opens the session. -/
  | welcome (request : HelloRequest)
  /-- It is answered, and the session goes on. -/
  | refuse (status : Status)
  /-- Its request is carried out. -/
  | admitted (envelope : SessionEnvelope)

namespace SessionState

def judge (s : SessionState) (current : Epoch) (f : Frame) : Admission :=
  if f.header.type = .hello then
    match HelloRequest.decode.whole f.payload with
    | none => .terminate (.failure .invalid .malformedEncoding (text "malformed hello"))
    | some request =>
      if request.protocolVersion ≠ kWireProtocolVersion then
        .terminate (.failure .unsupported .protocolVersionMismatch
          (text "unsupported protocol version"))
      else if s.handshaken then
        .terminate (.failure .conflict .sessionMismatch
          (text "the session has already completed its handshake"))
      else .welcome request
  else if !s.handshaken then
    .terminate (.failure .unauthenticated .sessionMismatch
      (text "the session has not completed its handshake"))
  else if f.payload.length < kEnvelopeSize then
    .terminate (.failure .invalid .truncatedFrame
      (text "request is shorter than the session envelope"))
  else
    match SessionEnvelope.decode f.payload with
    | none => .terminate (.failure .invalid .malformedEncoding (text "malformed session envelope"))
    | some (envelope, _) =>
      let authority := validateEnvelope s envelope current
      if authority.isOk then .admitted envelope else .refuse authority

/-- The session behind a frame. The sequence advances only for requests that passed. -/
def next (s : SessionState) (current : Epoch) (f : Frame) : SessionState :=
  match s.judge current f with
  | .welcome request =>
    { s with
      client := request.clientIncarnation
      epoch := current
      lastSeq := .zero
      handshaken := true }
  | .admitted envelope => { s with lastSeq := envelope.seq }
  | .terminate _ | .refuse _ => s

end SessionState

/-- The request in a frame that was admitted. -/
def Frame.request (f : Frame) : Result Request :=
  parseRequest f.header.type (f.payload.drop kEnvelopeSize)

/-! ## Connections -/

/-- What happens on a connection. Frames are numbered in the order in which they are handled. -/
inductive SessionEvent where
  | received (n : Nat) (f : Frame)
  /-- The handler decides to end the session. -/
  | terminated (n : Nat) (status : Status)
  | welcomed (n : Nat) (request : HelloRequest)
  | refused (n : Nat) (status : Status)
  /-- A request is handed to the engine, which is in this epoch. -/
  | executed (n : Nat) (envelope : SessionEnvelope) (request : Request) (current : Epoch)

/-- A session with its thread: the decoder, the frames of the last chunk that still wait, the
frame whose request is being carried out, and whether the thread has stopped reading. A thread
that has stopped leaves its slot to others. -/
structure Connection where
  session : SessionState
  decoder : FrameDecoder
  waiting : List Frame := []
  handled : Nat := 0
  dispatching : Option (Frame × SessionEnvelope) := none
  stopped : Bool := false
  /-- The handler shut the socket down. -/
  shut : Bool := false
  /-- The frames that were sent. -/
  sent : List Bytes := []

structure ServerOptions where
  maxSessions : Nat := 64
  maxFramePayload : UInt64 := kDefaultFramePayload
  stopOnShutdownMessage : Bool := true

structure Server where
  options : ServerOptions
  engine : Engine
  nextSessionId : UInt64 := 1
  connections : List Connection := []
  stopRequested : Bool := false
  /-- What happened, each event with the number of its connection. -/
  log : List (Nat × SessionEvent) := []

namespace Connection

/-- Sends a frame of the server, when it can be encoded and the socket takes it. -/
def send (c : Connection) (type : MessageType) (payload : Bytes) (maxPayload : UInt64)
    (takes : Bool) : Connection × Bool :=
  match encodeFrame type 0 payload maxPayload with
  | .error _ => (c, false)
  | .ok frame => if takes then ({ c with sent := c.sent ++ [frame] }, true) else (c, false)

def sendResponse (c : Connection) (type : MessageType) (status : Status) (body : Bytes)
    (maxPayload : UInt64) (takes : Bool) : Connection × Bool :=
  c.send .response (Writer.run (encodeResponseEnvelope type.code status) ++ body) maxPayload takes

def shutDown (c : Connection) : Connection := { c with shut := true }

/-- A thread between two frames of a chunk, or between two chunks. -/
def idle (c : Connection) : Bool := c.dispatching.isNone

end Connection

namespace Server

def start (o : ServerOptions) (e : Engine) : Result Server :=
  if o.maxSessions = 0 then
    fail .invalid .invalidArgument "max_sessions must be greater than zero"
  else if o.maxFramePayload = 0 ∨ o.maxFramePayload > kMaxFramePayload then
    fail .invalid .invalidArgument "max_frame_payload is outside the supported range"
  else .ok { options := o, engine := e }

def note (s : Server) (i : Nat) (events : List SessionEvent) : Server :=
  { s with log := s.log ++ events.map fun e => (i, e) }

def update (s : Server) (i : Nat) (c : Connection) : Server :=
  { s with connections := s.connections.set i c }

/-- A connection is accepted while there is room for a session. -/
def accept (s : Server) : Server :=
  if s.stopRequested ∨
      (s.connections.filter fun c => !c.stopped).length ≥ s.options.maxSessions then s
  else
    { s with
      nextSessionId := s.nextSessionId + 1
      connections := s.connections ++
        [{ session := { id := s.nextSessionId }
           decoder := { maxPayload := s.options.maxFramePayload } }] }

/-- A thread that has handled all frames of the last chunk reads the next one. After bytes that
start no frame it reads no more, but the frames before them are handled. -/
def read (s : Server) (i : Nat) (chunk : Bytes) : Server :=
  match s.connections[i]? with
  | none => s
  | some c =>
    if c.stopped ∨ s.stopRequested ∨ c.idle = false ∨ c.waiting ≠ [] then s
    else
      let pushed := c.decoder.push chunk
      s.update i { c with
        decoder := pushed.1
        waiting := pushed.2.1
        stopped := !pushed.2.2.isOk }

/-- The thread leaves its loop: the peer is gone, or the server stops. -/
def leave (s : Server) (i : Nat) : Server :=
  match s.connections[i]? with
  | none => s
  | some c => if c.idle = false ∨ c.waiting ≠ [] then s else s.update i { c with stopped := true }

/-- The first half of handling a frame: what becomes of it, up to the request. -/
def handle (s : Server) (i : Nat) (takes : Bool) : Server :=
  match s.connections[i]? with
  | none => s
  | some c =>
    match c.waiting with
    | [] => s
    | f :: waiting =>
      if c.idle = false then s
      else
        let n := c.handled
        let max := s.options.maxFramePayload
        let c := { c with waiting := waiting, handled := n + 1 }
        match c.session.judge s.engine.epoch f with
        | .terminate status =>
          (s.update i (c.sendResponse f.header.type status [] max takes).1.shutDown).note i
            [.received n f, .terminated n status]
        | .refuse status =>
          (s.update i (c.sendResponse f.header.type status [] max takes).1).note i
            [.received n f, .refused n status]
        | .welcome request =>
          let c := { c with session := c.session.next s.engine.epoch f }
          let sent := c.send .helloAck (Writer.run (HelloResponse.encode {
            epoch := s.engine.epoch
            coordinator := s.engine.incarnation
            sessionId := c.session.id
            maxPayload := UInt32.ofNat max.toNat })) max takes
          (s.update i (if sent.2 then sent.1 else sent.1.shutDown)).note i
            [.received n f, .welcomed n request]
        | .admitted envelope =>
          (s.update i { c with dispatching := some (f, envelope) }).note i [.received n f]

/-- The answer to a request that was carried out, and the sequence that it used up. -/
def answer (s : Server) (i : Nat) (c : Connection) (f : Frame) (envelope : SessionEnvelope)
    (status : Status) (body : Bytes) (stopAfter takes : Bool) : Server :=
  let c := { c with
    session := { c.session with lastSeq := envelope.seq }
    dispatching := none }
  let sent := c.sendResponse f.header.type status body s.options.maxFramePayload takes
  if !sent.2 then s.update i sent.1.shutDown
  else if stopAfter then
    let stopped := s.update i sent.1
    { stopped with
      stopRequested := true
      connections := stopped.connections.map Connection.shutDown }
  else s.update i sent.1

/-- The second half of handling a frame: its request is carried out and answered. -/
def dispatch (s : Server) (i : Nat) (takes : Bool) : Server :=
  match s.connections[i]? with
  | none => s
  | some c =>
    match c.dispatching with
    | none => s
    | some (f, envelope) =>
      match f.request with
      | .error status => s.answer i c f envelope status [] false takes
      | .ok request =>
        let served := s.engine.serve request
        let stopAfter := match request with
          | .shutdown => s.options.stopOnShutdownMessage
          | _ => false
        ({ s with engine := served.engine }.answer i c f envelope served.status served.body
          stopAfter takes).note i [.executed (c.handled - 1) envelope request s.engine.epoch]

/-- One step of the threads, the acceptor or the owner of the engine. Where a socket is asked to
take a frame the step says whether it does. -/
inductive Action where
  | accept
  | read (i : Nat) (chunk : Bytes)
  | leave (i : Nat)
  | handle (i : Nat) (takes : Bool)
  | dispatch (i : Nat) (takes : Bool)
  | operate (op : Operation)

def step (s : Server) : Action → Server
  | .accept => s.accept
  | .read i chunk => s.read i chunk
  | .leave i => s.leave i
  | .handle i takes => s.handle i takes
  | .dispatch i takes => s.dispatch i takes
  | .operate op => { s with engine := (s.engine.perform op).1 }

def run (s : Server) (actions : List Action) : Server := actions.foldl step s

theorem run_append (s : Server) (actions : List Action) (a : Action) :
    s.run (actions ++ [a]) = (s.run actions).step a := by
  rw [run, List.foldl_append]
  rfl

/-- What happened on one connection. -/
def events (s : Server) (i : Nat) : List SessionEvent :=
  s.log.filterMap fun x => if x.1 = i then some x.2 else none

end Server

end LinkFailover
