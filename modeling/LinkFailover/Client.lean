import LinkFailover.Replies

/-!
# The client

A client shakes hands once and then makes one call after the other: it writes one frame, and reads
until a frame is there, with a new decoder for each call. It takes the first frame that it finds for
the answer.

* `FrameDecoder.hear`: what a client makes of the bytes that it receives.
* `Client.request`, `Client.read`: the two halves of a call.
* `Call.finish`: what the caller is told.
-/

namespace LinkFailover

open Codec

/-! ## Calls -/

inductive Call where
  | publishFailureReport (report : FailureReport)
  | publishReplacementReport (report : ReplacementReport)
  | setPolicy (policy : FailoverPolicy)
  | setTopology (topology : TopologySnapshot)
  | requestFailover (request : FailoverRequest)
  | requestRollback (request : RollbackRequest)
  | recordApplication (report : ApplicationReport)
  | recordVerification (report : VerificationReport)
  | resolveInterrupted (request : RevalidationRequest)
  | inspect (historyLimit : Nat)
  | claimDirectives (maxCount : Nat)
  | ping
  | shutdownServer

/-- A version and a count, which is cut to the width of its field. -/
def encodeCount (n : Nat) : Writer → Writer :=
  Writer.fields [.u16 kWireProtocolVersion, .u32 (UInt32.ofNat n)]

namespace Call

def type : Call → MessageType
  | publishFailureReport _ => .publishFailure
  | publishReplacementReport _ => .publishReplacement
  | setPolicy _ => .setPolicy
  | setTopology _ => .setTopology
  | requestFailover _ => .requestFailover
  | requestRollback _ => .requestRollback
  | recordApplication _ => .reportApplication
  | recordVerification _ => .reportVerification
  | resolveInterrupted _ => .resolveInterrupted
  | inspect _ => .inspect
  | claimDirectives _ => .claimDirective
  | ping => .ping
  | shutdownServer => .shutdown

def body : Call → Bytes
  | publishFailureReport report => Writer.run report.encode
  | publishReplacementReport report => Writer.run report.encode
  | setPolicy policy => Writer.run policy.encode
  | setTopology topology => Writer.run topology.encode
  | requestFailover request => Writer.run request.encode
  | requestRollback request => Writer.run request.encode
  | recordApplication report => Writer.run report.encode
  | recordVerification report => Writer.run report.encode
  | resolveInterrupted request => Writer.run request.encode
  | inspect historyLimit => Writer.run (encodeCount historyLimit)
  | claimDirectives maxCount => Writer.run (encodeCount maxCount)
  | ping | shutdownServer => []

end Call

/-! ## What a call returns -/

/-- What the coordinator said to a call. -/
structure CallResult where
  outcome : Outcome := .ok
  reasons : List Reason := []
  body : Bytes := []

def CallResult.toStatus (r : CallResult) : Status :=
  r.reasons.foldl (fun s x => s.add x.code x.detail) { outcome := r.outcome }

/-- What a caller is told. -/
inductive CallAnswer where
  | status (s : Status)
  | decision (r : Result FailoverDecision)
  | view (r : Result EngineView)
  | directives (r : Result (List ApplyDirective))

/-- A body that has to be there and to be used up. -/
def CallResult.take {α : Type} (r : CallResult) (p : Parser α) (missing : String) : Result α :=
  match if r.body.isEmpty then none else p.whole r.body with
  | some a => .ok a
  | none => .error (r.toStatus.add .malformedEncoding (text missing))

namespace Call

def finish (call : Call) (result : Result CallResult) : CallAnswer :=
  match call with
  | publishFailureReport _ | publishReplacementReport _ | setPolicy _ | setTopology _ | ping
  | shutdownServer =>
    match result with
    | .error status => .status status
    | .ok r => .status r.toStatus
  | requestFailover _ | requestRollback _ | recordApplication _ | recordVerification _
  | resolveInterrupted _ =>
    .decision (result.bind fun r =>
      r.take FailoverDecision.decode "the response carried no decision")
  | inspect _ =>
    .view (result.bind fun r => r.take EngineView.decode "the response carried no view")
  | claimDirectives _ =>
    .directives (result.bind fun r =>
      r.take decodeClaimResponse "the response carried no directives")

end Call

/-! ## Receiving -/

inductive Heard where
  /-- No frame is there yet. -/
  | more (d : FrameDecoder)
  | failed (status : Status)
  | frame (f : Frame)

/-- Bytes from the socket. No bytes mean that the peer is gone, and frames behind the first one of a
chunk are dropped. -/
def FrameDecoder.hear (d : FrameDecoder) (chunk : Bytes) : Heard :=
  if chunk.isEmpty then
    .failed (.failure .closed .connectionClosed (text "the coordinator closed the connection"))
  else
    let pushed := d.push chunk
    if !pushed.2.2.isOk then .failed pushed.2.2
    else
      match pushed.2.1 with
      | [] => .more pushed.1
      | f :: _ => .frame f

/-! ## Clients -/

structure Client where
  role : Bytes := []
  incarnation : Incarnation
  hello : HelloResponse :=
    { epoch := .zero, coordinator := .zero 16, sessionId := 0, maxPayload := 262144 }
  seq : SessionSeq := .zero
  maxPayload : UInt64 := kDefaultFramePayload

namespace Client

/-- A client that is about to shake hands. -/
def connect (role : Bytes) (incarnation : Incarnation) (maxFramePayload : UInt64) : Result Client :=
  if maxFramePayload = 0 ∨ maxFramePayload > kMaxFramePayload then
    fail .invalid .invalidArgument "max_frame_payload is outside the supported range"
  else .ok { role, incarnation, maxPayload := maxFramePayload }

/-- The frame that opens the handshake. -/
def greeting (c : Client) : Result Bytes :=
  encodeFrame .hello 0
    (Writer.run (HelloRequest.encode { clientIncarnation := c.incarnation, role := c.role }))
    kDefaultFramePayload

/-- The client behind the first frame of the coordinator. -/
def greeted (c : Client) (f : Frame) : Result Client :=
  if f.header.type ≠ .helloAck then
    match if f.header.type = .response then ResponseEnvelope.decode f.payload else none with
    | some (v, _) => .error (CallResult.toStatus { outcome := v.outcome, reasons := v.reasons })
    | none => fail .invalid .unknownMessageType "the coordinator did not answer the handshake"
  else
    match HelloResponse.decode.whole f.payload with
    | none => fail .invalid .malformedEncoding "malformed handshake response"
    | some hello =>
      .ok { c with hello, maxPayload := UInt64.ofNat hello.maxPayload.toNat, seq := .zero }

/-- The authority that the next request carries, when there is one. -/
def envelope (c : Client) : Option SessionEnvelope :=
  c.seq.next.map fun seq =>
    { sessionId := c.hello.sessionId, epoch := c.hello.epoch, incarnation := c.incarnation, seq }

/-- The first half of a call: the frame that is sent, and the sequence that it uses up. -/
def request (c : Client) (type : MessageType) (body : Bytes) : Result (Client × Bytes) :=
  match c.envelope with
  | none => fail .exhausted .checkedArithmeticOverflow "session sequence space is exhausted"
  | some envelope =>
    match encodeFrame type 0 (Writer.run envelope.encode ++ body) c.maxPayload with
    | .error status => .error status
    | .ok frame => .ok ({ c with seq := envelope.seq }, frame)

/-- The second half of a call: what the frame says that was received. -/
def read (f : Frame) : Result CallResult :=
  if f.header.type ≠ .response then
    fail .invalid .unknownMessageType "the coordinator sent an unexpected frame"
  else
    match ResponseEnvelope.decode f.payload with
    | none => fail .invalid .malformedEncoding "malformed response envelope"
    | some (v, _) =>
      let envelopeBytes := (Writer.run v.encode).length
      if envelopeBytes > f.payload.length then
        fail .invalid .trailingBytes "response envelope is longer than the frame"
      else
        .ok { outcome := v.outcome, reasons := v.reasons, body := f.payload.drop envelopeBytes }

/-- A ping also tells which coordinator answers. -/
def notice (c : Client) (call : Call) (result : Result CallResult) : Client :=
  match call, result with
  | .ping, .ok r =>
    if r.body.length < 10 then c
    else
      match (do
        let version ← Parser.u16
        let epoch ← Parser.u64
        return (version, epoch) : Parser (UInt16 × UInt64)) r.body with
      | none => c
      | some ((version, epoch), rest) =>
        if version = kWireProtocolVersion then
          { c with hello := { c.hello with
              epoch := ⟨epoch⟩
              coordinator := ((Parser.fixed 16 rest).map Prod.fst).getD (.zero 16) } }
        else c
  | _, _ => c

end Client

end LinkFailover
