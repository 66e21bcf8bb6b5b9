import LinkFailover.Errands

/-!
# A call that comes through

When nothing fails, a frame goes to the server in one piece, is handled, and its answer comes back
in one piece. The client needs no more than these steps to get its answer.

* `push_whole`: a whole frame in front of an empty decoder.
* `Dialogue.greets_whole`: the steps of a handshake.
* `Dialogue.carries_whole`, `Dialogue.answers_whole`: the steps of a call.
-/

namespace LinkFailover

open Codec FrameDecoder

/-! ## Whole frames -/

section Whole

variable {type : MessageType} {payload bytes : Bytes} {max small : UInt64}

/-- Where a frame fits, its bytes do not depend on the limit. -/
theorem encodeFrame_small (h : encodeFrame type 0 payload max = .ok bytes)
    (hsmall : payload.length ≤ small.toNat) (hle : small.toNat ≤ kMaxFramePayload.toNat) :
    encodeFrame type 0 payload small = .ok bytes := by
  have hclamp : clampPayload small = small := by
    rw [clampPayload, if_neg]
    rw [gt_iff_lt, UInt64.lt_iff_toNat_lt]
    omega
  obtain ⟨bytes', h'⟩ := @encodeFrame_fits type payload small (by rwa [hclamp])
  rw [h', (encodeFrame_ok h).2, (encodeFrame_ok h').2]

theorem encodeFrame_length (h : encodeFrame type 0 payload max = .ok bytes) :
    bytes.length = kFrameHeaderSize + payload.length := by
  rw [(encodeFrame_ok h).2, List.length_append, List.length_append, rawFrameHead_length _ rfl,
    leBytes_length, kFrameHeaderSize]
  omega

/-- A whole frame in front of an empty decoder. -/
theorem push_whole (h : encodeFrame type 0 payload max = .ok bytes)
    (hsmall : payload.length ≤ small.toNat) (hle : small.toNat ≤ kMaxFramePayload.toNat) :
    (behind small []).push bytes = (behind small [], [Frame.of type payload], Status.success) := by
  have henc := encodeFrame_small h hsmall hle
  have hlimit : limit small = small.toNat + kFrameHeaderSize := by
    rw [limit, UInt64.toNat_add]
    exact Nat.mod_eq_of_lt (by
      have : kMaxFramePayload.toNat + kFrameHeaderSize < 2 ^ 64 := by decide
      change small.toNat + kFrameHeaderSize < 2 ^ 64
      omega)
  have hpush := @push_written small [(type, payload)] (fun _ => bytes)
    (by
      intro x hx
      rw [List.mem_singleton.mp hx]
      exact henc)
    (by
      rw [List.flatMap_singleton, encodeFrame_length h, hlimit]
      omega)
  rw [List.flatMap_singleton, List.map_singleton] at hpush
  have hempty : behind small [] = FrameDecoder.mk small [] false .success :=
    behind_piece (reference_nil small)
  have hempty' : ([] : Bytes) ++ (bytes ++ []) = bytes := List.append_nil bytes
  rcases push_piece henc hempty' (reference_nil small) with
    ⟨d, status, hp, -⟩ | ⟨-, hp⟩ | ⟨-, hp⟩
  · rw [hempty] at hp
    rw [hp] at hpush
    cases hpush
  · rw [hempty] at hp
    rw [hp] at hpush
    cases hpush
  · exact hp

theorem hear_whole (h : encodeFrame type 0 payload max = .ok bytes)
    (hsmall : payload.length ≤ small.toNat) (hle : small.toNat ≤ kMaxFramePayload.toNat) :
    (behind small []).hear bytes = .frame (Frame.of type payload) := by
  have hsome : ¬ bytes.isEmpty = true := by
    rw [List.isEmpty_iff_length_eq_zero, encodeFrame_length h, kFrameHeaderSize]
    omega
  rw [hear, if_neg hsome, push_whole h hsmall hle]
  rfl

end Whole

/-! ## The steps of the server -/

namespace Server

variable {s : Server} {i : Nat} {c : Connection} {f : Frame} {b : Bearings} {type : MessageType}
  {payload bytes : Bytes} {max : UInt64}

theorem update_self {d : Connection} (hc : s.connections[i]? = some c) :
    (s.update i d).connections[i]? = some d :=
  List.getElem?_set_self (List.getElem?_eq_some_iff.mp hc).1

theorem read_whole (hc : s.connections[i]? = some c) (hcalm : Exchange.Calm b.max c)
    (hgo : c.stopped = false) (hrun : s.stopRequested = false)
    (h : encodeFrame type 0 payload max = .ok bytes) (hfit : payload.length ≤ b.max.toNat)
    (hle : b.max.toNat ≤ kMaxFramePayload.toNat) :
    s.read i bytes = s.update i { c with waiting := [Frame.of type payload] } := by
  have hidle : ¬ (c.stopped = true ∨ s.stopRequested = true ∨ c.idle = false ∨ c.waiting ≠ []) := by
    rw [hgo, hrun, Connection.idle, hcalm.dispatching, hcalm.waiting]
    simp
  have hpush : c.decoder.push bytes = (c.decoder, [Frame.of type payload], .success) := by
    rw [hcalm.decoder]
    exact push_whole h hfit hle
  rw [read, hc]
  dsimp only
  rw [if_neg hidle, hpush]
  congr 2
  exact hgo.symm

theorem handle_admits {v : SessionEnvelope} (hc : s.connections[i]? = some c)
    (hw : c.waiting = [f]) (hn : c.dispatching = none)
    (hj : c.session.judge s.engine.epoch f = .admitted v) (takes : Bool) :
    s.handle i takes = (s.update i { c with
      waiting := []
      handled := c.handled + 1
      dispatching := some (f, v) }).note i [.received c.handled f] := by
  have hidle : ¬ c.idle = false := by
    rw [Connection.idle, hn]
    exact Bool.noConfusion
  rw [handle, hc]
  dsimp only
  rw [hw]
  dsimp only
  rw [if_neg hidle, hj]

/-- A handshake is answered. -/
theorem handle_welcomes {request : HelloRequest} (hc : s.connections[i]? = some c)
    (hw : c.waiting = [f]) (hn : c.dispatching = none)
    (hj : c.session.judge s.engine.epoch f = .welcome request)
    (henc : encodeFrame .helloAck 0 (Writer.run (HelloResponse.encode {
      epoch := s.engine.epoch
      coordinator := s.engine.incarnation
      sessionId := (c.session.next s.engine.epoch f).id
      maxPayload := UInt32.ofNat s.options.maxFramePayload.toNat })) s.options.maxFramePayload =
        .ok bytes) :
    ∃ c', (s.handle i true).connections[i]? = some c' ∧ c'.sent = c.sent ++ [bytes] ∧
      c'.waiting = [] ∧ c'.dispatching = none ∧ c'.stopped = c.stopped ∧
      (s.handle i true).stopRequested = s.stopRequested := by
  have hidle : ¬ c.idle = false := by
    rw [Connection.idle, hn]
    exact Bool.noConfusion
  rw [handle, hc]
  dsimp only
  rw [hw]
  dsimp only
  rw [if_neg hidle, hj]
  dsimp only
  rw [Connection.send, henc]
  exact ⟨_, update_self hc, rfl, rfl, hn, rfl, rfl⟩

/-- A request is carried out and answered. -/
theorem dispatch_answers {v : SessionEnvelope} (hc : s.connections[i]? = some c)
    (hn : c.dispatching = some (f, v))
    (henc : encodeFrame .response 0 (Writer.run (encodeResponseEnvelope f.header.type.code
      (s.engine.respond f).status) ++ (s.engine.respond f).body) s.options.maxFramePayload =
        .ok bytes) :
    ∃ c', (s.dispatch i true).connections[i]? = some c' ∧ c'.sent = c.sent ++ [bytes] := by
  have hanswer : ∀ (e : Engine) (status : Status) (body : Bytes) (stopAfter : Bool),
      encodeFrame .response 0
        (Writer.run (encodeResponseEnvelope f.header.type.code status) ++ body) s.options.maxFramePayload = .ok bytes →
      ∃ c', (({ s with engine := e } : Server).answer i c f v status body stopAfter
        true).connections[i]? = some c' ∧ c'.sent = c.sent ++ [bytes] := by
    intro e status body stopAfter h
    obtain ⟨c', hc', ha⟩ :=
      @answer_self { s with engine := e } i c hc c f v status body stopAfter true
    refine ⟨c', hc', ha.sent.trans ?_⟩
    dsimp only
    rw [Connection.sendResponse, Connection.send, h]
    rfl
  rw [dispatch, hc]
  dsimp only
  rw [hn]
  dsimp only
  unfold Engine.respond at henc
  cases hf : f.request with
  | error status =>
    rw [hf] at henc
    exact hanswer s.engine status [] false henc
  | ok request =>
    rw [hf] at henc
    exact hanswer (s.engine.serve request).engine _ _ _ henc

end Server

/-! ## The steps of a dialogue -/

namespace Dialogue

variable {w : Dialogue} {b : Bearings} {c : Connection} {call : Call} {client : Client}
  {frame bytes : Bytes}

/-- A thread that reads has nothing else to do. -/
theorem reads_idle (h : w.reads = true) : w.server.stopRequested = false ∧
    ∀ c, w.server.connections[w.index]? = some c →
      c.stopped = false ∧ c.dispatching = none ∧ c.waiting = [] := by
  unfold reads at h
  split at h
  · cases h
  · rename_i c hc
    simp only [Bool.and_eq_true, Bool.not_eq_true', Connection.idle, Option.isNone_iff_eq_none,
      List.isEmpty_iff] at h
    refine ⟨h.1.1.2, fun c' hc' => ?_⟩
    rw [hc] at hc'
    cases hc'
    exact ⟨h.1.1.1, h.1.2, h.2⟩

theorem reads_of (hc : w.server.connections[w.index]? = some c) (hgo : c.stopped = false)
    (hrun : w.server.stopRequested = false) (hn : c.dispatching = none) (hw : c.waiting = []) :
    w.reads = true := by
  rw [reads, hc]
  dsimp only
  rw [hgo, hrun, Connection.idle, hn, hw]
  rfl

/-- The server takes a frame in one piece. -/
theorem deliver_whole (hreads : w.reads = true) (ht : w.toServer = frame) (hsome : frame ≠ []) :
    w.deliver frame.length = { w with
      server := w.server.read w.index frame
      toServer := [] } := by
  have htake : w.toServer.take frame.length = frame := by rw [ht, List.take_length]
  have hgo : ¬ ((w.toServer.take frame.length).isEmpty || !w.reads) = true := by
    rw [htake, hreads]
    simpa using hsome
  rw [deliver, if_neg hgo, htake, ht, List.drop_length]

/-- What the client reads in one piece. -/
theorem unread_whole (hc : w.server.connections[w.index]? = some c) {before : List Bytes}
    (hsent : c.sent = before ++ [bytes]) (htaken : w.taken = before.flatten.length) :
    w.unread.take bytes.length = bytes := by
  have hflat : (before ++ [bytes]).flatten = before.flatten ++ bytes := by simp
  rw [unread, hc]
  dsimp only
  rw [hsent, hflat, htaken, List.drop_left, List.take_length]

theorem frame_ne_nil {type : MessageType} {payload : Bytes} {max : UInt64}
    (h : encodeFrame type 0 payload max = .ok frame) : frame ≠ [] := by
  rintro rfl
  have := encodeFrame_length h
  rw [kFrameHeaderSize, List.length_nil] at this
  omega

/-- What a frame of the server carries when it answers a call. -/
def answerTo (e : Engine) (call : Call) : Bytes :=
  Writer.run (encodeResponseEnvelope call.type.code (e.reply call).status) ++ (e.reply call).body

/-- The server has a call in its hands. -/
theorem carries_whole (hf : w.server.Fit b) (hle : b.max.toNat ≤ kMaxFramePayload.toNat)
    (hp : w.phase = .ready) (hb : w.client.Bound b) (ht : w.toServer = [])
    (hc : w.server.connections[w.index]? = some c) (hcalm : Exchange.Calm b.max c)
    (hsession : c.session = w.client.session) (hreads : w.reads = true)
    (hrequest : w.client.request call.type call.body = .ok (client, frame)) :
    ∃ s c', s.connections[w.index]? = some c' ∧ c'.sent = c.sent ∧
      (∃ f v, c'.dispatching = some (f, v) ∧ f.header.type = call.type ∧
        f.request = parseRequest call.type call.body) ∧
      s.engine = w.server.engine ∧ s.options = w.server.options ∧
      w.run [.call call, .deliver frame.length, .serve (.handle w.index true)] = { w with
        client
        phase := .calling call { maxPayload := client.maxPayload }
        toServer := []
        server := s } := by
  obtain ⟨hrun, hidle⟩ := reads_idle hreads
  obtain ⟨hclient, hseq, henc⟩ := Client.request_ok hrequest
  have hb' : client.Bound b := by
    rw [hclient]
    exact ⟨hb.epoch, hb.coordinator, hb.maxPayload⟩
  have hfit : (Writer.run client.lastEnvelope.encode ++ call.body).length ≤ b.max.toNat := by
    rw [← hb.maxPayload]
    exact (encodeFrame_ok henc).1.1
  let f := Frame.of call.type (Writer.run client.lastEnvelope.encode ++ call.body)
  have hjudge : c.session.judge w.server.engine.epoch f = .admitted client.lastEnvelope := by
    have hsame : c.session = { client.session with lastSeq := w.client.seq } := by
      rw [hsession, hclient]
      rfl
    rw [hsame, hf.ok.epoch]
    exact Client.judge_request hb' call.type_ne_hello hseq call.body
  let w₁ : Dialogue := { w with
    client
    phase := .calling call { maxPayload := client.maxPayload }
    toServer := frame }
  have h₁ : w.call call = w₁ := by
    rw [Dialogue.call, hp]
    dsimp only
    rw [hrequest, ht]
    rfl
  let s₂ := w.server.update w.index { c with waiting := [f] }
  have h₂ : w₁.deliver frame.length = { w₁ with server := s₂, toServer := [] } := by
    have hreads₁ : w₁.reads = true := hreads
    rw [deliver_whole hreads₁ rfl (frame_ne_nil henc)]
    change ({ w₁ with server := w.server.read w.index frame, toServer := [] } : Dialogue) = _
    rw [Server.read_whole hc hcalm (hidle c hc).1 hrun henc hfit hle]
  have hc₂ : s₂.connections[w.index]? = some { c with waiting := [f] } := Server.update_self hc
  have h₃ := Server.handle_admits hc₂ rfl hcalm.dispatching hjudge true
  let c₃ : Connection := { c with
    waiting := []
    handled := c.handled + 1
    dispatching := some (f, client.lastEnvelope) }
  refine ⟨(s₂.update w.index c₃).note w.index [.received c.handled f], c₃, Server.update_self hc₂,
    rfl, ⟨f, client.lastEnvelope, rfl, rfl, Frame.of_request _ _⟩, rfl, rfl, ?_⟩
  change ((w.call call).deliver frame.length).serve (.handle w.index true) = _
  rw [h₁, h₂]
  change ({ w₁ with server := s₂.handle w.index true, toServer := [] } : Dialogue) = _
  rw [h₃]

/-- A call that the server has in its hands is answered. -/
theorem answers_whole (hf : w.server.Fit b) (hle : b.max.toNat ≤ kMaxFramePayload.toNat)
    (hp : w.phase = .calling call { maxPayload := b.max })
    (hc : w.server.connections[w.index]? = some c) (htaken : w.taken = c.sent.flatten.length)
    {f : Frame} {v : SessionEnvelope} (hn : c.dispatching = some (f, v))
    (htype : f.header.type = call.type) (hparse : f.request = parseRequest call.type call.body)
    (hanswer : (answerTo w.server.engine call).length ≤ b.max.toNat) :
    ∃ n, let w' := w.run [.serve (.dispatch w.index true), .receive n]
      w'.phase = .ready ∧ w'.returned =
        w.returned ++ [(call, .answered (.ok (w.server.engine.reply call).result))] := by
  have hrespond : w.server.engine.respond f = w.server.engine.reply call := by
    rw [Engine.respond, hparse]
    rfl
  have hclamp : clampPayload b.max = b.max := by
    rw [clampPayload, if_neg]
    rw [gt_iff_lt, UInt64.lt_iff_toNat_lt]
    omega
  obtain ⟨bytes, henc⟩ := @encodeFrame_fits .response (answerTo w.server.engine call) b.max
    (by rwa [hclamp])
  obtain ⟨c', hc', hsent⟩ := @Server.dispatch_answers w.server w.index c f bytes v hc hn (by
    rw [hrespond, hf.max, htype]
    exact henc)
  let w' : Dialogue := { w with server := w.server.dispatch w.index true }
  have hunread : w'.unread.take bytes.length = bytes := unread_whole hc' hsent htaken
  have hsome : ¬ bytes.isEmpty = true := by
    rw [List.isEmpty_iff]
    exact frame_ne_nil henc
  have hhear : ({ maxPayload := b.max } : FrameDecoder).hear bytes =
      .frame (Frame.of .response (answerTo w.server.engine call)) := by
    rw [← behind_piece (reference_nil b.max)]
    exact hear_whole henc hanswer hle
  have hread := @Client.read_response call.type.code _ (Engine.reply_brief hf.ok.engine call)
    (w.server.engine.reply call).body
  have hreceive : w'.receive bytes.length = { w' with
      taken := w.taken + bytes.length
      client := w.client.notice call (.ok (w.server.engine.reply call).result)
      phase := .ready
      returned := w.returned ++
        [(call, .answered (.ok (w.server.engine.reply call).result))] } := by
    rw [receive]
    dsimp only
    rw [hunread, if_neg hsome]
    dsimp only [w']
    rw [hp]
    dsimp only
    rw [hhear]
    dsimp only
    rw [answerTo, hread]
    rfl
  refine ⟨bytes.length, ?_⟩
  change (w'.receive bytes.length).phase = _ ∧ (w'.receive bytes.length).returned = _
  rw [hreceive]
  exact ⟨rfl, rfl⟩

/-- A connection that was accepted. -/
def accepted (s : Server) : Connection where
  session := { id := s.nextSessionId }
  decoder := { maxPayload := s.options.maxFramePayload }

/-- A client that has connected. -/
theorem connect_eq {s : Server} {c : Client} (h : connect s c = .ok w) :
    ∃ frame, c.greeting = .ok frame ∧ s.stopRequested = false ∧ w = {
      server := { s with
        nextSessionId := s.nextSessionId + 1
        connections := s.connections ++ [accepted s] }
      index := s.connections.length
      client := c
      phase := .greeting { maxPayload := c.maxPayload }
      toServer := frame } := by
  unfold connect at h
  cases hgreeting : c.greeting with
  | error status =>
    rw [hgreeting] at h
    cases h
  | ok frame =>
    rw [hgreeting] at h
    dsimp only at h
    split at h
    · cases h
    rename_i hroom
    cases h
    refine ⟨frame, rfl, ?_⟩
    unfold Server.accept at hroom ⊢
    split at hroom
    · exact absurd rfl hroom
    · rename_i hgo
      rw [if_neg hgo]
      rw [not_or, Bool.not_eq_true] at hgo
      exact ⟨hgo.1, rfl⟩

theorem hello_length (hello : HelloResponse) : (Writer.run hello.encode).length = 48 := by
  simp [Writer.run, HelloResponse.encode, Writer.fields, Writer.u16, Writer.fixed, Writer.uint,
    Writer.u64, Writer.u32, hello.coordinator.size]

/-- The server answers a handshake that it can read. -/
theorem opens_whole {s : Server} {c : Client} (hf : s.Fit b)
    (hle : b.max.toNat ≤ kMaxFramePayload.toNat) (hc : connect s c = .ok w)
    (hrole : c.role.length ≤ 64) (hserver : 96 ≤ b.max.toNat) :
    ∃ (s' : Server) (c' : Connection) (hello : HelloResponse) (bytes : Bytes) (n : Nat),
      s'.connections[w.index]? = some c' ∧ c'.sent = [bytes] ∧ c'.waiting = [] ∧
      c'.dispatching = none ∧ c'.stopped = false ∧ s'.stopRequested = false ∧
      hello.maxPayload = UInt32.ofNat b.max.toNat ∧
      encodeFrame .helloAck 0 (Writer.run hello.encode) b.max = .ok bytes ∧
      w.run [.deliver n, .serve (.handle w.index true)] =
        { w with server := s', toServer := [] } := by
  obtain ⟨frame, hgreeting, hrun, hw⟩ := connect_eq hc
  let request : HelloRequest := { clientIncarnation := c.incarnation, role := c.role }
  let f := Frame.of .hello (Writer.run request.encode)
  have hnew : w.server.connections[w.index]? = some (accepted s) := by
    rw [hw]
    exact List.getElem?_concat_length
  have hcalm : Exchange.Calm b.max (accepted s) := by
    refine ⟨?_, rfl, rfl⟩
    rw [behind_piece (reference_nil _), ← hf.max]
    rfl
  have hopen : w.server.stopRequested = false := by rw [hw]; exact hrun
  have hlength : (Writer.run request.encode).length ≤ b.max.toNat := by
    refine Nat.le_trans ?_ hserver
    have hblob : ¬ c.role.length > 64 := by omega
    simp [Writer.run, HelloRequest.encode, Writer.fields, Writer.u16, Writer.fixed, Writer.uint,
      Writer.u64, Writer.u32, Writer.blob, request, hblob, c.incarnation.size]
    omega
  -- the handshake at the server
  let s₂ := w.server.update w.index { accepted s with waiting := [f] }
  have h₂ : w.deliver frame.length = { w with server := s₂, toServer := [] } := by
    rw [deliver_whole (reads_of hnew rfl hopen rfl rfl) (by rw [hw]) (frame_ne_nil hgreeting)]
    rw [Server.read_whole hnew hcalm rfl hopen hgreeting hlength hle]
  have hjudge : (accepted s).session.judge s.engine.epoch f = .welcome request := by
    refine SessionState.judge_welcome.mpr ⟨rfl, ?_⟩
    have hwhole : HelloRequest.decode.whole f.payload = some request :=
      (HelloRequest.roundTrip rfl hrole).whole
    have htype : f.header.type = .hello := rfl
    rw [Frame.hello?, if_pos htype, hwhole]
    rfl
  let hello : HelloResponse := {
    epoch := s₂.engine.epoch
    coordinator := s₂.engine.incarnation
    sessionId := ((accepted s).session.next s₂.engine.epoch f).id
    maxPayload := UInt32.ofNat s₂.options.maxFramePayload.toNat }
  have hengine : s₂.engine = s.engine := by
    change w.server.engine = _
    rw [hw]
  have hoptions : s₂.options.maxFramePayload = b.max := by
    change w.server.options.maxFramePayload = _
    rw [hw]
    exact hf.max
  have hclamp : clampPayload b.max = b.max := by
    rw [clampPayload, if_neg]
    rw [gt_iff_lt, UInt64.lt_iff_toNat_lt]
    omega
  obtain ⟨bytes, henc⟩ := @encodeFrame_fits .helloAck (Writer.run hello.encode)
    s₂.options.maxFramePayload (by
      rw [hoptions, hclamp, hello_length]
      omega)
  obtain ⟨c', hc', hsent, hwaiting, hidle, hgo, hstop⟩ := @Server.handle_welcomes s₂ w.index
    { accepted s with waiting := [f] } f bytes request (Server.update_self hnew) rfl rfl
    (by rw [hengine]; exact hjudge) henc
  have hmax : hello.maxPayload = UInt32.ofNat b.max.toNat :=
    congrArg (fun m : UInt64 => UInt32.ofNat m.toNat) hoptions
  rw [hoptions] at henc
  refine ⟨s₂.handle w.index true, c', hello, bytes, frame.length, hc', hsent, hwaiting, hidle, hgo,
    hstop.trans hopen, hmax, henc, ?_⟩
  change (w.deliver frame.length).serve (.handle w.index true) = _
  rw [h₂]
  rfl

/-- A handshake comes through when its two frames fit into what the other end takes. -/
theorem greets_whole {s : Server} {c : Client} (hf : s.Fit b) (hzero : b.max ≠ 0)
    (hle : b.max.toNat ≤ kMaxFramePayload.toNat) (hc : connect s c = .ok w)
    (hrole : c.role.length ≤ 64) (hserver : 96 ≤ b.max.toNat) (hclient : 48 ≤ c.maxPayload.toNat)
    (hlec : c.maxPayload.toNat ≤ kMaxFramePayload.toNat) :
    ∃ n m, let w' := w.run [.deliver n, .serve (.handle w.index true), .receive m]
      w'.phase = .ready ∧ w'.reads = true ∧ w'.returned = [] ∧ w'.client.seq = .zero := by
  obtain ⟨frame, -, -, hw⟩ := connect_eq hc
  obtain ⟨s', c', hello, bytes, n, hc', hsent, hwaiting, hidle, hgo, hstop, hmax, henc, hopened⟩ :=
    opens_whole hf hle hc hrole hserver
  let w' : Dialogue := { w with server := s', toServer := [] }
  have hw' : w'.client = c ∧ w'.taken = 0 ∧ w'.returned = [] ∧
      w'.phase = .greeting { maxPayload := c.maxPayload } := by
    change w.client = _ ∧ w.taken = _ ∧ w.returned = _ ∧ w.phase = _
    rw [hw]
    exact ⟨rfl, rfl, rfl, rfl⟩
  obtain ⟨hwho, htaken, hreturned, hphase⟩ := hw'
  have hunread : w'.unread.take bytes.length = bytes :=
    @unread_whole w' c' bytes hc' [] hsent htaken
  have hsome : ¬ bytes.isEmpty = true := by
    rw [List.isEmpty_iff]
    exact frame_ne_nil henc
  have hhear : ({ maxPayload := c.maxPayload } : FrameDecoder).hear bytes =
      .frame (Frame.of .helloAck (Writer.run hello.encode)) := by
    rw [← behind_piece (reference_nil c.maxPayload)]
    exact hear_whole henc (by rw [hello_length]; exact hclient) hlec
  have hgreeted := @Client.greeted_hello c hello
    (by
      rw [hmax]
      exact Client.limit_ne_zero hzero hle)
    (by
      rw [hmax, Client.limit_toNat hle]
      exact hle)
  have hreceive : w'.receive bytes.length = { w' with
      taken := w'.taken + bytes.length
      client := { c with
        hello
        maxPayload := UInt64.ofNat hello.maxPayload.toNat
        seq := .zero }
      phase := .ready } := by
    rw [receive]
    dsimp only
    rw [hunread, if_neg hsome, hphase]
    dsimp only
    rw [hhear]
    dsimp only
    rw [hwho, hgreeted]
  refine ⟨n, bytes.length, ?_⟩
  have hall : w.run [.deliver n, .serve (.handle w.index true), .receive bytes.length] =
      w'.receive bytes.length := congrArg (fun x : Dialogue => x.receive bytes.length) hopened
  rw [hall, hreceive]
  exact ⟨rfl, reads_of hc' hgo hstop hidle hwaiting, hreturned, rfl⟩

end Dialogue

end LinkFailover
