import LinkFailover.Exchanges
import LinkFailover.Mirrors

/-!
# What a client sends

The frames of a client as its server takes them. The handshake opens the session, and from then on
every frame carries the authority that the session asks for, because the client keeps what the
handshake told it. So no call is turned away.

* `Server.Fit`: what a server keeps while it serves, whoever else it serves.
* `Client.judge_request`, `Client.read_response`: a call at the server, its answer at the client.
* `Client.opening`, `Client.errand`: the two kinds of errands.
-/

namespace LinkFailover

open Codec FrameDecoder

/-! ## The server of a dialogue -/

/-- What a server does not change while it runs. -/
structure Bearings where
  epoch : Epoch
  coordinator : Incarnation
  max : UInt64

/-- The confidence of a report is checked where it is decoded, and so is every enumeration. -/
theorem parseRequest_operation {type : MessageType} {body : Bytes} {op : Operation}
    (h : parseRequest type body = .ok (.operate op)) : op.Decoded := by
  cases type with
  | publishFailure =>
    obtain ⟨report, hread, hask⟩ := readBody_ok h
    cases hask
    have hdecode : Ensures FailureReport.decode fun r => Plausible r.state r.confidence := by
      iterate 6 refine .bind fun _ => ?_
      refine .lift fun _ hs => ?_
      refine .require fun hc => ?_
      iterate 3 refine .bind fun _ => ?_
      exact .pure ⟨WireEnum.ofCode?_declared hs, of_decide_eq_true hc⟩
    exact hdecode.whole hread
  | publishReplacement =>
    obtain ⟨report, hread, hask⟩ := readBody_ok h
    cases hask
    have hdecode : Ensures ReplacementReport.decode fun r =>
        Plausible r.state r.confidence := by
      iterate 10 refine .bind fun _ => ?_
      refine .lift fun _ hs => ?_
      refine .require fun hc => ?_
      iterate 3 refine .bind fun _ => ?_
      exact .pure ⟨WireEnum.ofCode?_declared hs, of_decide_eq_true hc⟩
    exact hdecode.whole hread
  | setPolicy =>
    obtain ⟨policy, hread, hask⟩ := readBody_ok h
    cases hask
    have hdecode : Ensures FailoverPolicy.decode fun p => WireEnum.Declared p.agreement := by
      iterate 17 refine .bind fun _ => ?_
      refine .lift fun _ ha => ?_
      exact .pure (WireEnum.ofCode?_declared ha)
    exact hdecode.whole hread
  | resolveInterrupted =>
    obtain ⟨req, hread, hask⟩ := readBody_ok h
    cases hask
    have hdecode : Ensures RevalidationRequest.decode fun r => WireEnum.Declared r.verdict := by
      iterate 10 refine .bind fun _ => ?_
      refine .lift fun _ hv => ?_
      iterate 2 refine .bind fun _ => ?_
      exact .pure (WireEnum.ofCode?_declared hv)
    exact hdecode.whole hread
  | inspect | claimDirective =>
    obtain ⟨_, -, hask⟩ := readBody_ok h
    cases hask
  | ping | shutdown | hello | helloAck | response => cases h
  | _ =>
    obtain ⟨_, -, hask⟩ := readBody_ok h
    cases hask
    trivial

theorem Engine.perform_incarnation {e : Engine} {wire : Prop} (h : EngineOk wire e)
    (op : Operation) : (e.perform op).1.incarnation = e.incarnation :=
  (perform_process h op).2.1

namespace Server

variable {s : Server} {b : Bearings}

/-- A step changes the engine by an operation of its owner or by one that came in a frame. -/
theorem step_performs (s : Server) (a : Action) : (s.step a).engine = s.engine ∨
    ∃ op, (a = .operate op ∨ op.Decoded) ∧ (s.step a).engine = (s.engine.perform op).1 := by
  cases a with
  | accept => exact .inl (s.step_quiet (.inl rfl)).1
  | read i chunk => exact .inl (s.step_quiet (.inr (.inl ⟨i, chunk, rfl⟩))).1
  | leave i => exact .inl (s.step_quiet (.inr (.inr ⟨i, rfl⟩))).1
  | operate op => exact .inr ⟨op, .inl rfl, rfl⟩
  | handle i takes =>
    left
    change (s.handle i takes).engine = _
    rcases s.handle_cases i takes with hsame | ⟨d, f, d', xs, -, -, hstep, -⟩
    · rw [hsame]
    · rw [hstep]
      rfl
  | dispatch i takes =>
    change (s.dispatch i takes).engine = _ ∨ ∃ op, _ ∧ (s.dispatch i takes).engine = _
    rcases s.dispatch_cases i takes with
      hsame | ⟨c, f, v, -, -, ⟨status, -, hstep⟩ | ⟨request, stopAfter, hf, hstep⟩⟩
    · rw [hsame]
      exact .inl rfl
    · rw [hstep]
      exact .inl (answer_engine s i c f v status [] false takes).1
    · have hengine : (s.dispatch i takes).engine = (s.engine.serve request).engine := by
        rw [hstep]
        exact (answer_engine { s with engine := (s.engine.serve request).engine } i c f v _ _ _ _).1
      rw [hengine, serve_engine]
      cases request with
      | operate op => exact .inr ⟨op, .inr (parseRequest_operation hf), rfl⟩
      | inspect | claim | ping | shutdown => exact .inl rfl

/-- A server of these bearings, whose engine has no evidence beyond the bounds and shows what its
process has come to until it is closed. -/
structure Fit (s : Server) (b : Bearings) : Prop where
  ok : s.Ok b.epoch
  engine : EngineOk True s.engine
  settled : s.engine.closed = false → s.engine.store.Settled True
  coordinator : s.engine.incarnation = b.coordinator
  max : s.options.maxFramePayload = b.max

/-- No attempt of such a server has a verdict that a reader of its view would not take. -/
theorem Fit.verdicts (h : s.Fit b) :
    ∀ r ∈ s.engine.state.attempts, WireEnum.Declared r.revalidation := fun r hr => by
  obtain ⟨j, ht⟩ := h.settled (Engine.ok_open_of_attempt h.engine hr)
  exact (ht.declared.live _ _ _ rfl).1 trivial r hr

theorem Fit.step (h : s.Fit b) {a : Action} (hown : ∀ op, a = .operate op → op.Decoded) :
    (s.step a).Fit b := by
  refine ⟨step_ok h.ok a, ?_, ?_, ?_, (s.step_options a).symm ▸ h.max⟩
  · rcases s.step_performs a with hsame | ⟨op, hop, hstep⟩
    · rw [hsame]
      exact h.engine
    · rw [hstep]
      exact h.engine.perform op fun _ => hop.elim (hown op) id
  · rcases s.step_performs a with hsame | ⟨op, hop, hstep⟩
    · rw [hsame]
      exact h.settled
    · rw [hstep]
      have hd : op.Decoded := hop.elim (hown op) id
      exact perform_settled h.engine (fun _ => hd.declares _) h.settled
  · rcases s.step_performs a with hsame | ⟨op, -, hstep⟩
    · rw [hsame, h.coordinator]
    · rw [hstep, Engine.perform_incarnation h.engine, h.coordinator]

theorem Fit.run (h : s.Fit b) {actions : List Action}
    (hown : ∀ op, .operate op ∈ actions → op.Decoded) : (s.run actions).Fit b := by
  induction actions using List.reverseRecOn with
  | nil => exact h
  | append_singleton actions a ih =>
    rw [run_append]
    refine (ih fun op hop => hown op (List.mem_append_left _ hop)).step ?_
    rintro op rfl
    exact hown op (List.mem_append_right _ (List.mem_singleton_self _))

/-- The bounds of an engine on the payloads of a server that was started. -/
theorem start_fit {o : ServerOptions} {e : Engine} (he : EngineOk True e) (hr : Reachable e)
    (hsettled : e.closed = false → e.store.Settled True) (hs : start o e = .ok s) :
    s.Fit ⟨e.epoch, e.incarnation, o.maxFramePayload⟩ ∧ o.maxFramePayload ≠ 0 ∧
      o.maxFramePayload.toNat ≤ kMaxFramePayload.toNat := by
  have hok := start_ok hr hs
  unfold start at hs
  split at hs
  · cases hs
  split at hs
  · cases hs
  · rename_i hlimits
    cases hs
    rw [not_or] at hlimits
    exact ⟨⟨hok, he, hsettled, rfl, rfl⟩, hlimits.1, UInt64.le_iff_toNat_le.mp (UInt64.not_lt.mp hlimits.2)⟩

end Server

/-! ## The frames of a client -/

/-- The incarnation in a handshake that is taken is that of the client, whatever its role. -/
theorem HelloRequest.decode_client {r found : HelloRequest}
    (h : decode.whole (Writer.run r.encode) = some found) :
    found.clientIncarnation = r.clientIncarnation := by
  obtain ⟨tail, htail⟩ : ∃ tail, Writer.run r.encode =
      leBytes 2 kWireProtocolVersion.toNat ++ (leBytes 2 r.protocolVersion.toNat ++
        (r.clientIncarnation.bytes ++ tail)) := by
    by_cases hr : r.role.length > 64
    · refine ⟨leBytes 8 r.clientEpoch.value.toNat, ?_⟩
      simp [Writer.run, encode, Writer.fields, Writer.u16, Writer.fixed, Writer.uint, Writer.u64,
        Writer.blob, hr]
    · refine ⟨leBytes 8 r.clientEpoch.value.toNat ++
        (leBytes 4 (UInt32.ofNat r.role.length).toNat ++ r.role), ?_⟩
      simp [Writer.run, encode, Writer.fields, Writer.u16, Writer.fixed, Writer.uint, Writer.u64,
        Writer.blob, Writer.u32, hr]
  have hdecode : ∃ rest, decode (Writer.run r.encode) = some (found, rest) := by
    unfold Parser.whole at h
    split at h
    · rename_i hread
      cases h
      exact ⟨[], hread⟩
    · cases h
  obtain ⟨rest, hdecode⟩ := hdecode
  rw [htail] at hdecode
  obtain ⟨_, _, h₁, hdecode⟩ := bind_eq_some hdecode
  rw [Reads.u16] at h₁
  cases h₁
  obtain ⟨_, _, h₂, hdecode⟩ := bind_eq_some hdecode
  rw [Reads.u16] at h₂
  cases h₂
  obtain ⟨_, _, h₃, hdecode⟩ := bind_eq_some hdecode
  rw [Reads.fixed] at h₃
  cases h₃
  obtain ⟨_, _, -, hdecode⟩ := bind_eq_some hdecode
  obtain ⟨_, _, -, hdecode⟩ := bind_eq_some hdecode
  obtain ⟨_, _, -, hdecode⟩ := bind_eq_some hdecode
  obtain ⟨_, _, -, hdecode⟩ := bind_eq_some hdecode
  cases hdecode
  rfl

namespace Client

variable {c : Client} {b : Bearings}

/-- The session of a client at the server, when the last call was carried out. -/
def session (c : Client) : SessionState where
  id := c.hello.sessionId
  client := c.incarnation
  epoch := c.hello.epoch
  lastSeq := c.seq
  handshaken := true

/-- What a client knows of the server behind the handshake. -/
structure Bound (c : Client) (b : Bearings) : Prop where
  epoch : c.hello.epoch = b.epoch
  coordinator : c.hello.coordinator = b.coordinator
  maxPayload : c.maxPayload = b.max

/-- The authority that a client has sent with its last call. -/
def lastEnvelope (c : Client) : SessionEnvelope where
  sessionId := c.hello.sessionId
  epoch := c.hello.epoch
  incarnation := c.incarnation
  seq := c.seq

/-- A call that is sent uses up the next sequence, and is written for the decoder of the server. -/
theorem request_ok {type : MessageType} {body bytes : Bytes} {c' : Client}
    (h : c.request type body = .ok (c', bytes)) :
    c' = { c with seq := c'.seq } ∧ c.seq < c'.seq ∧
      encodeFrame type 0 (Writer.run c'.lastEnvelope.encode ++ body) c.maxPayload = .ok bytes := by
  unfold request envelope at h
  cases hn : c.seq.next with
  | none =>
    rw [hn] at h
    cases h
  | some seq =>
    rw [hn] at h
    dsimp only [Option.map_some] at h
    split at h
    · cases h
    · rename_i frame hframe
      cases h
      refine ⟨rfl, ?_, hframe⟩
      have hlt := StrongUint.next_toNat hn
      change c.seq.value < seq.value
      rw [UInt64.lt_iff_toNat_lt]
      change c.seq.toNat < seq.toNat
      omega

/-- The server lets every call of a client through. -/
theorem judge_request (hb : c.Bound b) {type : MessageType} (ht : type ≠ .hello) {seq : SessionSeq}
    (hseq : seq < c.seq) (body : Bytes) :
    ({ c.session with lastSeq := seq } : SessionState).judge b.epoch
      (Frame.of type (Writer.run c.lastEnvelope.encode ++ body)) = .admitted c.lastEnvelope := by
  rw [SessionState.judge_admitted]
  exact ⟨rfl, Frame.of_envelope ht _ _, rfl, rfl, hb.epoch, hseq⟩

/-- What a response says, as the client reads it. -/
theorem read_response {op : UInt16} {status : Status} (h : status.Brief) (body : Bytes) :
    read (Frame.of .response (Writer.run (encodeResponseEnvelope op status) ++ body)) =
      .ok { outcome := status.outcome, reasons := status.reasons, body := body } := by
  let v : ResponseEnvelope := ⟨op, status.outcome, status.reasons⟩
  have hread : ResponseEnvelope.decode (Writer.run v.encode ++ body) = some (v, body) :=
    (ResponseEnvelope.roundTrip (v := v) h).reads body
  have hshort : ¬ (Writer.run v.encode).length > (Writer.run v.encode ++ body).length := by
    rw [List.length_append]
    omega
  have htype : ¬ (Frame.of .response (Writer.run v.encode ++ body)).header.type ≠ .response :=
    not_not.mpr rfl
  change read (Frame.of .response (Writer.run v.encode ++ body)) = _
  have hpayload : (Frame.of .response (Writer.run v.encode ++ body)).payload =
      Writer.run v.encode ++ body := rfl
  rw [read, if_neg htype, hpayload, hread]
  dsimp only
  rw [if_neg hshort, List.drop_left]

/-- Only a ping changes what the client knows of the server, and it tells it the same again. -/
theorem notice_bound (hb : c.Bound b) {e : Engine} (he : e.epoch = b.epoch)
    (hi : e.incarnation = b.coordinator) (call : Call) :
    let c' := c.notice call (.ok (e.reply call).result)
    c'.Bound b ∧ c'.session = c.session := by
  cases call with
  | ping =>
    have hbody : (e.reply .ping).result.body = leBytes 2 kWireProtocolVersion.toNat ++
        (leBytes 8 e.epoch.value.toNat ++ (e.incarnation.bytes ++ [])) := by
      simp [Engine.reply, Call.type, parseRequest, Engine.serve, Served.result, Writer.run,
        Writer.fields, Writer.u16, Writer.fixed, Writer.uint, Writer.u64]
    have hlong : ¬ (e.reply .ping).result.body.length < 10 := by
      rw [hbody]
      simp only [List.length_append, leBytes_length]
      omega
    have hread : (do
        let version ← Parser.u16
        let epoch ← Parser.u64
        return (version, epoch) : Parser (UInt16 × UInt64)) (e.reply .ping).result.body =
        some ((kWireProtocolVersion, e.epoch.value), e.incarnation.bytes ++ []) := by
      rw [hbody, ← List.append_assoc]
      exact (Reads.u16 kWireProtocolVersion).bind
        ((Reads.u64 e.epoch.value).bind (Reads.pure (kWireProtocolVersion, e.epoch.value))) _
    have hfixed : Parser.fixed 16 (e.incarnation.bytes ++ []) = some (e.incarnation, []) :=
      Reads.fixed e.incarnation []
    rw [notice, if_neg hlong, hread]
    dsimp only
    rw [if_pos rfl, hfixed]
    refine ⟨⟨he, hi, hb.maxPayload⟩, ?_⟩
    rw [session, session, he, hb.epoch]
  | _ => exact ⟨hb, rfl⟩

end Client

/-! ## Errands of a client -/

theorem Call.type_ne_hello (call : Call) : call.type ≠ .hello := by
  cases call <;> exact MessageType.noConfusion

/-- The request that the coordinator finds in a call. -/
def Call.request? (call : Call) : Option Request := (parseRequest call.type call.body).toOption

theorem Engine.reply_brief {e : Engine} (h : Reachable e) (call : Call) :
    (e.reply call).status.Brief := by
  unfold Engine.reply
  split
  · rename_i hparse
    exact parseRequest_brief hparse
  · rename_i hparse
    exact Engine.serve_brief h (parseRequest_decoded hparse)

namespace Client

variable {c : Client} {b : Bearings} {s : Server} {id : UInt64} {bytes : Bytes} {seq : SessionSeq}
  {call : Call} {told : Engine → Prop}

/-- The handshake of a client on a new connection. -/
def opening (c : Client) (b : Bearings) (id : UInt64) (bytes : Bytes) : Errand where
  current := b.epoch
  max := b.max
  small := c.maxPayload
  type := .hello
  payload := Writer.run (HelloRequest.encode { clientIncarnation := c.incarnation, role := c.role })
  bytes := bytes
  before := { id }
  replies _ s type payload := type = .helloAck →
    payload = Writer.run (HelloResponse.encode {
      epoch := b.epoch
      coordinator := b.coordinator
      sessionId := id
      maxPayload := UInt32.ofNat b.max.toNat }) ∧
    s = { id, client := c.incarnation, epoch := b.epoch, handshaken := true }

/-- A call of a client, and the engines that it may be carried out by. -/
def errand (c : Client) (b : Bearings) (seq : SessionSeq) (call : Call) (bytes : Bytes)
    (told : Engine → Prop) : Errand where
  current := b.epoch
  max := b.max
  small := c.maxPayload
  type := call.type
  payload := Writer.run c.lastEnvelope.encode ++ call.body
  bytes := bytes
  before := { c.session with lastSeq := seq }
  replies done s type payload := done = true ∧ type = .response ∧ s = c.session ∧
    ∃ e, told e ∧ Reachable e ∧ e.epoch = b.epoch ∧ e.incarnation = b.coordinator ∧
      payload = Writer.run (encodeResponseEnvelope call.type.code (e.reply call).status) ++
        (e.reply call).body

theorem opening_judged {v : SessionEnvelope} : (c.opening b id bytes).judged ≠ .admitted v :=
  fun h => Bool.noConfusion (SessionState.judge_admitted.mp h).1

theorem opening_meets (hs : s.Fit b) : (c.opening b id bytes).Meets s where
  epoch := hs.ok.epoch
  max := hs.max
  terminate _ _ h := by cases h
  refuse _ _ h := by cases h
  welcome request hj _ := by
    have hhello := (SessionState.judge_welcome.mp hj).2
    rw [SessionState.next_welcome hj, hs.ok.epoch, hs.coordinator]
    refine ⟨rfl, ?_⟩
    rw [Frame.hello?] at hhello
    have htype : (c.opening b id bytes).frame.header.type = .hello := rfl
    rw [if_pos htype, Option.filter_eq_some_iff] at hhello
    rw [HelloRequest.decode_client hhello.1]
    rfl

/-- A client takes the answer to its handshake. -/
theorem greeted_hello {hello : HelloResponse} (h : hello.maxPayload ≠ 0)
    (hm : hello.maxPayload.toNat ≤ kMaxFramePayload.toNat) :
    c.greeted (Frame.of .helloAck (Writer.run hello.encode)) = .ok { c with
      hello
      maxPayload := UInt64.ofNat hello.maxPayload.toNat
      seq := .zero } := by
  have htype : ¬ (Frame.of .helloAck (Writer.run hello.encode)).header.type ≠ .helloAck :=
    not_not.mpr rfl
  have hpayload : (Frame.of .helloAck (Writer.run hello.encode)).payload =
      Writer.run hello.encode := rfl
  rw [greeted, if_neg htype, hpayload, (HelloResponse.roundTrip h hm).whole]

/-- The limit of a server as it stands in the answer to a handshake. -/
theorem limit_toNat {max : UInt64} (hmax : max.toNat ≤ kMaxFramePayload.toNat) :
    (UInt32.ofNat max.toNat).toNat = max.toNat := by
  rw [UInt32.toNat_ofNat', Nat.mod_eq_of_lt (Nat.lt_of_le_of_lt hmax (by decide))]

theorem limit_ne_zero {max : UInt64} (hzero : max ≠ 0)
    (hmax : max.toNat ≤ kMaxFramePayload.toNat) : UInt32.ofNat max.toNat ≠ 0 := by
  intro h0
  have h := limit_toNat hmax
  rw [h0] at h
  exact hzero (UInt64.toNat_inj.mp h.symm)

/-- What a client knows when the server has answered its handshake. -/
theorem greeted_bound (hzero : b.max ≠ 0) (hmax : b.max.toNat ≤ kMaxFramePayload.toNat)
    {done : Bool} {session : SessionState} {type : MessageType} {payload : Bytes}
    (hr : (c.opening b id bytes).replies done session type payload) {c' : Client}
    (h : c.greeted (Frame.of type payload) = .ok c') :
    c'.Bound b ∧ session = c'.session := by
  by_cases htype : type = .helloAck
  · subst htype
    obtain ⟨rfl, hsession⟩ := hr rfl
    rw [greeted_hello (limit_ne_zero hzero hmax) (by rw [limit_toNat hmax]; exact hmax)] at h
    cases h
    refine ⟨⟨rfl, rfl, ?_⟩, hsession⟩
    change UInt64.ofNat (UInt32.ofNat b.max.toNat).toNat = b.max
    rw [limit_toNat hmax, UInt64.ofNat_toNat]
  · have hne : (Frame.of type payload).header.type ≠ .helloAck := htype
    rw [greeted, if_pos hne] at h
    split at h <;> cases h

theorem errand_judged (hb : c.Bound b) (hseq : seq < c.seq) :
    (c.errand b seq call bytes told).judged = .admitted c.lastEnvelope :=
  judge_request hb call.type_ne_hello hseq call.body

theorem errand_request :
    (c.errand b seq call bytes told).frame.request = parseRequest call.type call.body :=
  Frame.of_request _ _

theorem errand_meets (hb : c.Bound b) (hseq : seq < c.seq) (hs : s.Fit b) :
    (c.errand b seq call bytes told).Meets s where
  epoch := hs.ok.epoch
  max := hs.max
  terminate _ hj := by
    rw [errand_judged hb hseq] at hj
    cases hj
  refuse _ hj := by
    rw [errand_judged hb hseq] at hj
    cases hj
  welcome _ hj := by
    rw [errand_judged hb hseq] at hj
    cases hj

/-- The engine that carries the call out answers it. -/
theorem errand_replies (hs : s.Fit b) (ht : told s.engine) :
    let q := c.errand b seq call bytes told
    q.replies true { q.before with lastSeq := c.lastEnvelope.seq } .response
      (Writer.run (encodeResponseEnvelope q.type.code (s.engine.respond q.frame).status) ++
        (s.engine.respond q.frame).body) := by
  refine ⟨rfl, rfl, rfl, s.engine, ht, hs.ok.engine, hs.ok.epoch, hs.coordinator, ?_⟩
  have hreply : s.engine.respond (c.errand b seq call bytes told).frame = s.engine.reply call := by
    rw [Engine.respond, errand_request]
    rfl
  rw [hreply]
  rfl

end Client

end LinkFailover
