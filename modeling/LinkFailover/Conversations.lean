import LinkFailover.Completions

/-!
# Conversations

In every dialogue the client and its session at the server keep step: no call of the client is
turned away, each is carried out at most once, and what it returns is what the engine had to say
when it was carried out. What the other connections and the owner of the engine do in between
changes nothing of this.

* `Dialogue.Stands`: what the two ends hold in each phase of the client.
* `Dialogue.Keeps.run`: it holds in every run.
* `handshake_agrees`: what a client knows of the server.
* `calls_answered`: what a call returns, and when it was carried out.
* `calls_once`: the requests that were carried out are those of the calls, in order.
-/

namespace LinkFailover

open Codec FrameDecoder

/-! ## Calls that were sent -/

def Ending.isSent : Ending → Bool
  | unsent _ => false
  | answered _ | broken _ => true

def Ending.isAnswered : Ending → Bool
  | answered _ => true
  | unsent _ | broken _ => false

namespace Dialogue

/-- The calls that were answered, in order. -/
def answered (w : Dialogue) : List Call := (w.returned.filter fun x => x.2.isAnswered).map Prod.fst

/-- The calls that were sent and have ended. -/
def ended (w : Dialogue) : List Call := (w.returned.filter fun x => x.2.isSent).map Prod.fst

/-- The calls that were sent. -/
def calls (w : Dialogue) : List Call :=
  w.ended ++
    match w.phase with
    | .calling call _ => [call]
    | _ => []

/-- The request of a call is in the hands of the server. -/
def Carries (w : Dialogue) (call : Call) : Prop :=
  (∃ d, w.phase = .calling call d) ∧
    ∃ c f v, w.server.connections[w.index]? = some c ∧ c.dispatching = some (f, v) ∧
      f.request = parseRequest call.type call.body

/-! ## The two ends -/

/-- A connection whose client is gone. At most the frame that it sent last is still under way. -/
inductive Deaf (b : Bearings) (w : Dialogue) : Prop
  | calm {c : Connection} (ht : w.toServer = []) (hc : w.server.connections[w.index]? = some c)
      (hcalm : Exchange.Calm b.max c)
      (hlow : w.answered.filterMap Call.request? <+: w.server.requests w.index)
      (hup : w.server.requests w.index <+: w.calls.filterMap Call.request?)
  | busy {q : Errand} {done : Bool} {taken : Nat} {d : FrameDecoder} {cap : UInt64}
      (hx : Exchange.On q.deaf done w.server w.index taken w.toServer d)
      (hepoch : q.current = b.epoch) (hmax : q.max = b.max)
      (henc : encodeFrame q.type 0 q.payload cap = .ok q.bytes)
      (hlow : w.answered.filterMap Call.request? <+: w.calls.filterMap Call.request?)
      (hup : ∀ v, q.judged = .admitted v → w.calls.filterMap Call.request? =
        w.answered.filterMap Call.request? ++ q.frame.request.toOption.toList)
      (hdone : done = true → ∃ v, q.judged = .admitted v)
      (hreq : w.server.requests w.index = w.answered.filterMap Call.request? ++
        if done then q.frame.request.toOption.toList else [])

/-- What the two ends of a connection hold. -/
inductive Stands (b : Bearings) (told : Nat → Call → Engine → Prop) (w : Dialogue) : Prop
  | greeting {d : FrameDecoder} {bytes : Bytes} {id : UInt64} (hp : w.phase = .greeting d)
      (hb : w.client.greeting = .ok bytes) (hr : w.returned = [])
      (hx : Exchange.On (w.client.opening b id bytes) false w.server w.index w.taken w.toServer d)
      (hreq : w.server.requests w.index = [])
  | ready {c : Connection} (hp : w.phase = .ready) (hb : w.client.Bound b) (ht : w.toServer = [])
      (hc : w.server.connections[w.index]? = some c) (hcalm : Exchange.Calm b.max c)
      (hsession : c.session = w.client.session) (htaken : w.taken = c.sent.flatten.length)
      (hended : w.ended = w.answered)
      (hreq : w.server.requests w.index = w.answered.filterMap Call.request?)
  | calling {call : Call} {d : FrameDecoder} {seq : SessionSeq} {bytes : Bytes} {done : Bool}
      (hp : w.phase = .calling call d) (hb : w.client.Bound b) (hseq : seq < w.client.seq)
      (henc : encodeFrame call.type 0 (Writer.run w.client.lastEnvelope.encode ++ call.body)
        w.client.maxPayload = .ok bytes)
      (hx : Exchange.On (w.client.errand b seq call bytes (told w.returned.length call)) done
        w.server w.index w.taken w.toServer d)
      (hended : w.ended = w.answered)
      (hreq : w.server.requests w.index = w.answered.filterMap Call.request? ++
        if done then call.request?.toList else [])
  | lost (hp : w.phase = .lost) (hd : w.Deaf b)

/-- A step returns from no call, or from one with what an engine has to say to it. -/
def Returns (told : Nat → Call → Engine → Prop) (w w' : Dialogue) : Prop :=
  w'.returned = w.returned ∨ ∃ call ending, w'.returned = w.returned ++ [(call, ending)] ∧
    ∀ r, ending = .answered r →
      ∃ e, told w.returned.length call e ∧ r = .ok (e.reply call).result

namespace Stands

variable {b : Bearings} {told : Nat → Call → Engine → Prop} {w : Dialogue}

theorem calls_calling {call : Call} {d : FrameDecoder} (hp : w.phase = .calling call d) :
    w.calls = w.ended ++ [call] := by rw [calls, hp]

theorem filterMap_request (call : Call) :
    [call].filterMap Call.request? = call.request?.toList := by
  rw [List.filterMap_cons]
  cases call.request? <;> rfl

theorem answered_nil (h : w.returned = []) : w.answered = [] := by
  rw [answered, h]
  rfl

theorem answered_returned {w' : Dialogue} {x : Call × Ending}
    (h : w'.returned = w.returned ++ [x]) :
    w'.answered = w.answered ++ if x.2.isAnswered then [x.1] else [] := by
  rw [answered, h, List.filter_append, List.map_append, List.filter_singleton]
  cases x.2.isAnswered <;> rfl

theorem ended_returned {w' : Dialogue} {x : Call × Ending}
    (h : w'.returned = w.returned ++ [x]) :
    w'.ended = w.ended ++ if x.2.isSent then [x.1] else [] := by
  rw [ended, h, List.filter_append, List.map_append, List.filter_singleton]
  cases x.2.isSent <;> rfl

/-- The requests that were carried out lie between the answered calls and the calls. -/
theorem between (h : w.Stands b told) :
    w.answered.filterMap Call.request? <+: w.server.requests w.index ∧
      w.server.requests w.index <+: w.calls.filterMap Call.request? := by
  cases h with
  | greeting hp hb hr hx hreq =>
    rw [hreq, answered_nil hr]
    exact ⟨List.nil_prefix, List.nil_prefix⟩
  | ready hp hb ht hc hcalm hsession htaken hended hreq =>
    have hcalls : w.calls = w.answered := by
      rw [calls, hp, hended]
      exact List.append_nil _
    rw [hreq, hcalls]
    exact ⟨List.prefix_rfl, List.prefix_rfl⟩
  | @calling call d seq bytes done hp hb hseq henc hx hended hreq =>
    rw [hreq, calls_calling hp, hended, List.filterMap_append, filterMap_request]
    refine ⟨List.prefix_append _ _, List.prefix_append_right_inj _ |>.mpr ?_⟩
    cases done with
    | false => exact List.nil_prefix
    | true => exact List.prefix_rfl
  | lost hp hd =>
    cases hd with
    | calm ht hc hcalm hlow hup => exact ⟨hlow, hup⟩
    | @busy q done taken d cap hx hepoch hmax henc hlow hup hdone hreq =>
      rw [hreq]
      refine ⟨List.prefix_append _ _, ?_⟩
      cases done with
      | false => rwa [if_neg Bool.false_ne_true, List.append_nil]
      | true =>
        obtain ⟨v, hv⟩ := hdone rfl
        rw [hup v hv]
        exact List.prefix_rfl

/-- A step of the server that does not read from the client. -/
theorem serve (h : w.Stands b told) (hf : w.server.Fit b) {a : Server.Action}
    (hread : ∀ chunk, a ≠ .read w.index chunk)
    (ht : ∀ call takes, a = .dispatch w.index takes → w.Carries call →
      told w.returned.length call w.server.engine) :
    ({ w with server := w.server.step a } : Dialogue).Stands b told := by
  cases h with
  | greeting hp hb hr hx hreq =>
    rcases hx.serve (Client.opening_meets hf) hread
      fun v _ _ _ hj => absurd hj Client.opening_judged with ⟨hx', hsame⟩ | ⟨-, ⟨v, hj⟩, -⟩
    · exact .greeting hp hb hr hx' (hsame.trans hreq)
    · exact absurd hj Client.opening_judged
  | ready hp hb ht hc hcalm hsession htaken hended hreq =>
    obtain ⟨⟨c', hc', ha⟩, hsame⟩ := hcalm.step hc hread
    exact .ready hp hb ht hc' (hcalm.alike ha) (ha.session.trans hsession)
      (htaken.trans (by rw [ha.sent])) hended (hsame.trans hreq)
  | @calling call d seq bytes done hp hb hseq henc hx hended hreq =>
    have hserved := hx.serve (Client.errand_meets hb hseq hf) hread (by
      intro v takes _ ha hj hc
      have hv : v = w.client.lastEnvelope := by
        rw [Client.errand_judged hb hseq] at hj
        exact (Admission.admitted.inj hj).symm
      subst hv
      obtain ⟨c, hc, hn⟩ := hc
      exact Client.errand_replies hf
        (ht call takes ha ⟨⟨d, hp⟩, c, _, _, hc, hn, Client.errand_request⟩))
    rcases hserved with ⟨hx', hsame⟩ | ⟨hdone, -, hx', hmore⟩
    · exact .calling hp hb hseq henc hx' hended (hsame.trans hreq)
    · refine .calling hp hb hseq henc hx' hended (hmore.trans ?_)
      rw [hreq, hdone, if_neg Bool.false_ne_true, List.append_nil, if_pos rfl,
        Client.errand_request]
      rfl
  | lost hp hd =>
    refine .lost hp ?_
    cases hd with
    | calm ht hc hcalm hlow hup =>
      obtain ⟨⟨c', hc', ha⟩, hsame⟩ := hcalm.step hc hread
      refine .calm ht hc' (hcalm.alike ha) ?_ ?_
      · change w.answered.filterMap Call.request? <+: (w.server.step a).requests w.index
        rw [hsame]
        exact hlow
      · change (w.server.step a).requests w.index <+: w.calls.filterMap Call.request?
        rw [hsame]
        exact hup
    | @busy q done taken d cap hx hepoch hmax henc hlow hup hdone hreq =>
      have hq : q.deaf.Meets w.server :=
        Errand.deaf_meets (hf.ok.epoch.trans hepoch.symm) (hf.max.trans hmax.symm)
      rcases hx.serve hq hread fun _ _ _ _ _ _ => trivial with
        ⟨hx', hsame⟩ | ⟨hno, hj, hx', hmore⟩
      · exact .busy hx' hepoch hmax henc hlow hup hdone (hsame.trans hreq)
      · refine .busy hx' hepoch hmax henc hlow hup (fun _ => hj) (hmore.trans ?_)
        rw [hreq, hno, if_neg Bool.false_ne_true, List.append_nil]
        rfl

/-- The server reads from the client. -/
theorem deliver (h : w.Stands b told) {n : Nat} (hchunk : w.toServer.take n ≠ [])
    (hreads : w.reads = true) : ({ w with
      server := w.server.read w.index (w.toServer.take n)
      toServer := w.toServer.drop n } : Dialogue).Stands b told := by
  obtain ⟨hstop, hidle⟩ := reads_idle hreads
  have hempty : w.toServer ≠ [] := fun hnil => hchunk (by rw [hnil]; exact List.take_nil)
  have hsame : (w.server.read w.index (w.toServer.take n)).requests w.index =
      w.server.requests w.index :=
    w.server.requests_other (a := .read w.index (w.toServer.take n))
      fun _ => Server.Action.noConfusion
  cases h with
  | greeting hp hb hr hx hreq =>
    exact .greeting hp hb hr (hx.deliver hb hchunk hidle hstop) (hsame.trans hreq)
  | ready hp hb ht => exact absurd ht hempty
  | calling hp hb hseq henc hx hended hreq =>
    exact .calling hp hb hseq henc (hx.deliver henc hchunk hidle hstop) hended (hsame.trans hreq)
  | lost hp hd =>
    cases hd with
    | calm ht => exact absurd ht hempty
    | @busy q done taken d cap hx hepoch hmax henc hlow hup hdone hreq =>
      exact .lost hp (.busy (hx.deliver henc hchunk hidle hstop) hepoch hmax henc hlow hup hdone
        (hsame.trans hreq))

/-- A call is sent, or it is turned down on the spot. -/
theorem call (h : w.Stands b told) (call : Call) : (w.call call).Stands b told := by
  cases h with
  | ready hp hb ht hc hcalm hsession htaken hended hreq =>
    rw [Dialogue.call, hp]
    dsimp only
    cases hrequest : w.client.request call.type call.body with
    | error status =>
      dsimp only
      refine .ready rfl hb ht hc hcalm hsession htaken ?_ ?_
      · rw [ended_returned rfl, answered_returned rfl, hended]
        rfl
      · rw [answered_returned rfl]
        exact hreq.trans (by rw [List.filterMap_append]; exact (List.append_nil _).symm)
    | ok x =>
      obtain ⟨client, frame⟩ := x
      obtain ⟨hclient, hseq, henc⟩ := Client.request_ok hrequest
      dsimp only
      have hb' : client.Bound b := by
        rw [hclient]
        exact ⟨hb.epoch, hb.coordinator, hb.maxPayload⟩
      have hsession' : { client.session with lastSeq := w.client.seq } = w.client.session := by
        rw [hclient]
        rfl
      have hmax : client.maxPayload = w.client.maxPayload := by rw [hclient]
      have hbefore := hsession.trans hsession'.symm
      refine @calling b told _ call _ w.client.seq frame false rfl hb' hseq
        (by rw [hmax]; exact henc) ⟨_, hc, htaken.le, .inl hbefore, ?_⟩ hended
        (hreq.trans (List.append_nil _).symm)
      rw [htaken, List.drop_length]
      refine @Exchange.asking _ _ _ _ _ _ [] rfl ?_ (reference_nil _) hcalm.decoder hcalm.waiting
        hcalm.dispatching hbefore rfl ?_
      · rw [ht]
        rfl
      · exact (behind_piece (reference_nil _)).symm
  | greeting hp hb hr hx hreq =>
    rw [Dialogue.call, hp]
    exact .greeting hp hb hr hx hreq
  | calling hp hb hseq henc hx hended hreq =>
    rw [Dialogue.call, hp]
    exact .calling hp hb hseq henc hx hended hreq
  | lost hp hd =>
    rw [Dialogue.call, hp]
    exact .lost hp hd

/-- What is under way is what comes from the connection. -/
theorem unread_of {c : Connection} (hc : w.server.connections[w.index]? = some c) :
    w.unread = c.sent.flatten.drop w.taken := by rw [unread, hc]

/-- The client of a call that was lost. -/
theorem calls_broken {w' : Dialogue} {call : Call} {d : FrameDecoder} {status : Status}
    (hp : w.phase = .calling call d) (hp' : w'.phase = .lost)
    (h : w'.returned = w.returned ++ [(call, .broken status)]) :
    w'.calls = w.calls ∧ w'.answered = w.answered := by
  constructor
  · rw [calls_calling hp, calls, hp', ended_returned h]
    exact List.append_nil _
  · rw [answered_returned h]
    exact List.append_nil _

/-- The socket of the client fails. -/
theorem lose (h : w.Stands b told) (status : Status) : (w.lose status).Stands b told := by
  have hbetween := h.between
  cases h with
  | @greeting d bytes id hp hb hr hx hreq =>
    rw [Dialogue.lose, hp]
    dsimp only
    refine .lost rfl (.busy hx.deaf rfl rfl hb ?_ (fun v hj => absurd hj Client.opening_judged)
      Bool.noConfusion ?_)
    · change w.answered.filterMap Call.request? <+: _
      rw [answered_nil hr]
      exact List.nil_prefix
    · change w.server.requests w.index = w.answered.filterMap Call.request? ++ []
      rw [answered_nil hr, hreq]
      rfl
  | ready hp hb ht hc hcalm hsession htaken hended hreq =>
    rw [Dialogue.lose, hp]
    refine .lost rfl (.calm ht hc hcalm hbetween.1 ?_)
    rw [calls, hp] at hbetween
    exact hbetween.2
  | @calling call d seq bytes done hp hb hseq henc hx hended hreq =>
    obtain ⟨hcalls, hanswered⟩ := @calls_broken w (w.lose status) call d status hp
      (by rw [Dialogue.lose, hp]) (by rw [Dialogue.lose, hp])
    rw [Dialogue.lose, hp] at hcalls hanswered ⊢
    dsimp only at hcalls hanswered ⊢
    have hrequest : (w.client.errand b seq call bytes (told w.returned.length call)).frame.request =
      parseRequest call.type call.body := Client.errand_request
    refine .lost rfl (.busy hx.deaf rfl rfl henc ?_ (fun v _ => ?_)
      (fun _ => ⟨_, Client.errand_judged hb hseq⟩) ?_)
    · rw [hcalls, hanswered, calls_calling hp, hended, List.filterMap_append]
      exact List.prefix_append _ _
    · rw [hcalls, hanswered, calls_calling hp, hended, List.filterMap_append, hrequest,
        filterMap_request]
      rfl
    · rw [hanswered, hrequest]
      exact hreq
  | lost hp hd =>
    rw [Dialogue.lose, hp]
    cases hd with
    | calm ht hc hcalm hlow hup =>
      rw [calls, hp] at hup
      exact .lost rfl (.calm ht hc hcalm hlow hup)
    | busy hx hepoch hmax henc hlow hup hdone hreq =>
      rw [calls, hp] at hlow hup
      exact .lost rfl (.busy hx hepoch hmax henc hlow hup hdone hreq)

/-- A client that gives up behind its part of an answer. -/
theorem lost_calm {w' : Dialogue} {c : Connection} (hp : w'.phase = .lost) (ht : w'.toServer = [])
    (hc : w'.server.connections[w'.index]? = some c) (hcalm : Exchange.Calm b.max c)
    (hlow : w'.answered.filterMap Call.request? <+: w'.server.requests w'.index)
    (hup : w'.server.requests w'.index <+: w'.calls.filterMap Call.request?) :
    w'.Stands b told := .lost hp (.calm ht hc hcalm hlow hup)

/-- The client reads, and with the last piece it has its answer. -/
theorem receive (h : w.Stands b told) (hzero : b.max ≠ 0)
    (hmax : b.max.toNat ≤ kMaxFramePayload.toNat) (n : Nat) :
    (w.receive n).Stands b told ∧ w.Returns told (w.receive n) := by
  have hbetween := h.between
  by_cases hchunk : w.unread.take n = []
  · have hsame : w.receive n = w := by
      rw [Dialogue.receive]
      dsimp only
      rw [hchunk]
      exact if_pos rfl
    rw [hsame]
    exact ⟨h, .inl rfl⟩
  have hsome : ¬ (w.unread.take n).isEmpty = true := by rwa [List.isEmpty_iff]
  cases h with
  | @greeting d bytes id hp hb hr hx hreq =>
    obtain ⟨c, hc⟩ : ∃ c, w.server.connections[w.index]? = some c := hx.imp fun _ h => h.1
    rw [unread_of hc] at hchunk hsome
    obtain ⟨ht, hcalm, hheard⟩ := hx.receive hc hchunk
    rw [Dialogue.receive, hp, unread_of hc]
    dsimp only
    rw [if_neg hsome]
    rcases hheard with ⟨status, hhear⟩ | ⟨d', hhear, hx'⟩ | ⟨type, payload, hhear, hread, hreply⟩
    · rw [hhear]
      refine ⟨lost_calm rfl ht hc hcalm hbetween.1 ?_, .inl rfl⟩
      rw [calls, hp] at hbetween
      exact hbetween.2
    · rw [hhear]
      exact ⟨.greeting rfl hb hr hx' hreq, .inl rfl⟩
    · rw [hhear]
      dsimp only
      cases hgreeted : w.client.greeted (Frame.of type payload) with
      | error status =>
        refine ⟨lost_calm rfl ht hc hcalm hbetween.1 ?_, .inl rfl⟩
        rw [calls, hp] at hbetween
        exact hbetween.2
      | ok client =>
        obtain ⟨hb', hsession⟩ := Client.greeted_bound hzero hmax hreply hgreeted
        refine ⟨.ready rfl hb' ht hc hcalm hsession hread ?_ ?_, .inl rfl⟩
        · change w.ended = w.answered
          rw [ended, answered, hr]
          rfl
        · change w.server.requests w.index = w.answered.filterMap Call.request?
          rw [answered_nil hr, hreq]
          rfl
  | ready hp hb ht hc hcalm hsession htaken hended hreq =>
    exfalso
    rw [unread_of hc, htaken, List.drop_length] at hchunk
    exact hchunk List.take_nil
  | @calling call d seq bytes done hp hb hseq henc hx hended hreq =>
    obtain ⟨c, hc⟩ : ∃ c, w.server.connections[w.index]? = some c := hx.imp fun _ h => h.1
    rw [unread_of hc] at hchunk hsome
    obtain ⟨ht, hcalm, hheard⟩ := hx.receive hc hchunk
    rcases hheard with ⟨status, hhear⟩ | ⟨d', hhear, hx'⟩ | ⟨type, payload, hhear, hread, hreply⟩
    · have hreceive : w.receive n = { w with
          taken := w.taken + ((c.sent.flatten.drop w.taken).take n).length
          phase := .lost
          returned := w.returned ++ [(call, .broken status)] } := by
        rw [Dialogue.receive, hp, unread_of hc]
        dsimp only
        rw [if_neg hsome, hhear]
      rw [hreceive]
      obtain ⟨hcalls, hanswered⟩ := @calls_broken w (w.receive n) call d status hp
        (by rw [hreceive]) (by rw [hreceive])
      rw [hreceive] at hcalls hanswered
      refine ⟨lost_calm rfl ht hc hcalm ?_ ?_, ?_⟩
      · rw [hanswered]
        exact hbetween.1
      · rw [hcalls]
        exact hbetween.2
      · exact .inr ⟨call, .broken status, rfl, fun r hr => by cases hr⟩
    · rw [Dialogue.receive, hp, unread_of hc]
      dsimp only
      rw [if_neg hsome, hhear]
      exact ⟨.calling rfl hb hseq henc hx' hended hreq, .inl rfl⟩
    · obtain ⟨hdone, rfl, hsession, e, htold, he, hepoch, hcoordinator, rfl⟩ := hreply
      rw [Dialogue.receive, hp, unread_of hc]
      dsimp only
      rw [if_neg hsome, hhear]
      dsimp only
      rw [Client.read_response (Engine.reply_brief he call)]
      obtain ⟨hb', hsession'⟩ := Client.notice_bound hb hepoch hcoordinator call
      refine ⟨.ready rfl hb' ht hc hcalm (hsession.trans hsession'.symm) hread ?_ ?_, ?_⟩
      · rw [ended_returned rfl, answered_returned rfl, hended]
        rfl
      · rw [answered_returned rfl, List.filterMap_append]
        refine hreq.trans ?_
        rw [hdone, if_pos rfl]
        exact congrArg _ (filterMap_request call).symm
      · exact .inr ⟨call, _, rfl, fun r hr => ⟨e, htold, (Ending.answered.inj hr).symm⟩⟩
  | lost hp hd =>
    rw [Dialogue.receive, hp]
    dsimp only
    rw [if_neg hsome]
    exact ⟨.lost hp hd, .inl rfl⟩

end Stands

/-! ## Runs -/

/-- What holds of a dialogue whenever a step begins. -/
structure Keeps (b : Bearings) (told : Nat → Call → Engine → Prop) (w : Dialogue) : Prop where
  fit : w.server.Fit b
  stands : w.Stands b told
  answers : ∀ k call r, w.returned[k]? = some (call, .answered r) →
    ∃ e, told k call e ∧ r = .ok (e.reply call).result

section Steps

variable {b : Bearings} {told : Nat → Call → Engine → Prop} {w : Dialogue}

theorem Returns.answers {w' : Dialogue} (h : w.Returns told w')
    (ha : ∀ k call r, w.returned[k]? = some (call, .answered r) →
      ∃ e, told k call e ∧ r = .ok (e.reply call).result) :
    ∀ k call r, w'.returned[k]? = some (call, .answered r) →
      ∃ e, told k call e ∧ r = .ok (e.reply call).result := by
  intro k call r hk
  rcases h with hsame | ⟨call', ending, hmore, hnew⟩
  · exact ha k call r (by rwa [hsame] at hk)
  · rw [hmore] at hk
    rcases Nat.lt_trichotomy k w.returned.length with hlt | rfl | hgt
    · rw [List.getElem?_append_left hlt] at hk
      exact ha k call r hk
    · rw [List.getElem?_concat_length] at hk
      cases hk
      exact hnew r rfl
    · rw [List.getElem?_eq_none (by rw [List.length_append, List.length_singleton]; omega)] at hk
      cases hk

/-- A step of the server that reads from the client is none of the others. -/
theorem serve_eq (w : Dialogue) (a : Server.Action) : w.serve a = w ∨
    (∀ chunk, a ≠ .read w.index chunk) ∧ w.serve a = { w with server := w.server.step a } := by
  cases a with
  | read i chunk =>
    by_cases hi : i = w.index
    · exact .inl (if_pos hi)
    · refine .inr ⟨fun chunk' he => ?_, if_neg hi⟩
      cases he
      exact hi rfl
  | accept | leave | handle | dispatch | operate =>
    exact .inr ⟨fun _ => Server.Action.noConfusion, rfl⟩

theorem call_returned (w : Dialogue) (call : Call) : w.Returns told (w.call call) := by
  unfold Dialogue.call
  split
  · split
    · exact .inr ⟨_, _, rfl, fun r hr => by cases hr⟩
    · exact .inl rfl
  · exact .inl rfl

theorem lose_returned (w : Dialogue) (status : Status) : w.Returns told (w.lose status) := by
  unfold lose
  split
  · exact .inr ⟨_, _, rfl, fun r hr => by cases hr⟩
  · exact .inl rfl

theorem call_server (w : Dialogue) (call : Call) : (w.call call).server = w.server := by
  unfold Dialogue.call
  split
  · split <;> rfl
  · rfl

theorem receive_server (w : Dialogue) (n : Nat) : (w.receive n).server = w.server := by
  unfold receive
  dsimp only
  split
  · rfl
  · split
    · split
      · rfl
      · rfl
      · split <;> rfl
    · split <;> rfl
    · rfl
    · rfl

theorem lose_server (w : Dialogue) (status : Status) : (w.lose status).server = w.server := by
  unfold lose
  split <;> rfl

theorem fit_step (hf : w.server.Fit b) {a : Action}
    (hown : ∀ op, a = .serve (.operate op) → op.Decoded) : (w.step a).server.Fit b := by
  cases a with
  | serve a =>
    change (w.serve a).server.Fit b
    rcases w.serve_eq a with hsame | ⟨-, hserve⟩
    · rwa [hsame]
    · rw [hserve]
      exact hf.step fun op ha => hown op (congrArg _ ha)
  | deliver n =>
    change (w.deliver n).server.Fit b
    unfold deliver
    split
    · exact hf
    · exact hf.step (a := .read w.index (w.toServer.take n))
        (fun _ ha => Server.Action.noConfusion ha)
  | call call => exact (w.call_server call).symm ▸ hf
  | receive n => exact (w.receive_server n).symm ▸ hf
  | lose status => exact (w.lose_server status).symm ▸ hf

theorem Keeps.step (h : w.Keeps b told) (hzero : b.max ≠ 0)
    (hmax : b.max.toNat ≤ kMaxFramePayload.toNat) {a : Action}
    (hown : ∀ op, a = .serve (.operate op) → op.Decoded)
    (ht : ∀ call takes, a = .serve (.dispatch w.index takes) → w.Carries call →
      told w.returned.length call w.server.engine) : (w.step a).Keeps b told := by
  refine ⟨fit_step h.fit hown, ?_, ?_⟩
  · cases a with
    | serve a =>
      change (w.serve a).Stands b told
      rcases w.serve_eq a with hsame | ⟨hread, hserve⟩
      · rw [hsame]
        exact h.stands
      · rw [hserve]
        exact h.stands.serve h.fit hread fun call takes ha => ht call takes (congrArg _ ha)
    | deliver n =>
      change (w.deliver n).Stands b told
      unfold deliver
      split
      · exact h.stands
      · rename_i hgo
        rw [Bool.or_eq_true, not_or, List.isEmpty_iff, Bool.not_eq_true', Bool.not_eq_false] at hgo
        exact h.stands.deliver hgo.1 hgo.2
    | call call => exact h.stands.call call
    | receive n => exact (h.stands.receive hzero hmax n).1
    | lose status => exact h.stands.lose status
  · refine Returns.answers ?_ h.answers
    cases a with
    | serve a =>
      rcases w.serve_eq a with hsame | ⟨-, hserve⟩
      · exact .inl (congrArg returned hsame)
      · exact .inl ((congrArg returned hserve).trans rfl)
    | deliver n =>
      left
      change (w.deliver n).returned = _
      unfold deliver
      split <;> rfl
    | call call => exact w.call_returned call
    | receive n => exact (h.stands.receive hzero hmax n).2
    | lose status => exact w.lose_returned status

theorem step_index (w : Dialogue) (a : Action) : (w.step a).index = w.index := by
  cases a with
  | serve a =>
    change (w.serve a).index = _
    rcases w.serve_eq a with hsame | ⟨-, hserve⟩
    · rw [hsame]
    · rw [hserve]
  | deliver n =>
    change (w.deliver n).index = _
    unfold deliver
    split <;> rfl
  | call call =>
    change (w.call call).index = _
    unfold Dialogue.call
    split
    · split <;> rfl
    · rfl
  | receive n =>
    change (w.receive n).index = _
    unfold receive
    dsimp only
    split
    · rfl
    · split
      · split
        · rfl
        · rfl
        · split <;> rfl
      · split <;> rfl
      · rfl
      · rfl
  | lose status =>
    change (w.lose status).index = _
    unfold lose
    split <;> rfl

@[simp] theorem run_index (w : Dialogue) (actions : List Action) :
    (w.run actions).index = w.index := by
  induction actions using List.reverseRecOn with
  | nil => rfl
  | append_singleton actions a ih => rw [run_append, step_index, ih]

/-- The engine by which the call behind `k` others is carried out in a run. -/
def Told (w : Dialogue) (actions : List Action) (k : Nat) (call : Call) (e : Engine) : Prop :=
  ∃ before takes after, actions = before ++ .serve (.dispatch w.index takes) :: after ∧
    (w.run before).Carries call ∧ (w.run before).returned.length = k ∧
    (w.run before).server.engine = e

/-- The owner of the engine hands over nothing that no decoder would. -/
def Decoded (actions : List Action) : Prop :=
  ∀ op, .serve (.operate op) ∈ actions → op.Decoded

theorem fit_run {actions : List Action} (hf : w.server.Fit b) (hown : Decoded actions) :
    (w.run actions).server.Fit b := by
  induction actions using List.reverseRecOn with
  | nil => exact hf
  | append_singleton actions a ih =>
    rw [run_append]
    refine fit_step (ih fun op hop => hown op (List.mem_append_left _ hop)) ?_
    rintro op rfl
    exact hown op (List.mem_append_right _ (List.mem_singleton_self _))

/-- A client between two calls can make another one. -/
theorem Stands.completes (h : w.Stands b told) (hf : w.server.Fit b)
    (hle : b.max.toNat ≤ kMaxFramePayload.toNat) (hp : w.phase = .ready) (hreads : w.reads = true)
    {call : Call} {client : Client} {frame : Bytes}
    (hrequest : w.client.request call.type call.body = .ok (client, frame))
    (hanswer : (answerTo w.server.engine call).length ≤ w.server.options.maxFramePayload.toNat) :
    ∃ more, Decoded more ∧ (w.run more).phase = .ready ∧ (w.run more).returned =
      w.returned ++ [(call, .answered (.ok (w.server.engine.reply call).result))] := by
  cases h with
  | greeting hp' | calling hp' | lost hp' =>
    rw [hp'] at hp
    cases hp
  | @ready c _ hb ht hc hcalm hsession htaken =>
    obtain ⟨s, c', hc', hsent, ⟨f, v, hn, htype, hparse⟩, hengine, hoptions, hcarries⟩ :=
      carries_whole hf hle hp hb ht hc hcalm hsession hreads hrequest
    have hmax : client.maxPayload = b.max := by
      rw [(Client.request_ok hrequest).1]
      exact hb.maxPayload
    have hfit : s.Fit b := by
      have hrun : (w.run [.call call, .deliver frame.length,
          .serve (.handle w.index true)]).server.Fit b :=
        fit_run hf (by intro op hop; simp at hop)
      rwa [hcarries] at hrun
    obtain ⟨n, hphase, hreturned⟩ := @answers_whole { w with
      client
      phase := .calling call { maxPayload := client.maxPayload }
      toServer := []
      server := s } b c' call hfit hle (by rw [hmax]) hc' (by rw [hsent]; exact htaken) f v hn htype
        hparse (by
          change (answerTo s.engine call).length ≤ _
          rw [hengine, ← hf.max]
          exact hanswer)
    refine ⟨[.call call, .deliver frame.length, .serve (.handle w.index true)] ++
      [.serve (.dispatch w.index true), .receive n], ?_, ?_⟩
    · intro op hop
      simp at hop
    · rw [Dialogue.run, List.foldl_append]
      change ((w.run [.call call, .deliver frame.length, .serve (.handle w.index true)]).run
        [.serve (.dispatch w.index true), .receive n]).phase = _ ∧
        ((w.run [.call call, .deliver frame.length, .serve (.handle w.index true)]).run
          [.serve (.dispatch w.index true), .receive n]).returned = _
      rw [hcarries]
      refine ⟨hphase, hreturned.trans ?_⟩
      change _ ++ [(call, Ending.answered (.ok (s.engine.reply call).result))] = _
      rw [hengine]

theorem Keeps.run {actions : List Action} (h : w.Keeps b (w.Told actions)) (hzero : b.max ≠ 0)
    (hmax : b.max.toNat ≤ kMaxFramePayload.toNat) (hown : Decoded actions) :
    ∀ before, before <+: actions → (w.run before).Keeps b (w.Told actions) := by
  intro before
  induction before using List.reverseRecOn with
  | nil => exact fun _ => h
  | append_singleton before a ih =>
    rintro ⟨after, rfl⟩
    rw [run_append]
    refine (ih ⟨[a] ++ after, (List.append_assoc ..).symm⟩).step hzero hmax ?_ ?_
    · rintro op rfl
      exact hown op (by simp)
    · rintro call takes rfl hcarries
      exact ⟨before, takes, after, by simp, hcarries, rfl, rfl⟩

theorem connect_fit {s : Server} {c : Client} (hf : s.Fit b) (hc : connect s c = .ok w) :
    w.server.Fit b := by
  have hok := hf.step (a := .accept) fun _ ha => Server.Action.noConfusion ha
  obtain ⟨frame, hgreeting, -, -⟩ := connect_eq hc
  unfold connect at hc
  rw [hgreeting] at hc
  dsimp only at hc
  split at hc
  · cases hc
  · rw [← congrArg Dialogue.server (Except.ok.inj hc)]
    exact hok

/-- A client connects to a server that may have served others. -/
theorem connect_keeps {s : Server} {c : Client} (hf : s.Fit b) (hc : connect s c = .ok w) :
    w.Keeps b told := by
  have hfit := connect_fit hf hc
  obtain ⟨frame, hgreeting, -, rfl⟩ := connect_eq hc
  refine ⟨hfit, ?_, fun k call r hk => by cases hk⟩
  · refine @Stands.greeting b told _ _ frame s.nextSessionId rfl hgreeting rfl
      ⟨accepted s, List.getElem?_concat_length, Nat.zero_le _, .inl rfl, ?_⟩ ?_
    · refine @Exchange.asking _ _ _ _ _ _ [] rfl rfl (reference_nil _) ?_ rfl rfl rfl rfl ?_
      · rw [accepted, hf.max]
        exact (behind_piece (reference_nil _)).symm
      · exact (behind_piece (reference_nil _)).symm
    · change s.requests s.connections.length = []
      rw [Server.requests, hf.ok.quiet _ (Nat.le_refl _)]
      rfl

/-- A client that has just connected, to a server that was started behind a run of the system and
has served others since. -/
inductive Begins (w : Dialogue) : Prop
  | intro {origin : List LinkFailover.Action} {e : Engine} {o : ServerOptions} {s : Server}
      {earlier : List Server.Action} {c : Client} (he : System.run origin = .up e)
      (hd : LinkFailover.Decoded origin) (hs : Server.start o e = .ok s)
      (hearlier : ∀ op, .operate op ∈ earlier → op.Decoded)
      (hc : connect (s.run earlier) c = .ok w)

/-- What holds in every run of a dialogue. -/
theorem Begins.keeps (h : w.Begins) {actions : List Action} (hown : Decoded actions) :
    ∃ b : Bearings, b.max.toNat ≤ kMaxFramePayload.toNat ∧
      ∀ before, before <+: actions → (w.run before).Keeps b (w.Told actions) := by
  obtain @⟨origin, e, o, s, earlier, c, he, hd, hs, hearlier, hc⟩ := h
  have hok : EngineOk True e := by
    have := @System.run_ok True origin fun _ => hd
    rwa [he] at this
  obtain ⟨hf, hzero, hmax⟩ := Server.start_fit hok ⟨origin, he⟩
    (System.run_settled (fun _ => hd.ranged) he) hs
  exact ⟨_, hmax, (connect_keeps (hf.run hearlier) hc).run hzero hmax hown⟩

end Steps

end Dialogue

/-! ## A client that pings -/

/-- A frame that fits is sent with the next sequence. -/
theorem Client.request_fits {c : Client} {type : MessageType} {body : Bytes}
    (hseq : c.seq.next ≠ none)
    (h : kEnvelopeSize + body.length ≤ (clampPayload c.maxPayload).toNat) :
    ∃ client frame, c.request type body = .ok (client, frame) := by
  obtain ⟨seq, hnext⟩ := Option.ne_none_iff_exists'.mp hseq
  let v : SessionEnvelope :=
    { sessionId := c.hello.sessionId, epoch := c.hello.epoch, incarnation := c.incarnation, seq }
  obtain ⟨frame, hframe⟩ := @encodeFrame_fits type (Writer.run v.encode ++ body) c.maxPayload (by
    rw [List.length_append, v.encode_length]
    exact h)
  refine ⟨{ c with seq }, frame, ?_⟩
  rw [request, envelope, hnext, Option.map_some]
  dsimp only
  rw [hframe]

namespace Sample

/-- A client has its session at a server behind a run. -/
theorem greets {origin : List Action} {e : Engine} (he : System.run origin = .up e)
    (hdecoded : Decoded origin) :
    ∃ (w : Dialogue) (actions : List Dialogue.Action), w.Begins ∧ Dialogue.Decoded actions ∧
      (w.run actions).phase = .ready ∧ (w.run actions).reads = true ∧
      (w.run actions).returned = [] ∧ (w.run actions).client.seq = .zero ∧
      (w.run actions).server.options.maxFramePayload = kDefaultFramePayload ∧
      (w.run actions).server.engine = e := by
  have hok : EngineOk True e := by
    have := @System.run_ok True origin fun _ => hdecoded
    rwa [he] at this
  obtain ⟨s, hs⟩ : ∃ s, Server.start {} e = .ok s := ⟨_, rfl⟩
  obtain ⟨hf, hzero, hmax⟩ := Server.start_fit hok ⟨origin, he⟩
    (System.run_settled (fun _ => hdecoded.ranged) he) hs
  let c : Client := { incarnation := incarnation 3 }
  obtain ⟨w, hc⟩ : ∃ w, Dialogue.connect s c = .ok w := by
    obtain ⟨frame, hframe⟩ := @encodeFrame_fits .hello
      (Writer.run (HelloRequest.encode { clientIncarnation := c.incarnation, role := c.role }))
      kDefaultFramePayload (by decide)
    cases hs
    exact ⟨_, by rw [Dialogue.connect, Client.greeting, hframe]; rfl⟩
  obtain ⟨n, m, hphase, hreads, hreturned, hseq⟩ := Dialogue.greets_whole hf hzero hmax hc
    (by decide) (by decide : 96 ≤ kDefaultFramePayload.toNat) (by decide) (by decide)
  have hown : Dialogue.Decoded [.deliver n, .serve (.handle w.index true), .receive m] :=
    fun op hop => by simp at hop
  have hbegins : w.Begins := @Dialogue.Begins.intro w origin e {} s [] c he hdecoded hs
    (fun op hop => by cases hop) hc
  refine ⟨w, _, hbegins, hown, hphase, hreads, hreturned, hseq,
    (Dialogue.fit_run (Dialogue.connect_fit hf hc) hown).max, ?_⟩
  -- the greeting does not reach the engine
  change (((w.deliver n).serve (.handle w.index true)).receive m).server.engine = e
  rw [Dialogue.receive_server]
  change ((w.deliver n).server.handle w.index true).engine = e
  have hdelivered : (w.deliver n).server.engine = w.server.engine := by
    unfold Dialogue.deliver
    split
    · rfl
    · exact (w.server.step_quiet (.inr (.inl ⟨w.index, w.toServer.take n, rfl⟩))).1
  have hconnected : w.server.engine = e := by
    obtain ⟨frame, -, -, hw⟩ := Dialogue.connect_eq hc
    cases hs
    rw [hw]
  rcases (w.deliver n).server.handle_cases w.index true with hsame | ⟨d, f, d', xs, -, -, hstep, -⟩
  · rw [hsame, hdelivered, hconnected]
  · rw [hstep]
    exact hdelivered.trans hconnected

/-- Whether a client of this engine is told a durable decision for a call. -/
def decides (call : Call) (e : Engine) : Bool :=
  decide ((Dialogue.answerTo e call).length ≤ kDefaultFramePayload.toNat) &&
    match call.finish (.ok (e.reply call).result) with
    | .decision (.ok d) => d.durable
    | _ => false

/-- What a client is told by an engine that decides. -/
theorem decides_decision {call : Call} {e : Engine} (h : decides call e = true) :
    (Dialogue.answerTo e call).length ≤ kDefaultFramePayload.toNat ∧
      ∃ d, call.finish (.ok (e.reply call).result) = .decision (.ok d) ∧ d.durable = true := by
  rw [decides, Bool.and_eq_true, decide_eq_true_eq] at h
  obtain ⟨hanswer, hfinish⟩ := h
  refine ⟨hanswer, ?_⟩
  cases hanswered : call.finish (.ok (e.reply call).result) with
  | decision r =>
    rw [hanswered] at hfinish
    cases r with
    | ok d => exact ⟨d, rfl, hfinish⟩
    | error s => cases hfinish
  | _ =>
    rw [hanswered] at hfinish
    cases hfinish

/-- A call for the failover of the primary link. -/
def asking : Call := .requestFailover (request ⟨1⟩)

theorem asking_fits :
    kEnvelopeSize + asking.body.length ≤ (clampPayload kDefaultFramePayload).toNat := by
  decide +kernel

theorem asking_request : asking.request? = some (.operate (.requestFailover (request ⟨1⟩))) := by
  rfl

theorem booted_decoded : LinkFailover.Decoded (booted {} {}) := by
  intro op hm
  simp only [booted, List.mem_cons, reduceCtorEq, Action.perform.injEq, List.not_mem_nil,
    or_false, false_or] at hm
  rcases hm with rfl | rfl
  · decide
  · decide

/-- A client has its session at a process that knows of a failure. -/
theorem greeted : ∃ (w : Dialogue) (actions : List Dialogue.Action), w.Begins ∧
    Dialogue.Decoded actions ∧ (w.run actions).phase = .ready ∧ (w.run actions).reads = true ∧
    (w.run actions).returned = [] ∧ (w.run actions).client.seq = .zero ∧
    (w.run actions).server.options.maxFramePayload = kDefaultFramePayload ∧
    decides asking (w.run actions).server.engine = true := by
  obtain ⟨e, he, hdecides⟩ := @System.of_serves (System.run (booted {} {})) (decides asking)
    (by decide +kernel)
  obtain ⟨w, actions, hbegins, hown, hphase, hreads, hreturned, hseq, hoptions, hengine⟩ :=
    greets he booted_decoded
  exact ⟨w, actions, hbegins, hown, hphase, hreads, hreturned, hseq, hoptions,
    by rwa [hengine]⟩

/-- A call that fits is sent by a client that has called nothing yet. -/
theorem request_fits {w : Dialogue} {b : Bearings} {told : Nat → Call → Engine → Prop}
    (h : w.Stands b told) (hf : w.server.Fit b) (hp : w.phase = .ready)
    (hseq : w.client.seq = .zero)
    (hoptions : w.server.options.maxFramePayload = kDefaultFramePayload) {call : Call}
    (hcall : kEnvelopeSize + call.body.length ≤ (clampPayload kDefaultFramePayload).toNat) :
    ∃ client frame, w.client.request call.type call.body = .ok (client, frame) := by
  have hmax : w.client.maxPayload = kDefaultFramePayload := by
    cases h with
    | greeting hp' | calling hp' | lost hp' =>
      rw [hp'] at hp
      cases hp
    | ready _ hb => rw [hb.maxPayload, ← hf.max, hoptions]
  refine Client.request_fits ?_ ?_
  · rw [hseq]
    decide
  · rwa [hmax]

/-- The client has asked for the failover. -/
theorem talked : ∃ (w : Dialogue) (actions : List Dialogue.Action) (e : Engine),
    w.Begins ∧ Dialogue.Decoded actions ∧ (w.run actions).phase = .ready ∧
    decides asking e = true ∧
    (w.run actions).returned = [(asking, .answered (.ok (e.reply asking).result))] := by
  obtain ⟨w, actions, hbegins, hown, hphase, hreads, hreturned, hseq, hoptions, hdecides⟩ := greeted
  obtain ⟨b, hle, hkeeps⟩ := hbegins.keeps hown
  obtain ⟨hf, hstands, -⟩ := hkeeps actions List.prefix_rfl
  obtain ⟨client, frame, hrequest⟩ := request_fits hstands hf hphase hseq hoptions asking_fits
  obtain ⟨more, hmore, hphase', hreturned'⟩ :=
    hstands.completes hf hle hphase hreads hrequest
      (by rw [hoptions]; exact (decides_decision hdecides).1)
  have hrun : w.run (actions ++ more) = (w.run actions).run more := by
    rw [Dialogue.run, Dialogue.run, Dialogue.run, List.foldl_append]
  refine ⟨w, actions ++ more, _, hbegins, ?_, by rw [hrun]; exact hphase', hdecides, ?_⟩
  · intro op hop
    exact (List.mem_append.mp hop).elim (hown op) (hmore op)
  · rw [hrun, hreturned', hreturned, List.nil_append]

end Sample

/-! ## What a client can rely on -/

open Dialogue

/-- Between two calls the client makes any call that it can send. When nothing fails, it returns
what the engine has to say now. -/
theorem calls_complete {w : Dialogue} (h : w.Begins) {actions : List Dialogue.Action}
    (hown : Dialogue.Decoded actions) (hp : (w.run actions).phase = .ready)
    (hreads : (w.run actions).reads = true) {call : Call} {client : Client} {frame : Bytes}
    (hrequest : (w.run actions).client.request call.type call.body = .ok (client, frame))
    (hanswer : (answerTo (w.run actions).server.engine call).length ≤
      (w.run actions).server.options.maxFramePayload.toNat) :
    ∃ more, Dialogue.Decoded more ∧ (w.run (actions ++ more)).phase = .ready ∧
      (w.run (actions ++ more)).returned = (w.run actions).returned ++
        [(call, .answered (.ok ((w.run actions).server.engine.reply call).result))] := by
  obtain ⟨b, hle, hkeeps⟩ := h.keeps hown
  obtain ⟨hf, hstands, -⟩ := hkeeps actions List.prefix_rfl
  obtain ⟨more, hmore, hphase, hreturned⟩ := hstands.completes hf hle hp hreads hrequest hanswer
  have hrun : w.run (actions ++ more) = (w.run actions).run more := by
    rw [Dialogue.run, Dialogue.run, Dialogue.run, List.foldl_append]
  refine ⟨more, hmore, ?_, ?_⟩
  · rwa [hrun]
  · rwa [hrun]

/-- The client can ask for a failover. -/
theorem calls_complete_sample : ∃ (w : Dialogue) (actions more : List Dialogue.Action)
    (r : Result CallResult) (d : FailoverDecision), w.Begins ∧ (w.run actions).returned = [] ∧
      (w.run (actions ++ more)).returned = [(Sample.asking, .answered r)] ∧
      Sample.asking.finish r = .decision (.ok d) ∧ d.durable = true := by
  obtain ⟨w, actions, hbegins, hown, hphase, hreads, hreturned, hseq, hoptions, hdecides⟩ :=
    Sample.greeted
  obtain ⟨hanswer, d, hd, hdurable⟩ := Sample.decides_decision hdecides
  obtain ⟨b, -, hkeeps⟩ := hbegins.keeps hown
  obtain ⟨hf, hstands, -⟩ := hkeeps actions List.prefix_rfl
  obtain ⟨client, frame, hrequest⟩ :=
    Sample.request_fits hstands hf hphase hseq hoptions Sample.asking_fits
  obtain ⟨more, -, -, hmore⟩ := calls_complete hbegins hown hphase hreads hrequest
    (by rwa [hoptions])
  rw [hreturned] at hmore
  exact ⟨w, actions, more, _, d, hbegins, hreturned, hmore, hd, hdurable⟩

/-- A call that was answered was carried out while it was under way, and it returns what the engine
had to say in that moment. -/
theorem calls_answered {w : Dialogue} (h : w.Begins) {actions : List Dialogue.Action}
    (hown : Dialogue.Decoded actions) {k : Nat} {call : Call} {r : Result CallResult}
    (hk : (w.run actions).returned[k]? = some (call, .answered r)) :
    ∃ before takes after, actions = before ++ .serve (.dispatch w.index takes) :: after ∧
      (w.run before).Carries call ∧ (w.run before).returned.length = k ∧
      r = .ok ((w.run before).server.engine.reply call).result ∧
      (call.Within → (w.run before).server.engine.Counted →
        call.finish r = (w.run before).server.engine.tells call) := by
  obtain ⟨b, -, hkeeps⟩ := h.keeps hown
  obtain ⟨e, ⟨before, takes, after, hactions, hcarries, hlength, rfl⟩, hr⟩ :=
    (hkeeps actions List.prefix_rfl).answers k call r hk
  refine ⟨before, takes, after, hactions, hcarries, hlength, hr, fun hwithin hcounted => ?_⟩
  have hf := (hkeeps before ⟨_, hactions.symm⟩).fit
  rw [hr]
  exact finish_reply hf.ok.engine hf.engine hcounted hf.verdicts hwithin

/-- The request for a failover was carried out, and the client returns the decision. -/
theorem calls_answered_sample : ∃ (w : Dialogue) (actions before : List Dialogue.Action)
    (r : Result CallResult) (d : FailoverDecision), w.Begins ∧
    (∃ takes after, actions = before ++ .serve (.dispatch w.index takes) :: after) ∧
    (w.run actions).returned = [(Sample.asking, .answered r)] ∧
    r = .ok ((w.run before).server.engine.reply Sample.asking).result ∧
    Sample.asking.finish r = .decision (.ok d) ∧ d.durable = true := by
  obtain ⟨w, actions, e, hbegins, hown, -, hdecides, hreturned⟩ := Sample.talked
  obtain ⟨-, d, hd, hdurable⟩ := Sample.decides_decision hdecides
  obtain ⟨before, takes, after, hactions, -, -, hr, -⟩ :=
    calls_answered hbegins hown (k := 0) (by rw [hreturned]; rfl)
  exact ⟨w, actions, before, _, d, hbegins, ⟨takes, after, hactions⟩, hreturned, hr, hd, hdurable⟩

/-- The requests that were carried out on the connection are those of the calls, in order and each
at most once, and every answered call is among them. -/
theorem calls_once {w : Dialogue} (h : w.Begins) {actions : List Dialogue.Action}
    (hown : Dialogue.Decoded actions) :
    (w.run actions).answered.filterMap Call.request? <+: (w.run actions).server.requests w.index ∧
      (w.run actions).server.requests w.index <+:
        (w.run actions).calls.filterMap Call.request? := by
  obtain ⟨b, -, hkeeps⟩ := h.keeps hown
  have hbetween := (hkeeps actions List.prefix_rfl).stands.between
  rwa [run_index] at hbetween

/-- The request for a failover was carried out once. -/
theorem calls_once_sample : ∃ (w : Dialogue) (actions : List Dialogue.Action), w.Begins ∧
    (w.run actions).server.requests w.index =
      [.operate (.requestFailover (Sample.request ⟨1⟩))] := by
  obtain ⟨w, actions, e, hbegins, hown, hphase, -, hreturned⟩ := Sample.talked
  obtain ⟨hlow, hup⟩ := calls_once hbegins hown
  have hanswered : (w.run actions).answered = [Sample.asking] := by
    rw [answered, hreturned]
    rfl
  have hcalls : (w.run actions).calls = [Sample.asking] := by
    rw [calls, ended, hreturned, hphase]
    rfl
  have hrequest : [Sample.asking].filterMap Call.request? =
      [.operate (.requestFailover (Sample.request ⟨1⟩))] := by
    rw [Stands.filterMap_request, Sample.asking_request]
    rfl
  rw [hanswered, hrequest] at hlow
  rw [hcalls, hrequest] at hup
  exact ⟨w, actions, hbegins, hup.eq_of_length_le hlow.length_le⟩

end LinkFailover
