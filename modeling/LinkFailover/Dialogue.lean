import LinkFailover.Responses
import LinkFailover.Sessions

/-!
# A client and its server

A client talks to a server over one connection. The two directions carry bytes in order, in pieces
of any size, and the server goes on with its other connections meanwhile. The client is followed
until the connection fails it.

* `Dialogue.step`: a step of the server, a piece of either direction, or a call of the client.
* `FrameDecoder.hear_piece`: what a client makes of a piece of a frame.
* `Server.step_other`: what the other threads leave of a connection.
-/

namespace LinkFailover

open Codec Stream

/-! ## Dialogues -/

inductive ClientPhase where
  | greeting (d : FrameDecoder)
  | ready
  | calling (call : Call) (d : FrameDecoder)
  | lost

/-- How a call ended. -/
inductive Ending where
  /-- It was not sent. -/
  | unsent (status : Status)
  /-- A frame came. -/
  | answered (result : Result CallResult)
  /-- The connection failed. -/
  | broken (status : Status)

structure Dialogue where
  server : Server
  index : Nat
  client : Client
  phase : ClientPhase
  /-- What the client has sent and the server has not read. -/
  toServer : Bytes
  /-- How much of what the server has sent the client has read. -/
  taken : Nat := 0
  returned : List (Call × Ending) := []

namespace Dialogue

inductive Action where
  /-- A step of the server, on whatever connection. -/
  | serve (a : Server.Action)
  /-- The server reads up to so many bytes from the client. -/
  | deliver (n : Nat)
  | call (call : Call)
  /-- The client reads up to so many bytes from the server. -/
  | receive (n : Nat)
  /-- The socket of the client fails, or its peer is gone. -/
  | lose (status : Status)

/-- A client connects. It gets no further if the server has no room for it. -/
def connect (s : Server) (c : Client) : Result Dialogue :=
  match c.greeting with
  | .error status => .error status
  | .ok frame =>
    if s.accept.connections.length = s.connections.length then
      fail .closed .connectionClosed "the coordinator closed the connection"
    else
      .ok {
        server := s.accept
        index := s.connections.length
        client := c
        phase := .greeting { maxPayload := c.maxPayload }
        toServer := frame }

/-- What the server has sent and the client has not read. -/
def unread (w : Dialogue) : Bytes :=
  match w.server.connections[w.index]? with
  | none => []
  | some c => c.sent.flatten.drop w.taken

/-- Whether the thread of the connection reads. -/
def reads (w : Dialogue) : Bool :=
  match w.server.connections[w.index]? with
  | none => false
  | some c => !c.stopped && !w.server.stopRequested && c.idle && c.waiting.isEmpty

def serve (w : Dialogue) (a : Server.Action) : Dialogue :=
  match a with
  | .read i chunk => if i = w.index then w else { w with server := w.server.read i chunk }
  | a => { w with server := w.server.step a }

def deliver (w : Dialogue) (n : Nat) : Dialogue :=
  if (w.toServer.take n).isEmpty || !w.reads then w
  else
    { w with
      server := w.server.read w.index (w.toServer.take n)
      toServer := w.toServer.drop n }

def call (w : Dialogue) (call : Call) : Dialogue :=
  match w.phase with
  | .ready =>
    match w.client.request call.type call.body with
    | .error status => { w with returned := w.returned ++ [(call, .unsent status)] }
    | .ok (client, frame) =>
      { w with
        client
        phase := .calling call { maxPayload := client.maxPayload }
        toServer := w.toServer ++ frame }
  | _ => w

def receive (w : Dialogue) (n : Nat) : Dialogue :=
  let chunk := w.unread.take n
  let taken := w.taken + chunk.length
  if chunk.isEmpty then w
  else
    match w.phase with
    | .greeting d =>
      match d.hear chunk with
      | .more d => { w with taken, phase := .greeting d }
      | .failed _ => { w with taken, phase := .lost }
      | .frame f =>
        match w.client.greeted f with
        | .error _ => { w with taken, phase := .lost }
        | .ok client => { w with taken, client, phase := .ready }
    | .calling call d =>
      match d.hear chunk with
      | .more d => { w with taken, phase := .calling call d }
      | .failed status =>
        { w with taken, phase := .lost, returned := w.returned ++ [(call, .broken status)] }
      | .frame f =>
        let result := Client.read f
        { w with
          taken
          client := w.client.notice call result
          phase := .ready
          returned := w.returned ++ [(call, .answered result)] }
    | .ready | .lost => w

def lose (w : Dialogue) (status : Status) : Dialogue :=
  match w.phase with
  | .calling call _ =>
    { w with phase := .lost, returned := w.returned ++ [(call, .broken status)] }
  | _ => { w with phase := .lost }

def step (w : Dialogue) : Action → Dialogue
  | .serve a => w.serve a
  | .deliver n => w.deliver n
  | .call call => w.call call
  | .receive n => w.receive n
  | .lose status => w.lose status

def run (w : Dialogue) (actions : List Action) : Dialogue := actions.foldl step w

theorem run_append (w : Dialogue) (actions : List Action) (a : Action) :
    w.run (actions ++ [a]) = (w.run actions).step a := by
  rw [run, List.foldl_append]
  rfl

end Dialogue

/-! ## Pieces of a frame -/

namespace FrameDecoder

/-- A frame that a smaller limit lets through is the same under a larger one. -/
theorem judgeFrame_mono {small large : UInt64} (h : small.toNat ≤ large.toNat)
    {raw : RawFrameHeader} {crc : UInt32} {head rest rest' : Bytes} {f : Frame}
    (hj : judgeFrame small raw crc head rest = .item f rest') :
    judgeFrame large raw crc head rest = .item f rest' := by
  unfold judgeFrame at hj ⊢
  split at hj
  · cases hj
  rename_i hmagic
  rw [if_neg hmagic]
  split at hj
  · cases hj
  rename_i hversion
  rw [if_neg hversion]
  split at hj
  · cases hj
  · split at hj
    · cases hj
    rename_i hflags
    rw [if_neg hflags]
    split at hj
    · cases hj
    rename_i hlength
    rw [if_neg (by omega)]
    exact hj

theorem readFrame_mono {small large : UInt64} (h : small.toNat ≤ large.toNat) {bytes rest : Bytes}
    {f : Frame} (hr : readFrame small bytes = .item f rest) :
    readFrame large bytes = .item f rest := by
  unfold readFrame at hr ⊢
  split at hr
  · cases hr
  rename_i hlong
  rw [if_neg hlong]
  split at hr
  · cases hr
  · exact judgeFrame_mono h hr

/-- What is wrong with a frame is never in order. -/
theorem judgeFrame_bad {max : UInt64} {raw : RawFrameHeader} {crc : UInt32} {head rest : Bytes}
    {e : Status} (h : judgeFrame max raw crc head rest = .bad e) : e.isOk = false := by
  have hadd : ∀ (s : Status) code detail, (s.add code detail).isOk = s.isOk := by
    intro s code detail
    unfold Status.add
    split <;> rfl
  unfold judgeFrame at h
  split at h
  · cases h
    exact failure_isOk (by decide)
  split at h
  · cases h
    rw [hadd]
    exact failure_isOk (by decide)
  split at h
  · cases h
    rw [hadd]
    exact failure_isOk (by decide)
  split at h
  · cases h
    exact failure_isOk (by decide)
  split at h
  · cases h
    rw [hadd]
    exact failure_isOk (by decide)
  split at h
  · cases h
  split at h
  · cases h
    exact failure_isOk (by decide)
  · cases h

theorem reference_failure {max : UInt64} {bytes : Bytes} {e : Status}
    (h : (reference max bytes).failure = some e) : e.isOk = false := by
  unfold reference at h
  induction bytes using (frameGrammar max).items_induct with
  | more bs hr =>
    rw [Grammar.parse_more hr] at h
    cases h
  | bad bs e' hr =>
    rw [Grammar.parse_bad hr] at h
    cases h
    unfold readFrame at hr
    split at hr
    · cases hr
    split at hr
    · cases hr
    · exact judgeFrame_bad hr
  | item bs a rest hr ih =>
    rw [(frameGrammar max).parse_item hr] at h
    exact ih h

section Pieces

variable {type : MessageType} {payload bytes s rest : Bytes} {max small : UInt64}

/-- A frame that is found where part of a frame stands is that frame, and nothing is left of it. -/
theorem readFrame_piece (h : encodeFrame type 0 payload max = .ok bytes) (hs : s ++ rest = bytes)
    {f : Frame} {more : Bytes} (hr : readFrame small s = .item f more) :
    f = Frame.of type payload ∧ more = [] ∧ rest = [] := by
  have hwhole := readFrame_encode h []
  rw [List.append_nil, ← hs] at hwhole
  have hpiece := (frameGrammar small).item_append hr rest
  have hboth : Found.item f (more ++ rest) = (Found.item (Frame.of type payload) [] :
      Found Frame Status) := by
    rcases Nat.le_total small.toNat max.toNat with hle | hle
    · rw [← readFrame_mono hle hpiece, hwhole]
    · rw [← hpiece, readFrame_mono hle hwhole]
  obtain ⟨hf, hnil⟩ := Found.item.inj hboth
  exact ⟨hf, List.append_eq_nil_iff.mp hnil⟩

theorem behind_piece (h : reference small s = ⟨[], s, none⟩) :
    behind small s = { maxPayload := small, buffer := s } := by rw [behind, h]

/-- What a decoder makes of a piece of a frame, behind the pieces before it. -/
theorem push_piece {chunk : Bytes} (h : encodeFrame type 0 payload max = .ok bytes)
    (hs : s ++ (chunk ++ rest) = bytes) (hfront : reference small s = ⟨[], s, none⟩) :
    (∃ d status, (behind small s).push chunk = (d, [], status) ∧ status.isOk = false) ∨
      (reference small (s ++ chunk) = ⟨[], s ++ chunk, none⟩ ∧
        (behind small s).push chunk = (behind small (s ++ chunk), [], Status.success)) ∨
      rest = [] ∧ (behind small s).push chunk =
        (behind small [], [Frame.of type payload], Status.success) := by
  rw [← List.append_assoc] at hs
  by_cases hover : s.length + chunk.length > limit small
  · left
    rw [behind_piece hfront, push, if_neg Bool.false_ne_true, if_pos hover]
    exact ⟨_, _, rfl, failure_isOk (by decide)⟩
  · rw [behind_piece hfront, push, if_neg Bool.false_ne_true, if_neg hover]
    dsimp only
    cases hr : readFrame small (s ++ chunk) with
    | more =>
      right
      left
      have hmore : reference small (s ++ chunk) = ⟨[], s ++ chunk, none⟩ := Grammar.parse_more hr
      rw [behind_piece hmore, Grammar.parse_more hr]
      exact ⟨hmore, rfl⟩
    | bad e =>
      left
      have hbad : reference small (s ++ chunk) = ⟨[], s ++ chunk, some e⟩ := Grammar.parse_bad hr
      rw [Grammar.parse_bad hr]
      exact ⟨_, e, rfl, reference_failure (congrArg Parse.failure hbad)⟩
    | item f more =>
      right
      right
      obtain ⟨rfl, rfl, hrest⟩ := readFrame_piece h hs hr
      rw [behind, reference_nil, (frameGrammar small).parse_item hr,
        Grammar.parse_more (readFrame_nil small)]
      exact ⟨hrest, rfl⟩

/-- What a client makes of it. -/
theorem hear_piece {chunk : Bytes} (h : encodeFrame type 0 payload max = .ok bytes)
    (hs : s ++ (chunk ++ rest) = bytes) (hfront : reference small s = ⟨[], s, none⟩)
    (hchunk : chunk ≠ []) :
    (∃ status, (behind small s).hear chunk = .failed status) ∨
      (reference small (s ++ chunk) = ⟨[], s ++ chunk, none⟩ ∧
        (behind small s).hear chunk = .more (behind small (s ++ chunk))) ∨
      rest = [] ∧ (behind small s).hear chunk = .frame (Frame.of type payload) := by
  have hsome : ¬ chunk.isEmpty = true := by rwa [List.isEmpty_iff]
  rw [hear, if_neg hsome]
  rcases push_piece h hs hfront with ⟨d, status, hpush, hbad⟩ | ⟨hmore, hpush⟩ | ⟨hrest, hpush⟩
  · left
    rw [hpush]
    exact ⟨status, if_pos (by rw [hbad]; rfl)⟩
  · right
    left
    rw [hpush]
    exact ⟨hmore, rfl⟩
  · right
    right
    rw [hpush]
    exact ⟨hrest, rfl⟩

end Pieces

end FrameDecoder

/-! ## What other threads leave of a connection -/

/-- The thread and the socket of a connection, apart from the flag of a shut socket. A thread may
stop. -/
structure Connection.Alike (c c' : Connection) : Prop where
  session : c'.session = c.session
  decoder : c'.decoder = c.decoder
  waiting : c'.waiting = c.waiting
  dispatching : c'.dispatching = c.dispatching
  sent : c'.sent = c.sent
  stopped : c.stopped = true → c'.stopped = true

namespace Connection

theorem Alike.refl (c : Connection) : c.Alike c := ⟨rfl, rfl, rfl, rfl, rfl, id⟩

theorem Alike.shutDown {c c' : Connection} (h : c.Alike c') : c.Alike c'.shutDown :=
  ⟨h.session, h.decoder, h.waiting, h.dispatching, h.sent, h.stopped⟩

/-- A frame is sent or it is not. -/
theorem send_cases (c : Connection) (type : MessageType) (payload : Bytes) (max : UInt64)
    (takes : Bool) : c.send type payload max takes = (c, false) ∨
      ∃ frame, encodeFrame type 0 payload max = .ok frame ∧
        c.send type payload max takes = ({ c with sent := c.sent ++ [frame] }, true) := by
  unfold send
  cases he : encodeFrame type 0 payload max with
  | error status => exact .inl rfl
  | ok frame =>
    cases takes with
    | true => exact .inr ⟨frame, rfl, rfl⟩
    | false => exact .inl rfl

end Connection

namespace Server

variable {s : Server} {i : Nat} {c : Connection}

/-- A connection of a server, up to what the others may do to it. -/
def Has (s : Server) (i : Nat) (c : Connection) : Prop :=
  ∃ c', s.connections[i]? = some c' ∧ c.Alike c'

theorem Has.of_eq (h : s.connections[i]? = some c) : s.Has i c := ⟨c, h, .refl c⟩

theorem has_update {j : Nat} {d : Connection} (h : s.connections[i]? = some c) (hj : j ≠ i) :
    (s.update j d).Has i c :=
  .of_eq (by rw [update, List.getElem?_set_ne hj, h])

theorem has_self {d : Connection} (h : s.connections[i]? = some c) : (s.update i d).Has i d :=
  .of_eq (List.getElem?_set_self (List.getElem?_eq_some_iff.mp h).1)

theorem Has.shutAll {d : Connection} {stop : Bool} (h : s.Has i d) :
    { s with stopRequested := stop
             connections := s.connections.map Connection.shutDown }.Has i d := by
  obtain ⟨c', hc', ha⟩ := h
  refine ⟨c'.shutDown, ?_, ha.shutDown⟩
  change (s.connections.map Connection.shutDown)[i]? = _
  rw [List.getElem?_map, hc']
  rfl

/-- An answer on another connection. -/
theorem answer_other {j : Nat} (h : s.connections[i]? = some c) (hj : j ≠ i) (d : Connection)
    (f : Frame) (v : SessionEnvelope) (status : Status) (body : Bytes) (stopAfter takes : Bool) :
    (s.answer j d f v status body stopAfter takes).Has i c := by
  unfold answer
  dsimp only
  split
  · exact has_update h hj
  split
  · exact (has_update h hj).shutAll
  · exact has_update h hj

/-- An answer on this connection. -/
theorem answer_self {d : Connection} (h : s.connections[i]? = some d) (c : Connection) (f : Frame)
    (v : SessionEnvelope) (status : Status) (body : Bytes) (stopAfter takes : Bool) :
    (s.answer i c f v status body stopAfter takes).Has i
      ({ c with session := { c.session with lastSeq := v.seq }, dispatching := none }
        |>.sendResponse f.header.type status body s.options.maxFramePayload takes).1 := by
  unfold answer
  dsimp only
  generalize Connection.sendResponse _ _ _ _ _ _ = sent
  split
  · obtain ⟨c', hc', ha⟩ := has_self (d := sent.1.shutDown) h
    exact ⟨c', hc', ha.session, ha.decoder, ha.waiting, ha.dispatching, ha.sent, ha.stopped⟩
  split
  · exact (has_self h).shutAll
  · exact has_self h

theorem has_note {j : Nat} {xs : List SessionEvent} {d : Connection} (h : s.Has i d) :
    (s.note j xs).Has i d := h

/-- A step that neither reads from the connection nor handles a frame of it. -/
theorem step_other (h : s.connections[i]? = some c) {a : Action}
    (hread : ∀ chunk, a ≠ .read i chunk) (hhandle : ∀ takes, a ≠ .handle i takes)
    (hdispatch : ∀ takes, a ≠ .dispatch i takes) : (s.step a).Has i c := by
  cases a with
  | accept =>
    change s.accept.Has i c
    unfold accept
    split
    · exact .of_eq h
    · exact .of_eq ((List.getElem?_append_left (List.getElem?_eq_some_iff.mp h).1).trans h)
  | read j chunk =>
    have hj : j ≠ i := fun hj => hread chunk (by rw [hj])
    change (s.read j chunk).Has i c
    unfold read
    split
    · exact .of_eq h
    · split
      · exact .of_eq h
      · exact has_update h hj
  | leave j =>
    change (s.leave j).Has i c
    unfold leave
    split
    · exact .of_eq h
    · rename_i d hd
      split
      · exact .of_eq h
      · by_cases hj : j = i
        · subst hj
          rw [h] at hd
          cases hd
          obtain ⟨c', hc', ha⟩ := has_self (d := { c with stopped := true }) h
          exact ⟨c', hc', ha.session, ha.decoder, ha.waiting, ha.dispatching, ha.sent,
            fun _ => ha.stopped rfl⟩
        · exact has_update h hj
  | handle j takes =>
    have hj : j ≠ i := fun hj => hhandle takes (by rw [hj])
    rcases s.handle_cases j takes with hsame | ⟨d, f, d', xs, hd, -, hstep, -⟩
    · exact .of_eq (by rw [step, hsame, h])
    · change (s.handle j takes).Has i c
      rw [hstep]
      exact has_note (has_update h hj)
  | dispatch j takes =>
    have hj : j ≠ i := fun hj => hdispatch takes (by rw [hj])
    rcases s.dispatch_cases j takes with
      hsame | ⟨d, f, v, hd, -, ⟨status, -, hstep⟩ | ⟨request, stopAfter, -, hstep⟩⟩
    · exact .of_eq (by rw [step, hsame, h])
    · change (s.dispatch j takes).Has i c
      rw [hstep]
      exact answer_other h hj _ _ _ _ _ _ _
    · change (s.dispatch j takes).Has i c
      rw [hstep]
      exact has_note (@answer_other { s with engine := (s.engine.serve request).engine } _ _ _ h
        hj _ _ _ _ _ _ _)
  | operate op => exact .of_eq h

theorem step_options (s : Server) (a : Action) : (s.step a).options = s.options := by
  cases a with
  | accept =>
    change s.accept.options = _
    unfold accept
    split <;> rfl
  | read j chunk =>
    change (s.read j chunk).options = _
    unfold read
    split
    · rfl
    · split <;> rfl
  | leave j =>
    change (s.leave j).options = _
    unfold leave
    split
    · rfl
    · split <;> rfl
  | handle j takes =>
    rcases s.handle_cases j takes with hsame | ⟨d, f, d', xs, -, -, hstep, -⟩
    · exact congrArg options hsame
    · exact (congrArg options hstep).trans rfl
  | dispatch j takes =>
    have hanswer : ∀ (s : Server) d f v status body stopAfter,
        (s.answer j d f v status body stopAfter takes).options = s.options := by
      intro s d f v status body stopAfter
      unfold answer
      dsimp only
      split
      · rfl
      · split <;> rfl
    rcases s.dispatch_cases j takes with
      hsame | ⟨d, f, v, -, -, ⟨status, -, hstep⟩ | ⟨request, stopAfter, -, hstep⟩⟩
    · exact congrArg options hsame
    · exact (congrArg options hstep).trans (hanswer _ _ _ _ _ _ _)
    · exact (congrArg options hstep).trans (hanswer _ _ _ _ _ _ _)
  | operate op => rfl

end Server

end LinkFailover
