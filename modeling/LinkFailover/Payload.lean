import LinkFailover.Decision
import LinkFailover.Journal

/-!
# Payloads of journal records

One constructor for each content the engine and the store commit. `Payload.bytes` is what
stands in the file; the decoders are those of the replay, which takes a payload back only
when it is used up to its last byte.
-/

namespace LinkFailover

open Codec

/-! ## Boot, checkpoint and shutdown -/

structure BootPayload where
  epoch : Epoch := .zero
  coordinator : Incarnation := .zero 16
  bootCount : UInt64 := 0
  epochAdvances : UInt64 := 0
  toolchain : BoundedBytes 64 := .empty 64
  architecture : BoundedBytes 64 := .empty 64
  deriving DecidableEq

namespace BootPayload

def encode (p : BootPayload) : Writer → Writer :=
  Writer.fields
    [.u16 kIdentityFormatVersion, .uint p.epoch, .fixed p.coordinator, .u64 p.bootCount,
      .u64 p.epochAdvances, .blob p.toolchain.val 64, .blob p.architecture.val 64]

def decode : Parser BootPayload := do
  let formatVersion ← Parser.u16
  let epoch ← Parser.u64
  let coordinator ← Parser.fixed 16
  let bootCount ← Parser.u64
  let epochAdvances ← Parser.u64
  let toolchain ← Parser.bounded 64
  let architecture ← Parser.bounded 64
  Parser.require (formatVersion == kIdentityFormatVersion)
  return {
    epoch := ⟨epoch⟩
    coordinator := coordinator
    bootCount := bootCount
    epochAdvances := epochAdvances
    toolchain := toolchain
    architecture := architecture }

theorem roundTrip (p : BootPayload) : RoundTrip p.encode decode p := by
  refine .cons (.u16 _) ?_
  refine .cons (.uint _) ?_
  refine .cons (.fixed _) ?_
  refine .cons (.u64 _) ?_
  refine .cons (.u64 _) ?_
  refine .cons (.bounded _ (by decide)) ?_
  refine .cons (.bounded _ (by decide)) ?_
  exact .require (by decide) (.nil _)

end BootPayload

structure CheckpointPayload where
  coversSeq : LineageSeq := .zero
  recordCount : UInt64 := 0
  snapshotBytes : UInt64 := 0
  deriving DecidableEq

def CheckpointPayload.encode (p : CheckpointPayload) : Writer → Writer :=
  Writer.fields
    [.u16 kIdentityFormatVersion, .uint p.coversSeq, .u64 p.recordCount, .u64 p.snapshotBytes]

structure ShutdownPayload where
  epoch : Epoch := .zero
  coordinator : Incarnation := .zero 16
  lastSeq : LineageSeq := .zero
  deriving DecidableEq

def ShutdownPayload.encode (p : ShutdownPayload) : Writer → Writer :=
  Writer.fields
    [.u16 kIdentityFormatVersion, .uint p.epoch, .fixed p.coordinator, .uint p.lastSeq]

/-! ## The idempotency index -/

def kMaxIdempotencyDecisionBytes : Nat := 4096

structure IdempotencyEntry where
  key : Digest := .zero 32
  decisionId : Digest := .zero 32
  kind : DecisionKind := .indeterminate
  assertion : Assertion := .none
  outcome : Outcome := .indeterminate
  subject : LinkKey := {}
  subjectGeneration : LinkGeneration := .zero
  hasReplacement : Bool := false
  replacement : LinkKey := {}
  replacementGeneration : LinkGeneration := .zero
  attemptSeq : AttemptSeq := .zero
  seq : LineageSeq := .zero
  reasons : List Reason := []
  deriving DecidableEq

namespace IdempotencyEntry

def replacementField (e : IdempotencyEntry) : Option ReplacementField :=
  if e.hasReplacement then some ⟨e.replacement, e.replacementGeneration⟩ else none

def encode (e : IdempotencyEntry) : Writer → Writer :=
  Writer.fields
    [.u16 kIdentityFormatVersion, .fixed e.key, .fixed e.decisionId, .u16 (WireEnum.code e.kind),
      .u16 (WireEnum.code e.assertion), .u16 (WireEnum.code e.outcome), .name e.subject.fabric,
      .name e.subject.link, .uint e.subjectGeneration,
      .option ReplacementField.encode e.replacementField, .uint e.attemptSeq, .uint e.seq,
      .u32 (UInt32.ofNat e.reasons.length), .each Reason.encode e.reasons]

/-- Unlike the other decoders this one takes no absent name. -/
def decode : Parser IdempotencyEntry := do
  let formatVersion ← Parser.u16
  let key ← Parser.fixed 32
  let decisionId ← Parser.fixed 32
  let kind ← Parser.u16
  let assertion ← Parser.u16
  let outcome ← Parser.u16
  let fabric ← Parser.str
  let link ← Parser.str
  let generation ← Parser.u64
  let replacement ← Parser.option ReplacementField.Raw.decode
  let attemptSeq ← Parser.u64
  let seq ← Parser.u64
  let reasonCount ← Parser.u32
  Parser.require (formatVersion == kIdentityFormatVersion)
  let kind ← Parser.lift (WireEnum.ofCode? kind)
  let assertion ← Parser.lift (WireEnum.ofCode? assertion)
  let outcome ← Parser.lift (WireEnum.ofCode? outcome)
  Parser.require (reasonCount.toNat ≤ kMaxReasons)
  let fabric ← Parser.lift (StrongName.parse fabric).toOption
  let link ← Parser.lift (StrongName.parse link).toOption
  let replacement ← Parser.lift
    (ReplacementField.Raw.check (fun bs => (StrongName.parse bs).toOption)
      (fun bs => (StrongName.parse bs).toOption) replacement)
  let reasons ← Parser.many Reason.decode reasonCount.toNat
  return {
    key := key
    decisionId := decisionId
    kind := kind
    assertion := assertion
    outcome := outcome
    subject := ⟨fabric, link⟩
    subjectGeneration := ⟨generation⟩
    hasReplacement := replacement.isSome
    replacement := (replacement.map (·.link)).getD {}
    replacementGeneration := (replacement.map (·.generation)).getD .zero
    attemptSeq := ⟨attemptSeq⟩
    seq := ⟨seq⟩
    reasons := reasons }

/-- What the decoder of an entry asks beyond its shape, and what makes it come back as it
was written. -/
structure Encodable (e : IdempotencyEntry) : Prop where
  subject : e.subject.empty = false
  replacement : e.hasReplacement = true → e.replacement.empty = false
  noReplacement : e.hasReplacement = false →
    e.replacement = {} ∧ e.replacementGeneration = .zero
  reasons : e.reasons.length ≤ kMaxReasons
  size : (Writer.run e.encode).length ≤ kMaxIdempotencyDecisionBytes

theorem parse_toOption {Tag : Type} {n : StrongName Tag} (h : n.empty = false) :
    (StrongName.parse n.value : Result (StrongName Tag)).toOption = some n := by
  rw [StrongName.parse_ok h]
  rfl

theorem names_of_link {k : LinkKey} (h : k.empty = false) :
    k.fabric.empty = false ∧ k.link.empty = false := by
  simpa [LinkKey.empty] using h

/-- The decoder itself does not bound the size. -/
theorem roundTrip_of {e : IdempotencyEntry} (hsubject : e.subject.empty = false)
    (hreplacement : e.hasReplacement = true → e.replacement.empty = false)
    (hnone : e.hasReplacement = false → e.replacement = {} ∧ e.replacementGeneration = .zero)
    (hreasons : e.reasons.length ≤ kMaxReasons) : RoundTrip e.encode decode e := by
  have h32 := toNat_ofNat_length hreasons (by decide)
  have hs := names_of_link hsubject
  have hrep : ∀ r ∈ e.replacementField, r.link.empty = false := by
    intro r hr
    unfold replacementField at hr
    split at hr
    · cases hr
      exact hreplacement ‹_›
    · cases hr
  have hback : e = { e with
      hasReplacement := e.replacementField.isSome
      replacement := (e.replacementField.map (·.link)).getD {}
      replacementGeneration := (e.replacementField.map (·.generation)).getD .zero } := by
    unfold replacementField
    cases hr : e.hasReplacement with
    | true => cases e; cases hr; rfl
    | false =>
      obtain ⟨h1, h2⟩ := hnone hr
      cases e
      cases hr
      cases h1
      cases h2
      rfl
  refine .cons (.u16 _) ?_
  refine .cons (.fixed _) ?_
  refine .cons (.fixed _) ?_
  refine .cons (.u16 _) ?_
  refine .cons (.u16 _) ?_
  refine .cons (.u16 _) ?_
  refine .cons (.name _) ?_
  refine .cons (.name _) ?_
  refine .cons (.uint _) ?_
  refine .cons (.optionMap _ _ ReplacementField.roundTrip) ?_
  refine .cons (.uint _) ?_
  refine .cons (.uint _) ?_
  refine .cons (.u32 _) ?_
  refine .require (by decide) ?_
  refine .lift (ClosedEnum.ofCode?_code _) ?_
  refine .lift (ClosedEnum.ofCode?_code _) ?_
  refine .lift (ClosedEnum.ofCode?_code _) ?_
  refine .require (by simpa [h32] using hreasons) ?_
  refine .lift (parse_toOption hs.1) ?_
  refine .lift (parse_toOption hs.2) ?_
  refine .lift (ReplacementField.check_raw _
    (fun r hr => parse_toOption (names_of_link (hrep r hr)).1)
    fun r hr => parse_toOption (names_of_link (hrep r hr)).2) ?_
  rw [h32]
  refine .cons (.each _ fun x _ => x.roundTrip) ?_
  rw [← hback]
  exact .nil e

theorem roundTrip {e : IdempotencyEntry} (h : e.Encodable) : RoundTrip e.encode decode e :=
  roundTrip_of h.subject h.replacement h.noReplacement h.reasons

end IdempotencyEntry

/-! ## All payloads -/

/-- The four record types that carry an attempt. -/
inductive AttemptWrite where
  | create | update | completion | rollback
  deriving DecidableEq, Repr

def AttemptWrite.type : AttemptWrite → RecordType
  | .create => .attemptCreate
  | .update => .attemptUpdate
  | .completion => .completion
  | .rollback => .rollback

/-- The kind of attempt record that a record type stands for. -/
def RecordType.attemptWrite? : RecordType → Option AttemptWrite
  | .attemptCreate => some .create
  | .attemptUpdate => some .update
  | .completion => some .completion
  | .rollback => some .rollback
  | _ => none

inductive Payload where
  | boot (p : BootPayload)
  | policy (p : FailoverPolicy)
  | topology (t : TopologySnapshot)
  | attempt (w : AttemptWrite) (r : AttemptRecord)
  | decision (d : FailoverDecision)
  | fence (f : FenceRecord)
  | idempotency (e : IdempotencyEntry)
  | checkpoint (c : CheckpointPayload)
  | shutdown (s : ShutdownPayload)
  deriving DecidableEq

namespace Payload

def type : Payload → RecordType
  | boot _ => .boot
  | policy _ => .policyCommit
  | topology _ => .topologyCommit
  | attempt w _ => w.type
  | decision _ => .decisionCommit
  | fence _ => .fence
  | idempotency _ => .idempotencyIndex
  | checkpoint _ => .checkpoint
  | shutdown _ => .shutdown

def bytes : Payload → Bytes
  | boot p => Writer.run p.encode
  | policy p => Writer.run p.encode
  | topology t => Writer.run t.encode
  | attempt _ r => Writer.run r.encode
  | decision d => Writer.run d.encode
  | fence f => Writer.run f.encode
  | idempotency e => Writer.run e.encode
  | checkpoint c => Writer.run c.encode
  | shutdown s => Writer.run s.encode

/-- What the payload holds of the enumerations that a caller fills is declared. -/
def Declared : Payload → Prop
  | policy p => WireEnum.Declared p.agreement
  | attempt _ r => WireEnum.Declared r.revalidation
  | _ => True

/-- The record of a payload at a position of the lineage. -/
def record (p : Payload) (seq : LineageSeq) : JournalRecord := ⟨p.type, seq, p.bytes⟩

end Payload

end LinkFailover
