import LinkFailover.Authority

/-!
# Attempts

One attempt is one try to make a replacement authoritative for one generation of a link.
Its record moves through phases. Some phases are terminal, some hold authority, and
`Committed` is both.
-/

namespace LinkFailover

open Codec

/-! ## Phases -/

/-- How an attempt that a restart interrupted was resolved. A revalidation writes the number it
was given into the record, declared or not. -/
inductive RevalidationVerdict where
  | notApplied | applied | unknown
  | undeclared (number : Undeclared 3)
  deriving DecidableEq, Repr

instance : WireEnum RevalidationVerdict where
  values := [.notApplied, .applied, .unknown]
  nodup := by decide
  small := by decide
  undeclared?
    | .undeclared u => some u
    | _ => none
  declared_iff a := by cases a <;> simp
  undeclared_inj {a b u} ha hb := by
    cases a <;> cases b <;> cases ha <;> cases hb
    rfl

/-- A verdict that says whether the backend has applied the directive. -/
def RevalidationVerdict.Conclusive : RevalidationVerdict → Prop
  | .notApplied | .applied => True
  | .unknown | .undeclared _ => False

instance : DecidablePred RevalidationVerdict.Conclusive
  | .notApplied | .applied => isTrue trivial
  | .unknown | .undeclared _ => isFalse id

inductive AttemptPhase where
  | evaluated | authorized | acknowledged | verified | refused | indeterminate | committed
  | rolledBack | interrupted | superseded | aborted
  deriving DecidableEq, Repr

instance : ClosedEnum AttemptPhase where
  values := [.evaluated, .authorized, .acknowledged, .verified, .refused, .indeterminate,
    .committed, .rolledBack, .interrupted, .superseded, .aborted]
  complete a := by cases a <;> decide
  nodup := by decide
  small := by decide

def attemptPhaseIsTerminal : AttemptPhase → Bool
  | .refused | .indeterminate | .committed | .rolledBack | .interrupted | .superseded
  | .aborted => true
  | .evaluated | .authorized | .acknowledged | .verified => false

def attemptPhaseHoldsAuthority : AttemptPhase → Bool
  | .authorized | .acknowledged | .verified | .committed => true
  | _ => false

/-- Where a restart cut an attempt off. -/
def interruptionReason : AttemptPhase → ReasonCode
  | .evaluated => .interruptedBeforeCommit
  | .authorized => .interruptedAfterCommit
  | .acknowledged | .verified => .interruptedAfterApply
  | _ => .attemptUnknown

/-- A phase neither terminal nor holding authority is the entry phase. -/
theorem evaluated_of_not_terminal {p : AttemptPhase} (ht : attemptPhaseIsTerminal p = false)
    (hh : attemptPhaseHoldsAuthority p = false) : p = .evaluated := by
  cases p <;> simp_all [attemptPhaseIsTerminal, attemptPhaseHoldsAuthority]

/-! ## Reasons of a record -/

def kMaxAttemptReasons : Nat := 16

/-- The reasons of an attempt never exceed the bound of the decoder. -/
structure ReasonLog where
  entries : List Reason
  bounded : entries.length ≤ kMaxAttemptReasons
  deriving DecidableEq

namespace ReasonLog

def empty : ReasonLog := ⟨[], Nat.zero_le _⟩

/-- Appends a reason and drops the oldest one above the bound. -/
def push (log : ReasonLog) (r : Reason) : ReasonLog :=
  if h : (log.entries ++ [r]).length > kMaxAttemptReasons then
    ⟨(log.entries ++ [r]).drop 1, by
      have hb := log.bounded
      simp only [List.length_drop, List.length_append, List.length_singleton]
      omega⟩
  else ⟨log.entries ++ [r], Nat.le_of_not_gt h⟩

theorem getLast?_push (log : ReasonLog) (r : Reason) :
    (log.push r).entries.getLast? = some r := by
  unfold push
  split
  · rename_i hl
    rw [List.length_append, List.length_singleton, kMaxAttemptReasons] at hl
    rw [List.getLast?_drop, if_neg (by rw [List.length_append, List.length_singleton]; omega)]
    simp
  · simp

end ReasonLog

/-! ## Records -/

structure AttemptRecord where
  subject : LinkKey := {}
  subjectGeneration : LinkGeneration := .zero
  attemptSeq : AttemptSeq := .zero
  attemptId : Digest := .zero 32
  idempotencyKey : Digest := .zero 32
  phase : AttemptPhase := .evaluated
  replacement : LinkKey := {}
  replacementGeneration : LinkGeneration := .zero
  authority : AuthorityVector := {}
  evidenceDigest : Digest := .zero 32
  createdTick : UInt64 := 0
  createdEpoch : Epoch := .zero
  coordinator : Incarnation := .zero 16
  createSeq : LineageSeq := .zero
  updateSeq : LineageSeq := .zero
  predecessor : Option Digest := none
  applierIncarnation : Incarnation := .zero 16
  revalidated : Bool := false
  revalidation : RevalidationVerdict := .unknown
  reasons : ReasonLog := .empty
  deriving DecidableEq

def Reason.encode (r : Reason) : Writer → Writer :=
  Writer.fields [.u16 (WireEnum.code r.code), .blob r.detail kMaxReasonDetail]

def Reason.decode : Parser Reason := do
  let code ← Parser.u16
  let detail ← Parser.blob kMaxReasonDetail
  let code ← Parser.lift (WireEnum.ofCode? code)
  return Reason.of code detail

theorem Reason.roundTrip (r : Reason) : RoundTrip r.encode decode r := by
  refine .cons (.u16 _) ?_
  refine .cons (.blob r.bounded (Nat.lt_of_le_of_lt r.bounded (by decide))) ?_
  refine .lift (ClosedEnum.ofCode?_code _) ?_
  rw [Reason.of_detail]
  exact .nil _

namespace AttemptRecord

def encode (r : AttemptRecord) : Writer → Writer :=
  Writer.fields
    [.u16 kIdentityFormatVersion, .name r.subject.fabric, .name r.subject.link,
      .uint r.subjectGeneration, .uint r.attemptSeq, .fixed r.attemptId, .fixed r.idempotencyKey,
      .u16 (WireEnum.code r.phase), .name r.replacement.fabric, .name r.replacement.link,
      .uint r.replacementGeneration, r.authority.encode, .fixed r.evidenceDigest,
      .u64 r.createdTick, .uint r.createdEpoch, .fixed r.coordinator, .uint r.createSeq,
      .uint r.updateSeq, .option Writer.fixed r.predecessor, .fixed r.applierIncarnation,
      .bool8 r.revalidated, .u16 (WireEnum.code r.revalidation),
      .u32 (UInt32.ofNat r.reasons.entries.length), .each Reason.encode r.reasons.entries]

/-- Reads a record, the verdict of its revalidation by `verdict`. -/
def decodeBy (verdict : UInt16 → Option RevalidationVerdict) : Parser AttemptRecord := do
  let formatVersion ← Parser.u16
  let fabric ← Parser.str
  let link ← Parser.str
  let generation ← Parser.u64
  let attemptSeq ← Parser.u64
  let attemptId ← Parser.fixed 32
  let idempotencyKey ← Parser.fixed 32
  let phase ← Parser.u16
  let replacementFabric ← Parser.str
  let replacementLink ← Parser.str
  let replacementGeneration ← Parser.u64
  let authority ← AuthorityVector.decode
  let evidenceDigest ← Parser.fixed 32
  let createdTick ← Parser.u64
  let createdEpoch ← Parser.u64
  let coordinator ← Parser.fixed 16
  let createSeq ← Parser.u64
  let updateSeq ← Parser.u64
  let predecessor ← Parser.option (Parser.fixed 32)
  let applier ← Parser.fixed 16
  let revalidated ← Parser.bool8
  let revalidation ← Parser.u16
  let reasonCount ← Parser.u32
  Parser.require (formatVersion == kIdentityFormatVersion)
  let phase ← Parser.lift (WireEnum.ofCode? phase)
  Parser.require (reasonCount.toNat ≤ kMaxAttemptReasons)
  let revalidation ← Parser.lift (verdict revalidation)
  let fabric ← Parser.lift (decodeName fabric)
  let link ← Parser.lift (decodeName link)
  let replacementFabric ← Parser.lift (decodeName replacementFabric)
  let replacementLink ← Parser.lift (decodeName replacementLink)
  let reasons ← Parser.many Reason.decode reasonCount.toNat
  let reasons ← Parser.lift
    (if h : reasons.length ≤ kMaxAttemptReasons then some ⟨reasons, h⟩ else none)
  return {
    subject := ⟨fabric, link⟩
    subjectGeneration := ⟨generation⟩
    attemptSeq := ⟨attemptSeq⟩
    attemptId := attemptId
    idempotencyKey := idempotencyKey
    phase := phase
    replacement := ⟨replacementFabric, replacementLink⟩
    replacementGeneration := ⟨replacementGeneration⟩
    authority := authority
    evidenceDigest := evidenceDigest
    createdTick := createdTick
    createdEpoch := ⟨createdEpoch⟩
    coordinator := coordinator
    createSeq := ⟨createSeq⟩
    updateSeq := ⟨updateSeq⟩
    predecessor := predecessor
    applierIncarnation := applier
    revalidated := revalidated
    revalidation := revalidation
    reasons := reasons }

def decode : Parser AttemptRecord := decodeBy WireEnum.ofCode?

/-- Whether a written record is read back is for the reader of its verdict to say. -/
theorem yields (r : AttemptRecord) (verdict : UInt16 → Option RevalidationVerdict) :
    Yields r.encode (decodeBy verdict)
      ((verdict (WireEnum.code r.revalidation)).map fun v => { r with revalidation := v }) := by
  have hb := r.reasons.bounded
  have h32 : (UInt32.ofNat r.reasons.entries.length).toNat = r.reasons.entries.length := by
    rw [UInt32.toNat_ofNat', Nat.mod_eq_of_lt (Nat.lt_of_le_of_lt hb (by decide))]
  refine .cons (.u16 _) ?_
  refine .cons (.name _) ?_
  refine .cons (.name _) ?_
  refine .cons (.uint _) ?_
  refine .cons (.uint _) ?_
  refine .cons (.fixed _) ?_
  refine .cons (.fixed _) ?_
  refine .cons (.u16 _) ?_
  refine .cons (.name _) ?_
  refine .cons (.name _) ?_
  refine .cons (.uint _) ?_
  refine .cons r.authority.roundTrip ?_
  refine .cons (.fixed _) ?_
  refine .cons (.u64 _) ?_
  refine .cons (.uint _) ?_
  refine .cons (.fixed _) ?_
  refine .cons (.uint _) ?_
  refine .cons (.uint _) ?_
  refine .cons (.option _ .fixed) ?_
  refine .cons (.fixed _) ?_
  refine .cons (.bool8 _) ?_
  refine .cons (.u16 _) ?_
  refine .cons (.u32 _) ?_
  refine .past (by decide) ?_
  refine .lift (ClosedEnum.ofCode?_code _) ?_
  refine .past (by simpa [h32] using hb) ?_
  have hreasons := RoundTrip.each r.reasons.entries fun x _ => x.roundTrip
  refine .decide (hreasons.appends.cons .nil) fun v => ?_
  refine .lift (decodeName_value _) ?_
  refine .lift (decodeName_value _) ?_
  refine .lift (decodeName_value _) ?_
  refine .lift (decodeName_value _) ?_
  rw [h32]
  refine .cons hreasons ?_
  exact .lift (dif_pos hb) (.nil _)

theorem roundTripBy {r : AttemptRecord} {verdict : UInt16 → Option RevalidationVerdict}
    (h : verdict (WireEnum.code r.revalidation) = some r.revalidation) :
    RoundTrip r.encode (decodeBy verdict) r := by
  have hy := r.yields verdict
  rw [h] at hy
  exact hy.roundTrip

/-- The decoder of a record takes a declared verdict only, whether the record is revalidated or
not. -/
theorem roundTrip (r : AttemptRecord) (h : WireEnum.Declared r.revalidation) :
    RoundTrip r.encode decode r :=
  roundTripBy (WireEnum.ofCode?_code h)

theorem refuses {r : AttemptRecord} (h : ¬WireEnum.Declared r.revalidation) :
    Refuses r.encode decode := by
  have hy := r.yields WireEnum.ofCode?
  rw [WireEnum.ofCode?_undeclared h] at hy
  exact hy.refuses

theorem appends (r : AttemptRecord) : Writer.Appends r.encode := (r.yields fun _ => none).1

/-- The record without the lineage positions that the store stamps on its copy. -/
def unstamped (r : AttemptRecord) : AttemptRecord := { r with createSeq := .zero, updateSeq := .zero }

/-- Why the record is in its phase. -/
def lastReason (r : AttemptRecord) : Option ReasonCode := r.reasons.entries.getLast?.map (·.code)

/-- The identity of an attempt in the whole lineage. -/
def identity (r : AttemptRecord) : LinkKey × LinkGeneration × AttemptSeq :=
  (r.subject, r.subjectGeneration, r.attemptSeq)

end AttemptRecord

/-- The attempt id is a function of the fabric, the subject, its generation and the sequence. -/
def computeAttemptId (fabric : FabricName) (subject : LinkKey) (generation : LinkGeneration)
    (seq : AttemptSeq) : Digest :=
  sha256 (Writer.run (Writer.fields
    [.u16 kIdentityFormatVersion, .blob (text "lff.attempt") kMaxEncodedString, .name fabric,
      .name subject.fabric, .name subject.link, .uint generation, .uint seq]))

end LinkFailover
