import LinkFailover.Ids
import LinkFailover.Lib.BoundedTable
import LinkFailover.Lib.Rejections

/-!
# Failover policy and fabric topology

Both are durable definitions. They survive a restart as written, and every decision binds
their generation and their digest.
-/

namespace LinkFailover

open Codec

def kIdentityFormatVersion : UInt16 := 1

/-! ## Policy -/

/-- How several fresh observations of one link are combined. -/
inductive AgreementRule where
  | unanimous | majorityOfFreshQualified
  | undeclared (number : Undeclared 2)
  deriving DecidableEq, Repr

instance : WireEnum AgreementRule where
  values := [.unanimous, .majorityOfFreshQualified]
  nodup := by decide
  small := by decide
  undeclared?
    | .undeclared u => some u
    | _ => none
  declared_iff a := by cases a <;> simp
  undeclared_inj {a b u} ha hb := by
    cases a <;> cases b <;> cases ha <;> cases hb
    rfl

def kMaxPolicyCandidates : UInt32 := 256
def kMaxRetainedAttemptsPerLink : UInt32 := 256
def kMaxEvidenceAgeTicks : UInt64 := 0x10000000000

structure FailoverPolicy where
  generation : PolicyGeneration := .zero
  minFailureConfidence : Confidence := ⟨900⟩
  minReplacementConfidence : Confidence := ⟨900⟩
  evidenceMaxAgeTicks : UInt64 := 4096
  minReplacementCapacity : UInt32 := 1
  requireSubjectCapacity : Bool := true
  requireAdjacencyAuthorization : Bool := true
  allowDegradedReplacement : Bool := false
  treatDegradedAsFailed : Bool := false
  agreement : AgreementRule := .unanimous
  maxAttemptsPerGeneration : UInt32 := 8
  maxCandidates : UInt32 := kMaxPolicyCandidates
  maxRetainedAttempts : UInt32 := kMaxRetainedAttemptsPerLink
  requireVerifiedEffect : Bool := true
  failoverEnabled : Bool := true
  deriving DecidableEq

namespace FailoverPolicy

def defaults : FailoverPolicy := {}

def rejected (detail : String) : Status :=
  Status.failure .invalid .policyRejected (text detail)

def validate (p : FailoverPolicy) : Status :=
  if p.minFailureConfidence.value > kMaxConfidence then
    rejected "min_failure_confidence out of range"
  else if p.minReplacementConfidence.value > kMaxConfidence then
    rejected "min_replacement_confidence out of range"
  else if p.evidenceMaxAgeTicks == 0 || p.evidenceMaxAgeTicks > kMaxEvidenceAgeTicks then
    rejected "evidence_max_age_ticks out of range"
  else if p.maxCandidates == 0 || p.maxCandidates > kMaxPolicyCandidates then
    rejected "max_candidates out of range"
  else if p.maxAttemptsPerGeneration == 0 || p.maxAttemptsPerGeneration > 1024 then
    rejected "max_attempts_per_generation out of range"
  else if p.maxRetainedAttempts == 0 || p.maxRetainedAttempts > kMaxRetainedAttemptsPerLink then
    rejected "max_retained_attempts out of range"
  else if p.generation.isZero then rejected "policy generation must be non-zero"
  else Status.success

def encode (p : FailoverPolicy) : Writer → Writer :=
  Writer.fields
    [.u16 kIdentityFormatVersion, .uint p.generation, .u32 p.minFailureConfidence.value,
      .u32 p.minReplacementConfidence.value, .u64 p.evidenceMaxAgeTicks,
      .u32 p.minReplacementCapacity, .bool8 p.requireSubjectCapacity,
      .bool8 p.requireAdjacencyAuthorization, .bool8 p.allowDegradedReplacement,
      .bool8 p.treatDegradedAsFailed, .u16 (WireEnum.code p.agreement),
      .u32 p.maxAttemptsPerGeneration, .u32 p.maxCandidates, .u32 p.maxRetainedAttempts,
      .bool8 p.requireVerifiedEffect, .bool8 p.failoverEnabled]

/-- Reads a policy, its agreement rule by `rule`. -/
def decodeBy (rule : UInt16 → Option AgreementRule) : Parser FailoverPolicy := do
  let formatVersion ← Parser.u16
  let generation ← Parser.u64
  let minFailure ← Parser.u32
  let minReplacement ← Parser.u32
  let maxAge ← Parser.u64
  let minCapacity ← Parser.u32
  let subjectCapacity ← Parser.bool8
  let adjacency ← Parser.bool8
  let degradedReplacement ← Parser.bool8
  let degradedFailure ← Parser.bool8
  let agreement ← Parser.u16
  let maxAttempts ← Parser.u32
  let maxCandidates ← Parser.u32
  let maxRetained ← Parser.u32
  let verifiedEffect ← Parser.bool8
  let enabled ← Parser.bool8
  Parser.require (formatVersion == kIdentityFormatVersion)
  let agreement ← Parser.lift (rule agreement)
  return {
    generation := ⟨generation⟩
    minFailureConfidence := ⟨minFailure⟩
    minReplacementConfidence := ⟨minReplacement⟩
    evidenceMaxAgeTicks := maxAge
    minReplacementCapacity := minCapacity
    requireSubjectCapacity := subjectCapacity
    requireAdjacencyAuthorization := adjacency
    allowDegradedReplacement := degradedReplacement
    treatDegradedAsFailed := degradedFailure
    agreement := agreement
    maxAttemptsPerGeneration := maxAttempts
    maxCandidates := maxCandidates
    maxRetainedAttempts := maxRetained
    requireVerifiedEffect := verifiedEffect
    failoverEnabled := enabled }

def decode : Parser FailoverPolicy := decodeBy WireEnum.ofCode?

def digest (p : FailoverPolicy) : Digest := sha256 (Writer.run p.encode)

/-- The defaults pass their own check as soon as they carry a generation. -/
theorem defaults_validate (g : PolicyGeneration) (h : g.isZero = false) :
    ({ defaults with generation := g } : FailoverPolicy).validate = Status.success := by
  simp only [validate, defaults, h]
  rfl

/-- Whether a written policy is read back is for the reader of its agreement rule to say. -/
theorem yields (p : FailoverPolicy) (rule : UInt16 → Option AgreementRule) :
    Yields p.encode (decodeBy rule)
      ((rule (WireEnum.code p.agreement)).map fun a => { p with agreement := a }) := by
  refine .cons (.u16 _) ?_
  refine .cons (.uint _) ?_
  refine .cons (.u32 _) ?_
  refine .cons (.u32 _) ?_
  refine .cons (.u64 _) ?_
  refine .cons (.u32 _) ?_
  refine .cons (.bool8 _) ?_
  refine .cons (.bool8 _) ?_
  refine .cons (.bool8 _) ?_
  refine .cons (.bool8 _) ?_
  refine .cons (.u16 _) ?_
  refine .cons (.u32 _) ?_
  refine .cons (.u32 _) ?_
  refine .cons (.u32 _) ?_
  refine .cons (.bool8 _) ?_
  refine .cons (.bool8 _) ?_
  refine .past (by decide) ?_
  exact .decide .nil fun a => .nil _

theorem roundTripBy {p : FailoverPolicy} {rule : UInt16 → Option AgreementRule}
    (h : rule (WireEnum.code p.agreement) = some p.agreement) :
    RoundTrip p.encode (decodeBy rule) p := by
  have hy := p.yields rule
  rw [h] at hy
  exact hy.roundTrip

/-- The check of a policy does not look at its agreement rule; its decoder does. -/
theorem roundTrip (p : FailoverPolicy) (h : WireEnum.Declared p.agreement) :
    RoundTrip p.encode decode p :=
  roundTripBy (WireEnum.ofCode?_code h)

theorem refuses {p : FailoverPolicy} (h : ¬WireEnum.Declared p.agreement) :
    Refuses p.encode decode := by
  have hy := p.yields WireEnum.ofCode?
  rw [WireEnum.ofCode?_undeclared h] at hy
  exact hy.refuses

theorem appends (p : FailoverPolicy) : Writer.Appends p.encode := (p.yields fun _ => none).1

/-- Two policies with one encoding are equal, whatever their rules: an encoding holds the number of
the rule. -/
theorem encode_inj {p p' : FailoverPolicy} (h : Writer.run p.encode = Writer.run p'.encode) :
    p = p' := by
  let rule : UInt16 → Option AgreementRule := fun c =>
    if c = WireEnum.code p.agreement then some p.agreement else some p'.agreement
  have hp : rule (WireEnum.code p.agreement) = some p.agreement := if_pos rfl
  have hp' : rule (WireEnum.code p'.agreement) = some p'.agreement := by
    by_cases hc : WireEnum.code p'.agreement = WireEnum.code p.agreement
    · exact (if_pos hc).trans (congrArg some (WireEnum.code_inj hc).symm)
    · exact if_neg hc
  exact (roundTripBy hp).inj (roundTripBy hp') h

end FailoverPolicy

/-! ## Topology -/

def kMaxTopologyLinks : Nat := 4096

structure LinkDefinition where
  link : LinkKey := {}
  generation : LinkGeneration := .zero
  capacityUnits : UInt32 := 0
  deriving DecidableEq

namespace LinkDefinition

def encode (d : LinkDefinition) : Writer → Writer :=
  Writer.fields
    [.name d.link.fabric, .name d.link.link, .uint d.generation, .u32 d.capacityUnits]

def decode : Parser LinkDefinition := do
  let fabric ← Parser.str
  let link ← Parser.str
  let generation ← Parser.u64
  let capacity ← Parser.u32
  let fabric ← Parser.lift (decodeName fabric)
  let link ← Parser.lift (decodeName link)
  return { link := ⟨fabric, link⟩, generation := ⟨generation⟩, capacityUnits := capacity }

theorem roundTrip (d : LinkDefinition) : RoundTrip d.encode decode d := by
  refine .cons (.name _) ?_
  refine .cons (.name _) ?_
  refine .cons (.uint _) ?_
  refine .cons (.u32 _) ?_
  refine .lift (decodeName_value _) ?_
  exact .lift (decodeName_value _) (.nil _)

def less (a b : LinkDefinition) : Bool :=
  if a.link.less b.link then true
  else if b.link.less a.link then false
  else a.generation > b.generation

end LinkDefinition

/-- The links of a fabric, as supplied from outside: the runtime discovers none. -/
structure TopologySnapshot where
  generation : TopologyGeneration := .zero
  links : List LinkDefinition := []
  deriving DecidableEq

namespace TopologySnapshot

/-- Whether every link key is below the next one. -/
def strictlyOrdered : List LinkDefinition → Bool
  | a :: b :: rest => a.link.less b.link && strictlyOrdered (b :: rest)
  | _ => true

def validate (t : TopologySnapshot) : Status :=
  if t.links.length > kMaxTopologyLinks then
    Status.failure .limitExceeded .limitExceeded
      (text "topology link count exceeds the supported bound")
  else
    match t.links.find? fun d => d.link.empty || d.generation.isZero with
    | some d =>
      if d.link.empty then
        Status.failure .invalid .invalidArgument (text "topology contains an empty link key")
      else
        Status.failure .invalid .invalidArgument
          (text "topology link generation must be non-zero")
    | none =>
      if strictlyOrdered t.links then Status.success
      else
        Status.failure .invalid .invalidArgument
          (text "topology links are not strictly ordered and unique")

def canonicalise (t : TopologySnapshot) : TopologySnapshot :=
  { t with links := BoundedTable.sortBy LinkDefinition.less t.links }

def find (t : TopologySnapshot) (key : LinkKey) : Option LinkDefinition :=
  t.links.find? fun d => d.link = key

def encode (t : TopologySnapshot) : Writer → Writer :=
  Writer.fields
    [.u16 kIdentityFormatVersion, .uint t.generation, .u32 (UInt32.ofNat t.links.length),
      .each LinkDefinition.encode t.links]

def decode : Parser TopologySnapshot := do
  let formatVersion ← Parser.u16
  let generation ← Parser.u64
  let count ← Parser.u32
  Parser.require (formatVersion == kIdentityFormatVersion)
  Parser.require (count.toNat ≤ kMaxTopologyLinks)
  let links ← Parser.many LinkDefinition.decode count.toNat
  return { generation := ⟨generation⟩, links := links }

def digest (t : TopologySnapshot) : Digest := sha256 (Writer.run t.encode)

theorem roundTrip (t : TopologySnapshot) (h : t.links.length ≤ kMaxTopologyLinks) :
    RoundTrip t.encode decode t := by
  have h32 : (UInt32.ofNat t.links.length).toNat = t.links.length := by
    rw [UInt32.toNat_ofNat', Nat.mod_eq_of_lt (Nat.lt_of_le_of_lt h (by decide))]
  refine .cons (.u16 _) ?_
  refine .cons (.uint _) ?_
  refine .cons (.u32 _) ?_
  refine .require (by decide) ?_
  refine .require (by simpa [h32] using h) ?_
  rw [h32]
  exact .cons (.each _ fun d _ => d.roundTrip) (.nil _)

theorem appends (t : TopologySnapshot) : Writer.Appends t.encode :=
  (RoundTrip.u16 _).appends.cons <| (RoundTrip.uint _).appends.cons <|
    (RoundTrip.u32 _).appends.cons <|
      (Writer.Appends.each fun d (_ : d ∈ t.links) => d.roundTrip.appends).1.cons .nil

/-- Above the bound of the decoder nothing is read, as long as the count tells the number. -/
theorem refuses {t : TopologySnapshot} (h : kMaxTopologyLinks < t.links.length)
    (h32 : t.links.length < 2 ^ 32) : Refuses t.encode decode := by
  have hn : (UInt32.ofNat t.links.length).toNat = t.links.length := by
    rw [UInt32.toNat_ofNat', Nat.mod_eq_of_lt h32]
  have hlinks := (Writer.Appends.each fun d (_ : d ∈ t.links) => d.roundTrip.appends).1
  refine .cons (.u16 _) ?_
  refine .cons (.uint _) ?_
  refine .cons (.u32 _) ?_
  refine .past (by decide) ?_
  exact .require (hlinks.cons .nil) (by rw [hn]; simpa using h)

/-- Every link takes a byte or more. -/
theorem length_le_run (t : TopologySnapshot) : t.links.length ≤ (Writer.run t.encode).length := by
  have hlinks := (Writer.Appends.each fun d (_ : d ∈ t.links) => d.roundTrip.appends).1
  have hcount := (RoundTrip.u32 (UInt32.ofNat t.links.length)).appends.cons (hlinks.cons .nil)
  have hgeneration := (RoundTrip.uint t.generation).appends.cons hcount
  have heach := Writer.length_each (n := 1) (fun d (_ : d ∈ t.links) => d.roundTrip.appends)
    fun d _ => Nat.pos_of_ne_zero fun hempty => by
      have hread := d.roundTrip.reads []
      rw [List.length_eq_zero_iff.mp hempty] at hread
      cases hread
  rw [encode, Writer.Appends.run_cons (RoundTrip.u16 _).appends hgeneration,
    Writer.Appends.run_cons (RoundTrip.uint _).appends hcount,
    Writer.Appends.run_cons (RoundTrip.u32 _).appends (hlinks.cons .nil),
    Writer.Appends.run_cons hlinks .nil]
  simp only [List.length_append]
  omega

theorem encode_inj {t t' : TopologySnapshot}
    (h : Writer.run t.encode = Writer.run t'.encode) : t = t' := by
  have hsplit : ∀ t : TopologySnapshot, Writer.run t.encode =
      (leBytes 2 kIdentityFormatVersion.toNat ++ leBytes 8 t.generation.value.toNat) ++
        (leBytes 4 (UInt32.ofNat t.links.length).toNat ++
          Writer.run (Writer.each LinkDefinition.encode t.links)) := by
    intro t
    have heach : Writer.Appends (Writer.each LinkDefinition.encode t.links) :=
      (Writer.Appends.each fun d _ => d.roundTrip.appends).1
    have hlast : Writer.Appends (Writer.fields [Writer.each LinkDefinition.encode t.links]) := heach
    have hcount := (RoundTrip.u32 (UInt32.ofNat t.links.length)).appends
    have hgeneration := (RoundTrip.uint t.generation).appends
    rw [encode, Writer.Appends.run_cons (RoundTrip.u16 _).appends
        (.cons hgeneration (.cons hcount hlast)),
      Writer.Appends.run_cons hgeneration (.cons hcount hlast),
      Writer.Appends.run_cons hcount hlast, List.append_assoc]
    rfl
  rw [hsplit, hsplit] at h
  obtain ⟨hhead, hrest⟩ := List.append_inj h (by simp)
  have hgeneration := (List.append_inj' hhead (by simp)).2
  have hlinks := (List.append_inj hrest (by simp)).2
  have hg : t.generation = t'.generation := by
    have hvalue := (RoundTrip.uint t.generation).inj (RoundTrip.uint t'.generation) hgeneration
    exact StrongUint.toNat_inj.mp (congrArg UInt64.toNat hvalue)
  have hl : t.links = t'.links := by
    refine Writer.each_inj LinkDefinition.roundTrip (fun d => ?_) hlinks
    by_contra hempty
    have hread := d.roundTrip.reads []
    rw [List.length_eq_zero_iff.mp (Nat.eq_zero_of_not_pos hempty)] at hread
    cases hread
  cases t
  cases t'
  cases hg
  cases hl
  rfl

theorem find_link {t : TopologySnapshot} {key : LinkKey} {d : LinkDefinition}
    (h : t.find key = some d) : d ∈ t.links ∧ d.link = key :=
  ⟨List.mem_of_find?_eq_some h, by simpa using List.find?_some h⟩

/-- A snapshot that passes the check is within the bound of its decoder. -/
theorem length_of_validate {t : TopologySnapshot} (h : t.validate.isOk = true) :
    t.links.length ≤ kMaxTopologyLinks := by
  by_contra hgt
  simp only [validate, Nat.lt_of_not_le hgt, if_true] at h
  exact absurd h (by decide)

end TopologySnapshot

end LinkFailover
