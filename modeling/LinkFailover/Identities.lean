import LinkFailover.Decision

/-!
# Preimages of identities

An identity is the digest of a string that its fields are written to. Every field is written with
its length or at a fixed width, and an optional group behind a flag, so the string determines the
fields: two identities are mixed up only by a collision of the digest itself.

* `AttemptIdentity`, `DecisionIdentity`: the fields that an identity covers.
* `DigestBuilder.parts_inj`: a sequence of labelled fields is read back from what was hashed.
* `preimages_injective`: all three of them.
-/

namespace LinkFailover

open Codec

/-! ## Attempts -/

/-- The fields that the identity of an attempt covers. -/
structure AttemptIdentity where
  fabric : FabricName
  subject : LinkKey
  generation : LinkGeneration
  seq : AttemptSeq

namespace AttemptIdentity

def encode (i : AttemptIdentity) : Writer → Writer :=
  Writer.fields
    [.u16 kIdentityFormatVersion, .blob (text "lff.attempt") kMaxEncodedString, .name i.fabric,
      .name i.subject.fabric, .name i.subject.link, .uint i.generation, .uint i.seq]

def decode : Parser AttemptIdentity := do
  let _ ← Parser.u16
  let _ ← Parser.str
  let fabric ← Parser.str
  let subjectFabric ← Parser.str
  let subjectLink ← Parser.str
  let generation ← Parser.u64
  let seq ← Parser.u64
  let fabric ← Parser.lift (decodeName fabric)
  let subjectFabric ← Parser.lift (decodeName subjectFabric)
  let subjectLink ← Parser.lift (decodeName subjectLink)
  return ⟨fabric, ⟨subjectFabric, subjectLink⟩, ⟨generation⟩, ⟨seq⟩⟩

theorem roundTrip (i : AttemptIdentity) : RoundTrip i.encode decode i := by
  refine .cons (.u16 _) ?_
  refine .cons (.blob (by decide) (by decide)) ?_
  refine .cons (.name _) ?_
  refine .cons (.name _) ?_
  refine .cons (.name _) ?_
  refine .cons (.uint _) ?_
  refine .cons (.uint _) ?_
  refine .lift (decodeName_value _) ?_
  refine .lift (decodeName_value _) ?_
  exact .lift (decodeName_value _) (.nil _)

/-- The string that is hashed. -/
def preimage (i : AttemptIdentity) : Bytes := Writer.run i.encode

theorem preimage_injective : Function.Injective preimage :=
  fun i i' h => i.roundTrip.inj i'.roundTrip h

end AttemptIdentity

theorem computeAttemptId_eq (i : AttemptIdentity) :
    computeAttemptId i.fabric i.subject i.generation i.seq = sha256 i.preimage := rfl

/-! ## Decisions -/

/-- The fields that the identity of a decision covers. The replacement is one of them only when the
flag is up. -/
structure DecisionIdentity where
  fabric : FabricName
  subject : LinkKey
  subjectGeneration : LinkGeneration
  attemptSeq : AttemptSeq
  kind : DecisionKind
  assertion : Assertion
  lineageSeq : LineageSeq
  replacement : Option ReplacementField

namespace DecisionIdentity

def encode (i : DecisionIdentity) : Writer → Writer :=
  Writer.fields
    [.u16 kIdentityFormatVersion, .blob (text "lff.decision") kMaxEncodedString, .name i.fabric,
      .name i.subject.fabric, .name i.subject.link, .uint i.subjectGeneration,
      .uint i.attemptSeq, .u16 (WireEnum.code i.kind), .u16 (WireEnum.code i.assertion),
      .uint i.lineageSeq, .option ReplacementField.encode i.replacement]

def decode : Parser DecisionIdentity := do
  let _ ← Parser.u16
  let _ ← Parser.str
  let fabric ← Parser.str
  let subjectFabric ← Parser.str
  let subjectLink ← Parser.str
  let subjectGeneration ← Parser.u64
  let attemptSeq ← Parser.u64
  let kind ← Parser.u16
  let assertion ← Parser.u16
  let lineageSeq ← Parser.u64
  let replacement ← Parser.option ReplacementField.Raw.decode
  let fabric ← Parser.lift (decodeName fabric)
  let subjectFabric ← Parser.lift (decodeName subjectFabric)
  let subjectLink ← Parser.lift (decodeName subjectLink)
  let kind ← Parser.lift (WireEnum.ofCode? kind)
  let assertion ← Parser.lift (WireEnum.ofCode? assertion)
  let replacement ← Parser.lift (ReplacementField.Raw.check decodeName decodeName replacement)
  return ⟨fabric, ⟨subjectFabric, subjectLink⟩, ⟨subjectGeneration⟩, ⟨attemptSeq⟩, kind, assertion,
    ⟨lineageSeq⟩, replacement⟩

theorem roundTrip (i : DecisionIdentity) : RoundTrip i.encode decode i := by
  refine .cons (.u16 _) ?_
  refine .cons (.blob (by decide) (by decide)) ?_
  refine .cons (.name _) ?_
  refine .cons (.name _) ?_
  refine .cons (.name _) ?_
  refine .cons (.uint _) ?_
  refine .cons (.uint _) ?_
  refine .cons (.u16 _) ?_
  refine .cons (.u16 _) ?_
  refine .cons (.uint _) ?_
  refine .cons (.optionMap _ _ ReplacementField.roundTrip) ?_
  refine .lift (decodeName_value _) ?_
  refine .lift (decodeName_value _) ?_
  refine .lift (decodeName_value _) ?_
  refine .lift (ClosedEnum.ofCode?_code _) ?_
  refine .lift (ClosedEnum.ofCode?_code _) ?_
  refine .lift (ReplacementField.check_raw _ (fun r _ => decodeName_value _)
    fun r _ => decodeName_value _) ?_
  exact .nil _

/-- The string that is hashed. -/
def preimage (i : DecisionIdentity) : Bytes := Writer.run i.encode

theorem preimage_injective : Function.Injective preimage :=
  fun i i' h => i.roundTrip.inj i'.roundTrip h

end DecisionIdentity

def FailoverDecision.covered (d : FailoverDecision) : DecisionIdentity where
  fabric := d.fabric
  subject := d.subject
  subjectGeneration := d.subjectGeneration
  attemptSeq := d.attemptSeq
  kind := d.kind
  assertion := d.assertion
  lineageSeq := d.lineageSeq
  replacement := d.replacementField

theorem FailoverDecision.computeId_eq (d : FailoverDecision) :
    d.computeId = sha256 d.covered.preimage := rfl

/-! ## Labelled fields -/

structure DigestBuilder where
  buffer : Bytes := []

namespace DigestBuilder

/-- A field behind the lengths of its label and of its value. -/
def add (b : DigestBuilder) (label data : Bytes) : DigestBuilder where
  buffer := b.buffer ++ leBytes 4 (UInt32.ofNat label.length).toNat ++
    leBytes 8 (UInt64.ofNat data.length).toNat ++ label ++ data

def finish (b : DigestBuilder) : Digest := sha256 b.buffer

end DigestBuilder

/-- A labelled field. The lengths of both are within what they are written with. -/
structure DigestField where
  label : Bytes
  value : Bytes
  label_lt : label.length < 2 ^ 32
  value_lt : value.length < 2 ^ 64

namespace DigestField

/-- What is added for a field. -/
def bytes (f : DigestField) : Bytes :=
  leBytes 4 f.label.length ++ (leBytes 8 f.value.length ++ (f.label ++ f.value))

theorem add_eq (b : DigestBuilder) (f : DigestField) :
    (b.add f.label f.value).buffer = b.buffer ++ f.bytes := by
  rw [DigestBuilder.add, UInt32.toNat_ofNat', UInt64.toNat_ofNat', Nat.mod_eq_of_lt f.label_lt,
    Nat.mod_eq_of_lt f.value_lt, bytes]
  simp only [List.append_assoc]

/-- The string that is hashed for a sequence of fields. -/
def preimage (fs : List DigestField) : Bytes :=
  (fs.foldl (fun b f => b.add f.label f.value) ({} : DigestBuilder)).buffer

theorem preimage_eq (fs : List DigestField) : preimage fs = fs.flatMap bytes := by
  have h : ∀ b : DigestBuilder, (fs.foldl (fun b f => b.add f.label f.value) b).buffer =
      b.buffer ++ fs.flatMap bytes := by
    induction fs with
    | nil => exact fun b => (List.append_nil _).symm
    | cons f fs ih =>
      intro b
      rw [List.foldl_cons, ih, add_eq, List.flatMap_cons, List.append_assoc]
  exact h {}

theorem leBytes_inj {w n m : Nat} (hn : n < 256 ^ w) (hm : m < 256 ^ w)
    (h : leBytes w n = leBytes w m) : n = m := by
  have hvalue := congrArg leValue h
  rwa [leValue_leBytes, leValue_leBytes, Nat.mod_eq_of_lt hn, Nat.mod_eq_of_lt hm] at hvalue

/-- A field is read back from the front of any string. -/
theorem bytes_append_inj {f f' : DigestField} {rest rest' : Bytes}
    (h : f.bytes ++ rest = f'.bytes ++ rest') : f = f' ∧ rest = rest' := by
  simp only [bytes, List.append_assoc] at h
  obtain ⟨hlabelLength, h⟩ := List.append_inj h (by rw [leBytes_length, leBytes_length])
  obtain ⟨hvalueLength, h⟩ := List.append_inj h (by rw [leBytes_length, leBytes_length])
  obtain ⟨hlabel, h⟩ := List.append_inj h (leBytes_inj f.label_lt f'.label_lt hlabelLength)
  obtain ⟨hvalue, hrest⟩ := List.append_inj h (leBytes_inj f.value_lt f'.value_lt hvalueLength)
  cases f
  cases f'
  cases hlabel
  cases hvalue
  exact ⟨rfl, hrest⟩

theorem bytes_ne_nil (f : DigestField) : f.bytes ≠ [] := by
  intro h
  have hlength := congrArg List.length h
  rw [bytes, List.length_append, leBytes_length, List.length_nil] at hlength
  omega

/-- By induction on the fields: each one is read back, and then the rest. -/
theorem preimage_injective : Function.Injective preimage := by
  intro fs fs' h
  rw [preimage_eq, preimage_eq] at h
  induction fs generalizing fs' with
  | nil =>
    cases fs' with
    | nil => rfl
    | cons f' fs' =>
      rw [List.flatMap_nil, List.flatMap_cons] at h
      exact absurd (List.append_eq_nil_iff.mp h.symm).1 f'.bytes_ne_nil
  | cons f fs ih =>
    cases fs' with
    | nil =>
      rw [List.flatMap_nil, List.flatMap_cons] at h
      exact absurd (List.append_eq_nil_iff.mp h).1 f.bytes_ne_nil
    | cons f' fs' =>
      rw [List.flatMap_cons, List.flatMap_cons] at h
      obtain ⟨rfl, hrest⟩ := bytes_append_inj h
      rw [ih hrest]

end DigestField

/-- The strings that are hashed for the identity of an attempt, of a decision and of a sequence of
labelled fields determine the fields that they cover. -/
theorem preimages_injective :
    ((∀ i : AttemptIdentity, computeAttemptId i.fabric i.subject i.generation i.seq =
        sha256 i.preimage) ∧ Function.Injective AttemptIdentity.preimage) ∧
    ((∀ d : FailoverDecision, d.computeId = sha256 d.covered.preimage) ∧
      Function.Injective DecisionIdentity.preimage) ∧
    (∀ fs, (fs.foldl (fun b f => b.add f.label f.value) ({} : DigestBuilder)).finish =
        sha256 (DigestField.preimage fs)) ∧ Function.Injective DigestField.preimage :=
  ⟨⟨computeAttemptId_eq, AttemptIdentity.preimage_injective⟩,
    ⟨FailoverDecision.computeId_eq, DecisionIdentity.preimage_injective⟩,
    fun _ => rfl, DigestField.preimage_injective⟩

end LinkFailover
