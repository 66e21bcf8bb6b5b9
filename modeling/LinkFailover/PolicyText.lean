import LinkFailover.Policy
import LinkFailover.Lib.Lines

/-!
# Policies as text

A policy is written as lines of a key and a value. The parser starts from the policy that is there
and takes over the fields whose keys it finds, so a text need not name them all.

* `failoverPolicyParse_lines`: the parser goes over the lines of any text and comes to its end.
* `policyText_roundTrip`: what is written for a valid policy is read back, whatever was there
  before.
-/

namespace LinkFailover

open Codec

/-! ## Values -/

def checkedMulU64 (a b : UInt64) : Option UInt64 :=
  if a != 0 && b > 0xFFFFFFFFFFFFFFFF / a then none else some (a * b)

/-- One digit behind a value. -/
def parseDigit (value : UInt64) (ch : UInt8) : Option UInt64 :=
  if ch < 48 || ch > 57 then none
  else do
    let next ← checkedMulU64 value 10
    checkedAddU64 next (ch - 48).toUInt64

def parseU64 (text : Bytes) : Option UInt64 :=
  if text.isEmpty || text.length > 20 then none else text.foldlM parseDigit 0

/-- A number that is not above a bound. -/
def parseBounded (bound : UInt32) (text : Bytes) : Option UInt32 := do
  let number ← parseU64 text
  if number > bound.toUInt64 then none else some number.toUInt32

def parseBool (value : Bytes) : Option Bool :=
  if value = text "true" || value = text "1" then some true
  else if value = text "false" || value = text "0" then some false
  else none

def kAgreementNames : List (AgreementRule × Bytes) :=
  [(.unanimous, text "unanimous"), (.majorityOfFreshQualified, text "majority")]

def agreementRuleName (value : AgreementRule) : Bytes :=
  ((kAgreementNames.find? fun entry => entry.1 = value).map fun entry => entry.2).getD
    (text "UnrecognisedAgreementRule")

def agreementRuleParse (value : Bytes) : Option AgreementRule :=
  (kAgreementNames.find? fun entry => entry.2 = value).map fun entry => entry.1

def flagText (b : Bool) : Bytes := if b then text "true" else text "false"

/-! ## The text -/

/-- The keys and the values of a policy, in the order in which they are written. -/
def FailoverPolicy.entries (p : FailoverPolicy) : List (Bytes × Bytes) :=
  [(text "generation", decimal p.generation.toNat),
    (text "min_failure_confidence", decimal p.minFailureConfidence.value.toNat),
    (text "min_replacement_confidence", decimal p.minReplacementConfidence.value.toNat),
    (text "evidence_max_age_ticks", decimal p.evidenceMaxAgeTicks.toNat),
    (text "min_replacement_capacity", decimal p.minReplacementCapacity.toNat),
    (text "require_subject_capacity", flagText p.requireSubjectCapacity),
    (text "require_adjacency_authorization", flagText p.requireAdjacencyAuthorization),
    (text "allow_degraded_replacement", flagText p.allowDegradedReplacement),
    (text "treat_degraded_as_failed", flagText p.treatDegradedAsFailed),
    (text "agreement", agreementRuleName p.agreement),
    (text "max_attempts_per_generation", decimal p.maxAttemptsPerGeneration.toNat),
    (text "max_candidates", decimal p.maxCandidates.toNat),
    (text "max_retained_attempts", decimal p.maxRetainedAttempts.toNat),
    (text "require_verified_effect", flagText p.requireVerifiedEffect),
    (text "failover_enabled", flagText p.failoverEnabled)]

/-- A key and a value with an equals sign between them. -/
def policyLine (entry : Bytes × Bytes) : Bytes := entry.1 ++ 61 :: entry.2

def failoverPolicyToString (p : FailoverPolicy) : Bytes :=
  (p.entries.map policyLine).flatMap fun line => line ++ [10]

/-- The field of a key, with a value that it can hold. -/
def FailoverPolicy.assign (p : FailoverPolicy) (key value : Bytes) : Option FailoverPolicy :=
  if key = text "generation" then
    (parseU64 value).map fun number => { p with generation := ⟨number⟩ }
  else if key = text "min_failure_confidence" then
    (parseBounded kMaxConfidence value).map fun number =>
      { p with minFailureConfidence := ⟨number⟩ }
  else if key = text "min_replacement_confidence" then
    (parseBounded kMaxConfidence value).map fun number =>
      { p with minReplacementConfidence := ⟨number⟩ }
  else if key = text "evidence_max_age_ticks" then
    (parseU64 value).map fun number => { p with evidenceMaxAgeTicks := number }
  else if key = text "min_replacement_capacity" then
    (parseBounded 0xFFFFFFFF value).map fun number => { p with minReplacementCapacity := number }
  else if key = text "require_subject_capacity" then
    (parseBool value).map fun flag => { p with requireSubjectCapacity := flag }
  else if key = text "require_adjacency_authorization" then
    (parseBool value).map fun flag => { p with requireAdjacencyAuthorization := flag }
  else if key = text "allow_degraded_replacement" then
    (parseBool value).map fun flag => { p with allowDegradedReplacement := flag }
  else if key = text "treat_degraded_as_failed" then
    (parseBool value).map fun flag => { p with treatDegradedAsFailed := flag }
  else if key = text "agreement" then
    (agreementRuleParse value).map fun rule => { p with agreement := rule }
  else if key = text "max_attempts_per_generation" then
    (parseBounded 0xFFFFFFFF value).map fun number => { p with maxAttemptsPerGeneration := number }
  else if key = text "max_candidates" then
    (parseBounded 0xFFFFFFFF value).map fun number => { p with maxCandidates := number }
  else if key = text "max_retained_attempts" then
    (parseBounded 0xFFFFFFFF value).map fun number => { p with maxRetainedAttempts := number }
  else if key = text "require_verified_effect" then
    (parseBool value).map fun flag => { p with requireVerifiedEffect := flag }
  else if key = text "failover_enabled" then
    (parseBool value).map fun flag => { p with failoverEnabled := flag }
  else none

/-- Space, tab and carriage return. -/
def isBlank (ch : UInt8) : Bool := ch == 32 || ch == 9 || ch == 13

def trim (text : Bytes) : Bytes := Lines.trim isBlank text

/-- Empty lines and comments are skipped. -/
def FailoverPolicy.parseLine (p : FailoverPolicy) (raw : Bytes) : Option FailoverPolicy :=
  let line := trim raw
  if line.isEmpty || line.head? = some 35 then some p
  else
    match line.findIdx? (· == 61) with
    | none => none
    | some equals => p.assign (trim (line.take equals)) (trim (line.drop (equals + 1)))

/-- Whether the text was taken, and what the output holds afterwards; nothing when the rounds did
not suffice for the loop. -/
def failoverPolicyParse (rounds : Nat) (text : Bytes) (out : FailoverPolicy) :
    Option (Bool × FailoverPolicy) :=
  (Lines.scan 10 text FailoverPolicy.parseLine rounds 0 out).map fun policy =>
    match policy with
    | none => (false, out)
    | some policy => (true, policy)

/-! ## Numbers are read back -/

theorem text_digit {c : Char} (h : c.isDigit = true) :
    (UInt8.ofNat c.toNat).toNat = c.toNat ∧ 48 ≤ c.toNat ∧ c.toNat ≤ 57 := by
  have hc : 48 ≤ c.toNat ∧ c.toNat ≤ 57 := Char.isDigit_iff_toNat.mp h
  refine ⟨?_, hc⟩
  rw [UInt8.toNat_ofNat', Nat.mod_eq_of_lt (by omega)]

theorem decimal_eq (n : Nat) :
    decimal n = (Nat.toDigits 10 n).map fun c => UInt8.ofNat c.toNat := by
  rw [decimal, text, Nat.toList_repr]

theorem decimal_digits {n : Nat} {b : UInt8} (h : b ∈ decimal n) :
    48 ≤ b.toNat ∧ b.toNat ≤ 57 := by
  rw [decimal_eq] at h
  obtain ⟨c, hc, rfl⟩ := List.mem_map.mp h
  obtain ⟨heq, hle⟩ := text_digit (Nat.isDigit_of_mem_toDigits (by decide) (by decide) hc)
  rwa [heq]

theorem checkedMulU64_eq {a b : UInt64} (h : a.toNat * b.toNat < 2 ^ 64) :
    checkedMulU64 a b = some (a * b) := by
  rw [checkedMulU64, if_neg]
  intro hover
  rw [Bool.and_eq_true, bne_iff_ne, decide_eq_true_eq, gt_iff_lt, UInt64.lt_iff_toNat_lt,
    UInt64.toNat_div] at hover
  obtain ⟨hne, hlt⟩ := hover
  have hpos : 0 < a.toNat := Nat.pos_of_ne_zero fun h0 => hne (UInt64.toNat_inj.mp h0)
  have hmul := (Nat.div_lt_iff_lt_mul hpos).mp hlt
  have hmax : (0xFFFFFFFFFFFFFFFF : UInt64).toNat = 2 ^ 64 - 1 := rfl
  rw [Nat.mul_comm] at hmul
  omega

theorem checkedAddU64_eq {a b : UInt64} (h : a.toNat + b.toNat < 2 ^ 64) :
    checkedAddU64 a b = some (a + b) := by
  rw [checkedAddU64, if_neg]
  intro hover
  rw [gt_iff_lt, UInt64.lt_iff_toNat_lt, UInt64.toNat_sub_of_le _ _
    (UInt64.le_iff_toNat_le.mpr (Nat.le_pred_of_lt b.toNat_lt))] at hover
  have hmax : (0xFFFFFFFFFFFFFFFF : UInt64).toNat = 2 ^ 64 - 1 := rfl
  omega

theorem parseDigit_eq {n d : Nat} (hd : d < 10) (h : 10 * n + d < 2 ^ 64) :
    parseDigit (UInt64.ofNat n) (UInt8.ofNat d.digitChar.toNat) =
      some (UInt64.ofNat (10 * n + d)) := by
  have hchar : (UInt8.ofNat d.digitChar.toNat).toNat = 48 + d := by
    rw [Nat.toNat_digitChar_of_lt_ten hd, UInt8.toNat_ofNat', Nat.mod_eq_of_lt (by omega)]
  have hn : (UInt64.ofNat n).toNat = n := UInt64.toNat_ofNat_of_lt' (Nat.lt_of_le_of_lt (by omega) h)
  have hdigit : (UInt8.ofNat d.digitChar.toNat - 48).toUInt64.toNat = d := by
    rw [UInt8.toNat_toUInt64, UInt8.toNat_sub_of_le _ _
      (UInt8.le_iff_toNat_le.mpr (by rw [hchar]; exact Nat.le_add_right 48 d)), hchar]
    exact Nat.add_sub_cancel_left 48 d
  have hrange : ¬(decide (UInt8.ofNat d.digitChar.toNat < 48) ||
      decide (UInt8.ofNat d.digitChar.toNat > 57)) = true := by
    rw [Bool.or_eq_true, decide_eq_true_eq, decide_eq_true_eq, gt_iff_lt, UInt8.lt_iff_toNat_lt,
      UInt8.lt_iff_toNat_lt, hchar]
    have h48 : (48 : UInt8).toNat = 48 := rfl
    have h57 : (57 : UInt8).toNat = 57 := rfl
    omega
  have h10 : (10 : UInt64).toNat = 10 := rfl
  have hmul : (UInt64.ofNat n * 10).toNat = n * 10 := by
    rw [UInt64.toNat_mul, hn, h10, Nat.mod_eq_of_lt (by omega)]
  rw [parseDigit, if_neg hrange, checkedMulU64_eq (by rw [hn, h10]; omega), Option.bind_eq_bind,
    Option.bind_some, checkedAddU64_eq (by rw [hmul, hdigit]; omega), Option.some_inj,
    ← UInt64.toNat_inj, UInt64.toNat_add, hmul, hdigit, UInt64.toNat_ofNat_of_lt' h,
    Nat.mod_eq_of_lt (by omega)]
  omega

/-- By induction on the number: the last digit stands behind those of the tenth. -/
theorem foldlM_decimal {n : Nat} (h : n < 2 ^ 64) :
    (decimal n).foldlM parseDigit 0 = some (UInt64.ofNat n) := by
  rw [decimal_eq]
  induction n using Nat.strongRecOn with
  | ind n ih =>
    by_cases hn : n < 10
    · rw [Nat.toDigits_of_lt_base hn, List.map_singleton, List.foldlM_cons]
      have hdigit := parseDigit_eq (n := 0) hn (by omega)
      rw [Nat.mul_zero, Nat.zero_add] at hdigit
      rw [show (0 : UInt64) = UInt64.ofNat 0 from rfl, hdigit]
      rfl
    · rw [Nat.toDigits_of_base_le (by decide) (Nat.le_of_not_lt hn), List.map_append,
        List.foldlM_append, ih (n / 10) (by omega) (by omega), List.map_singleton,
        Option.bind_eq_bind, Option.bind_some, List.foldlM_cons,
        parseDigit_eq (Nat.mod_lt n (by decide)) (by omega), Nat.div_add_mod]
      rfl

theorem parseU64_decimal (n : UInt64) : parseU64 (decimal n.toNat) = some n := by
  have hlength : (decimal n.toNat).length ≤ 20 := by
    rw [decimal_eq, List.length_map, Nat.length_toDigits_le_iff (by decide) (by decide)]
    exact Nat.lt_trans n.toNat_lt (by decide)
  have hne : decimal n.toNat ≠ [] := by
    rw [decimal_eq]
    exact fun h => Nat.toDigits_ne_nil (List.map_eq_nil_iff.mp h)
  rw [parseU64, if_neg, foldlM_decimal n.toNat_lt, UInt64.ofNat_toNat]
  rw [Bool.or_eq_true, List.isEmpty_iff, decide_eq_true_eq]
  exact fun h => h.elim hne (Nat.not_lt_of_le hlength)

theorem parseBounded_decimal {bound n : UInt32} (h : n ≤ bound) :
    parseBounded bound (decimal n.toNat) = some n := by
  have hparse := parseU64_decimal n.toUInt64
  rw [UInt32.toNat_toUInt64] at hparse
  rw [parseBounded, hparse, Option.bind_eq_bind, Option.bind_some, if_neg, UInt32.toUInt32_toUInt64]
  rw [gt_iff_lt, UInt64.lt_iff_toNat_lt, UInt32.toNat_toUInt64, UInt32.toNat_toUInt64]
  exact Nat.not_lt_of_le (UInt32.le_iff_toNat_le.mp h)

theorem parseBool_flagText (b : Bool) : parseBool (flagText b) = some b := by
  cases b <;> decide

theorem agreementRuleParse_name {rule : AgreementRule} (h : WireEnum.Declared rule) :
    agreementRuleParse (agreementRuleName rule) = some rule := by
  cases rule with
  | undeclared number => exact absurd h (WireEnum.not_declared rfl)
  | _ => decide

/-! ## Lines are read back -/

/-- A key or a value as the writer has it: nothing in it is a blank, an equals sign, or the end of a
line. -/
def Plain (t : Bytes) : Prop := ∀ ch ∈ t, isBlank ch = false ∧ ch ≠ 61 ∧ ch ≠ 10

instance (t : Bytes) : Decidable (Plain t) := List.decidableBAll _ t

theorem Plain.trim_eq {t : Bytes} (h : Plain t) : trim t = t :=
  Lines.trim_of_none fun ch hch => (h ch hch).1

theorem plain_decimal (n : Nat) : Plain (decimal n) := by
  intro ch hch
  obtain ⟨hlow, hhigh⟩ := decimal_digits hch
  have hne : ∀ k : UInt8, k.toNat < 48 → ch ≠ k := by
    rintro k hk rfl
    exact Nat.not_le_of_lt hk hlow
  refine ⟨?_, ?_, hne 10 (by decide)⟩
  · rw [isBlank, beq_eq_false_iff_ne.mpr (hne 32 (by decide)),
      beq_eq_false_iff_ne.mpr (hne 9 (by decide)), beq_eq_false_iff_ne.mpr (hne 13 (by decide))]
    rfl
  · rintro rfl
    exact absurd hhigh (by decide)

theorem plain_flagText (b : Bool) : Plain (flagText b) := by
  cases b <;> decide

theorem agreementRuleName_undeclared (number : Undeclared 2) :
    agreementRuleName (.undeclared number) = text "UnrecognisedAgreementRule" := by
  simp [agreementRuleName, kAgreementNames]

theorem plain_agreementRuleName (rule : AgreementRule) : Plain (agreementRuleName rule) := by
  cases rule with
  | undeclared number =>
    rw [agreementRuleName_undeclared]
    decide
  | _ => decide

/-- What the loop does with a line that was written for an entry. -/
theorem FailoverPolicy.parseLine_entry (p : FailoverPolicy) {key value : Bytes}
    (hkey : Plain key) (hvalue : Plain value) (hne : key ≠ []) (hhash : key.head? ≠ some 35) :
    p.parseLine (policyLine (key, value)) = p.assign key value := by
  have htrim : trim (policyLine (key, value)) = policyLine (key, value) := by
    refine Lines.trim_of_none fun ch hch => ?_
    rcases List.mem_append.mp hch with hch | hch
    · exact (hkey ch hch).1
    · rcases List.mem_cons.mp hch with rfl | hch
      · rfl
      · exact (hvalue ch hch).1
  have hskip : ¬((policyLine (key, value)).isEmpty ||
      decide ((policyLine (key, value)).head? = some 35)) = true := by
    rw [policyLine, Bool.or_eq_true, List.isEmpty_iff, decide_eq_true_eq,
      List.head?_append_of_ne_nil _ hne]
    exact fun h => h.elim (fun h => hne (List.append_eq_nil_iff.mp h).1) hhash
  have hequals : (policyLine (key, value)).findIdx? (· == 61) = some key.length := by
    rw [policyLine, List.findIdx?_append, List.findIdx?_eq_none_iff.mpr fun ch hch =>
      beq_eq_false_iff_ne.mpr (hkey ch hch).2.1]
    exact congrArg some (Nat.zero_add key.length)
  rw [parseLine, htrim, if_neg hskip, hequals]
  change p.assign (trim ((key ++ 61 :: value).take key.length))
    (trim ((key ++ 61 :: value).drop (key.length + 1))) = _
  rw [List.take_left, List.drop_append, List.drop_eq_nil_of_le (Nat.le_succ _),
    Nat.add_sub_cancel_left, List.nil_append, List.drop_one, List.tail_cons, hkey.trim_eq,
    hvalue.trim_eq]

/-- The keys are plain, not empty, and no comments. -/
theorem FailoverPolicy.entries_plain (p : FailoverPolicy) {entry : Bytes × Bytes}
    (h : entry ∈ p.entries) : Plain entry.1 ∧ Plain entry.2 ∧ entry.1 ≠ [] ∧
      entry.1.head? ≠ some 35 := by
  have hkeys : ∀ key ∈ p.entries.map fun entry => entry.1,
      Plain key ∧ key ≠ [] ∧ key.head? ≠ some 35 := by
    have hsame : (p.entries.map fun entry => entry.1) =
        ({} : FailoverPolicy).entries.map fun entry => entry.1 := by
      simp only [entries, List.map_cons, List.map_nil]
    rw [hsame]
    decide
  have hvalues : ∀ value ∈ p.entries.map fun entry => entry.2, Plain value := by
    simp only [entries, List.map_cons, List.map_nil, List.forall_mem_cons]
    exact ⟨plain_decimal _, plain_decimal _, plain_decimal _, plain_decimal _, plain_decimal _,
      plain_flagText _, plain_flagText _, plain_flagText _, plain_flagText _,
      plain_agreementRuleName _, plain_decimal _, plain_decimal _, plain_decimal _,
      plain_flagText _, plain_flagText _, List.forall_mem_nil _⟩
  obtain ⟨hkey, hne, hhash⟩ := hkeys _ (List.mem_map_of_mem h)
  exact ⟨hkey, hvalues _ (List.mem_map_of_mem h), hne, hhash⟩

/-! ## Texts are read back -/

/-- The parser goes over the lines of any text, and it comes to its end. -/
theorem failoverPolicyParse_lines {rounds : Nat} {text : Bytes} (h : text.length + 2 ≤ rounds)
    (out : FailoverPolicy) : failoverPolicyParse rounds text out =
      some (match (text.splitOn 10).foldlM FailoverPolicy.parseLine out with
        | none => (false, out)
        | some policy => (true, policy)) := by
  rw [failoverPolicyParse, Lines.terminates h]
  rfl

/-- What is refused leaves the output as it was. -/
theorem failoverPolicyParse_refused {rounds : Nat} {text : Bytes} {out after : FailoverPolicy}
    (h : failoverPolicyParse rounds text out = some (false, after)) : after = out := by
  obtain ⟨policy, -, heq⟩ := Option.map_eq_some_iff.mp h
  cases policy with
  | none => exact (congrArg Prod.snd heq).symm
  | some policy => exact absurd (congrArg Prod.fst heq) Bool.true_eq_false.mp

/-- The entries of a policy are taken over one after the other. -/
theorem FailoverPolicy.foldlM_lines (p out : FailoverPolicy) :
    (p.entries.map policyLine).foldlM parseLine out =
      p.entries.foldlM (fun q entry => q.assign entry.1 entry.2) out := by
  rw [List.foldlM_map]
  have h : ∀ entries : List (Bytes × Bytes), (∀ entry ∈ entries, entry ∈ p.entries) →
      ∀ out : FailoverPolicy, entries.foldlM (fun q entry => q.parseLine (policyLine entry)) out =
        entries.foldlM (fun q entry => q.assign entry.1 entry.2) out := by
    intro entries hentries
    induction entries with
    | nil => exact fun _ => rfl
    | cons entry entries ih =>
      intro out
      obtain ⟨hkey, hvalue, hne, hhash⟩ := p.entries_plain (hentries entry List.mem_cons_self)
      rw [List.foldlM_cons, List.foldlM_cons, parseLine_entry out hkey hvalue hne hhash]
      exact congrArg _ (funext fun q => ih (fun e he => hentries e (List.mem_cons_of_mem _ he)) q)
  exact h _ (fun _ h => h) out

theorem FailoverPolicy.foldlM_assign {p : FailoverPolicy} (h : p.validate.isOk = true)
    (hd : WireEnum.Declared p.agreement) (out : FailoverPolicy) :
    p.entries.foldlM (fun q entry => q.assign entry.1 entry.2) out = some p := by
  have hbounds : p.minFailureConfidence.value ≤ kMaxConfidence ∧
      p.minReplacementConfidence.value ≤ kMaxConfidence := by
    refine ⟨UInt32.not_lt.mp fun hlt => ?_, UInt32.not_lt.mp fun hlt => ?_⟩
    · rw [validate, if_pos hlt] at h
      exact absurd h (by decide)
    · rw [validate] at h
      split at h
      · exact absurd h (by decide)
      · exact absurd (h : (rejected "min_replacement_confidence out of range").isOk = true)
          (by decide)
  have hword : ∀ n : UInt32, parseBounded 0xFFFFFFFF (decimal n.toNat) = some n := fun n =>
    parseBounded_decimal (UInt32.le_iff_toNat_le.mpr (Nat.le_pred_of_lt n.toNat_lt))
  simp +decide only [entries, List.foldlM_cons, List.foldlM_nil, assign, if_true, if_false,
    StrongUint.toNat, parseU64_decimal, parseBounded_decimal hbounds.1,
    parseBounded_decimal hbounds.2, hword, parseBool_flagText, agreementRuleParse_name hd,
    Option.map_some, Option.bind_eq_bind, Option.bind_some]
  rfl

theorem policyText_splitOn (p : FailoverPolicy) :
    (failoverPolicyToString p).splitOn 10 = p.entries.map policyLine ++ [[]] := by
  refine Lines.splitOn_lines fun line hline hmem => ?_
  obtain ⟨entry, hentry, rfl⟩ := List.mem_map.mp hline
  obtain ⟨hkey, hvalue, -⟩ := p.entries_plain hentry
  rcases List.mem_append.mp hmem with h | h
  · exact (hkey _ h).2.2 rfl
  · rcases List.mem_cons.mp h with h | h
    · exact absurd h (by decide)
    · exact (hvalue _ h).2.2 rfl

/-- What is written for a policy that passes its check and has a declared agreement rule is read
back, whatever the output held before; a text that is refused leaves the output alone; and every
text comes to its end. The name that is written for any other rule is refused. -/
theorem policyText_roundTrip (p out : FailoverPolicy) (hp : p.validate.isOk = true)
    (hd : WireEnum.Declared p.agreement) :
    (∀ rounds, (failoverPolicyToString p).length + 2 ≤ rounds →
      failoverPolicyParse rounds (failoverPolicyToString p) out = some (true, p)) ∧
    (∀ rounds text after, failoverPolicyParse rounds text out = some (false, after) →
      after = out) ∧
    ∀ rounds text, text.length + 2 ≤ rounds →
      (failoverPolicyParse rounds text out).isSome = true := by
  refine ⟨fun rounds hrounds => ?_, fun rounds text after => failoverPolicyParse_refused,
    fun rounds text hrounds => ?_⟩
  · rw [failoverPolicyParse_lines hrounds, policyText_splitOn, List.foldlM_append,
      FailoverPolicy.foldlM_lines, FailoverPolicy.foldlM_assign hp hd]
    rfl
  · rw [failoverPolicyParse_lines hrounds]
    rfl

theorem policyText_sample :
    failoverPolicyParse 520 (failoverPolicyToString { generation := ⟨0xFFFFFFFFFFFFFFFF⟩ })
      { failoverEnabled := false } = some (true, { generation := ⟨0xFFFFFFFFFFFFFFFF⟩ }) :=
  (policyText_roundTrip _ _ rfl (by decide)).1 520 (by decide +kernel)

end LinkFailover
