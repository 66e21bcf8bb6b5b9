import LinkFailover.Applications
import LinkFailover.Identities
import LinkFailover.Lib.Separators
import LinkFailover.PolicyText
import LinkFailover.Responses

/-!
# The worker

The worker is a process of its own, with an incarnation of its own. It claims the directives of the
coordinator, writes an effect record for each of them into its directory, reports the
acknowledgement, reads the record back and reports the verification. Each of its calls is one step
of the coordinator while the worker waits for it, and each can be lost with its request or with its
answer, which ends the worker. One worker runs at a time: the next one is started when the one
before it has ended or has died.

* `effectPath`, `effectText`: the effect record of a directive.
* `Worker.Stage`: where a worker stands in its rounds.
* `Fleet.step`: the coordinator and a worker, among whatever else happens.
* `effectPath_inj`: which directives share a record.
-/

namespace LinkFailover

open Codec

/-! ## Effect records -/

def LinkKey.toText (k : LinkKey) : Bytes := k.fabric.value ++ [47] ++ k.link.value

def AuthorityVector.digest (v : AuthorityVector) : Digest := sha256 (Writer.run v.encode)

def effectText (d : ApplyDirective) (worker : Bytes) : Bytes :=
  text "subject=" ++ d.subject.toText ++ [10] ++
  text "subject_generation=" ++ decimal d.subjectGeneration.toNat ++ [10] ++
  text "replacement=" ++ d.replacement.toText ++ [10] ++
  text "replacement_generation=" ++ decimal d.replacementGeneration.toNat ++ [10] ++
  text "attempt_seq=" ++ decimal d.attemptSeq.toNat ++ [10] ++
  text "attempt_id=" ++ hex d.attemptId.bytes ++ [10] ++
  text "authority=" ++ hex d.authority.digest.bytes ++ [10] ++
  text "worker=" ++ worker ++ [10]

/-- The name of an effect record. -/
def effectName (d : ApplyDirective) : Bytes :=
  d.subject.fabric.value ++ [95] ++ d.subject.link.value ++ [95] ++
    decimal d.subjectGeneration.toNat ++ [95] ++ decimal d.attemptSeq.toNat ++ text ".applied"

/-- A directory, closed by a separator. -/
def closedDirectory (directory : Bytes) : Bytes :=
  match directory.getLast? with
  | none => directory
  | some ch => if ch ≠ 47 ∧ ch ≠ 92 then directory ++ [47] else directory

def effectPath (directory : Bytes) (d : ApplyDirective) : Bytes :=
  closedDirectory directory ++ effectName d

/-- The files of the effect directory. -/
abbrev Effects := List (Bytes × Bytes)

namespace Effects

def read (files : Effects) (path : Bytes) : Option Bytes := files.lookup path

def write (files : Effects) (path content : Bytes) : Effects :=
  (path, content) :: files.filter fun file => file.1 ≠ path

end Effects

namespace Effects

variable {files : Effects} {path other content : Bytes}

theorem read_write : (files.write path content).read path = some content := by
  rw [read, write, List.lookup_cons_self]

theorem read_write_of_ne (h : other ≠ path) :
    (files.write path content).read other = files.read other := by
  rw [read, write, List.lookup_cons, beq_false_of_ne h, read]
  induction files with
  | nil => rfl
  | cons file files ih =>
    by_cases hf : file.1 = path
    · rw [List.filter_cons_of_neg (by simpa using hf), List.lookup_cons,
        beq_false_of_ne (hf ▸ h)]
      exact ih
    · rw [List.filter_cons_of_pos (by simpa using hf), List.lookup_cons, List.lookup_cons]
      cases other == file.1 with
      | true => rfl
      | false => exact ih

end Effects

theorem decimal_inj {m n : Nat} (hm : m < 2 ^ 64) (hn : n < 2 ^ 64) (h : decimal m = decimal n) :
    m = n := by
  have hread := foldlM_decimal hm
  rw [h, foldlM_decimal hn, Option.some_inj, ← UInt64.toNat_inj,
    UInt64.toNat_ofNat_of_lt' hn, UInt64.toNat_ofNat_of_lt' hm] at hread
  exact hread.symm

theorem underscore_not_mem (n : Nat) : (95 : UInt8) ∉ decimal n := fun h => by
  have := (decimal_digits h).2
  revert this
  decide

/-- Directives of one fabric that share a record are about one attempt: the numbers stand behind
the last two separators, whatever the link is called. -/
theorem effectPath_inj {directory : Bytes} {d d' : ApplyDirective}
    (hf : d.subject.fabric = d'.subject.fabric)
    (h : effectPath directory d = effectPath directory d') : d.identity = d'.identity := by
  have hname : effectName d = effectName d' := List.append_cancel_left h
  unfold effectName at hname
  rw [hf] at hname
  have hparts := List.append_cancel_right hname
  rw [List.append_assoc _ [95], List.append_assoc _ [95] (decimal d'.attemptSeq.toNat)] at hparts
  obtain ⟨hrest, hseq⟩ := Separators.append_sep_inj (underscore_not_mem _) (underscore_not_mem _)
    hparts
  rw [List.append_assoc _ [95], List.append_assoc _ [95] (decimal d'.subjectGeneration.toNat)]
    at hrest
  obtain ⟨hlink, hgeneration⟩ := Separators.append_sep_inj (underscore_not_mem _)
    (underscore_not_mem _) hrest
  have hname : d.subject.link = d'.subject.link := StrongName.ext (List.append_cancel_left hlink)
  have hsubject : d.subject = d'.subject := by
    cases hd : d.subject
    cases hd' : d'.subject
    rw [hd, hd'] at hf hname
    cases hf
    cases hname
    rfl
  have hg : d.subjectGeneration = d'.subjectGeneration :=
    StrongUint.toNat_inj.mp (decimal_inj (UInt64.toNat_lt _) (UInt64.toNat_lt _) hgeneration)
  have hk : d.attemptSeq = d'.attemptSeq :=
    StrongUint.toNat_inj.mp (decimal_inj (UInt64.toNat_lt _) (UInt64.toNat_lt _) hseq)
  rw [ApplyDirective.identity, ApplyDirective.identity, hsubject, hg, hk]

/-- How the writing of a file ends: well, before the file was opened, or behind so many bytes. -/
inductive WriteEnd where
  | whole
  | unopened
  | short (n : Nat)

/-- Writes the effect record of a directive, over the one that may be there. -/
def writeEffect (files : Effects) (directory : Bytes) (d : ApplyDirective) (worker : Bytes) :
    WriteEnd → Effects × Option Bytes
  | .whole =>
    (files.write (effectPath directory d) (effectText d worker), some (effectPath directory d))
  | .unopened => (files, none)
  | .short n => (files.write (effectPath directory d) ((effectText d worker).take n), none)

/-- An effect record counts as read back when it is there and has anything in it. -/
def readEffect (files : Effects) (path : Bytes) : Bool :=
  match files.read path with
  | none => false
  | some content => !content.isEmpty

/-! ## The worker -/

structure WorkerOptions where
  effectDir : Bytes
  worker : Bytes := text "synthetic-worker"
  iterations : UInt64 := 0
  reject : Bool := false
  verify : Bool := true

inductive ExitCode where
  | ok
  | transport
  deriving DecidableEq

/-- Where a worker stands: in front of a claim, among the directives it claimed, behind the effect
of one of them, behind its acknowledgement, or at its end. -/
inductive Stage where
  | claiming
  | directed (todo : List ApplyDirective)
  | applied (d : ApplyDirective) (path : Bytes) (todo : List ApplyDirective)
  | acknowledged (d : ApplyDirective) (path : Bytes) (todo : List ApplyDirective)
  | ended (code : ExitCode)

/-- A worker with the incarnation that its client has generated, and what it heard of the
coordinator when it connected. -/
structure Worker where
  options : WorkerOptions
  incarnation : Incarnation
  coordinator : Incarnation
  epoch : Epoch
  round : UInt64 := 0
  stage : Stage := .claiming

namespace Worker

/-- The report of an effect, or of its refusal. -/
def application (w : Worker) (d : ApplyDirective) (accepted : Bool) : ApplicationReport where
  subject := d.subject
  subjectGeneration := d.subjectGeneration
  attemptSeq := d.attemptSeq
  attemptId := d.attemptId
  applierIncarnation := w.incarnation
  applierEpoch := w.epoch
  accepted := accepted
  detail := text (if accepted then "synthetic apply" else "synthetic rejection")

def verification (w : Worker) (d : ApplyDirective) (observed : Bool) : VerificationReport where
  subject := d.subject
  subjectGeneration := d.subjectGeneration
  attemptSeq := d.attemptSeq
  attemptId := d.attemptId
  verifierIncarnation := w.incarnation
  verifierEpoch := w.epoch
  effectObserved := observed
  detail := text (if observed then "effect record read back" else "effect record missing")

end Worker

/-- A report of a worker. -/
inductive WorkerReport where
  | application (report : ApplicationReport)
  | verification (report : VerificationReport)

namespace WorkerReport

def call : WorkerReport → Call
  | application report => .recordApplication report
  | verification report => .recordVerification report

def operation : WorkerReport → Operation
  | application report => .recordApplication report
  | verification report => .recordVerification report

end WorkerReport

/-- Whether a call of the worker brought a decision. -/
def CallAnswer.decided : CallAnswer → Bool
  | .decision (.ok _) => true
  | _ => false

/-- The directives that a claim brought. -/
def CallAnswer.claimed : CallAnswer → Option (List ApplyDirective)
  | .directives (.ok claimed) => some claimed
  | _ => none

/-! ## The worker and the coordinator -/

/-- How a call ends: with an answer, carried out without one, or lost on the way there. -/
inductive CallEnd where
  | answered
  | unheard
  | unasked
  deriving DecidableEq

/-- What a step of the worker meets: how its write and its call end, and whether the exit file is
there. -/
structure Fate where
  write : WriteEnd := .whole
  call : CallEnd := .answered
  exitFile : Bool := false

/-- The coordinator with its directory, the worker that runs at the moment, if there is one, and the
files that the workers have written. -/
structure Fleet where
  system : System := .down {}
  files : Effects := []
  worker : Option Worker := none

inductive FleetAction where
  /-- Anything the coordinator does, and anything others make it do. -/
  | system (a : Action)
  /-- A worker is started, with a new incarnation, and connects. The one before it is gone. -/
  | connect (o : WorkerOptions) (incarnation : Incarnation)
  /-- The worker goes on. -/
  | work (fate : Fate)
  /-- The worker dies. -/
  | crash

namespace Fleet

/-- The coordinator that a worker is connected to, as long as it lives. -/
def coordinator (f : Fleet) (w : Worker) : Option Engine :=
  match f.system with
  | .up e => if e.epoch = w.epoch ∧ e.incarnation = w.coordinator then some e else none
  | .down _ => none

/-- A worker in another stage. -/
def enter (f : Fleet) (w : Worker) (stage : Stage) : Fleet :=
  { f with worker := some { w with stage := stage } }

/-- A worker reports, and goes on when a decision comes back. -/
def report (f : Fleet) (w : Worker) (r : WorkerReport) (fate : Fate) (next : Stage) : Fleet :=
  match f.coordinator w with
  | none => f.enter w (.ended .transport)
  | some e =>
    match fate.call with
    | .unasked => f.enter w (.ended .transport)
    | .unheard => { f with system := .up (e.perform r.operation).1 }.enter w (.ended .transport)
    | .answered =>
      { f with system := .up (e.perform r.operation).1 }.enter w
        (if (e.tells r.call).decided then next else .ended .transport)

/-- Claims up to eight directives. -/
def claim (f : Fleet) (w : Worker) (fate : Fate) : Fleet :=
  match f.coordinator w with
  | none => f.enter w (.ended .transport)
  | some e =>
    match if fate.call = .answered then (e.tells (.claimDirectives 8)).claimed else none with
    | none => f.enter w (.ended .transport)
    | some directives => f.enter { w with round := w.round + 1 } (.directed directives)

/-- The effect of a directive. -/
def apply (f : Fleet) (w : Worker) (d : ApplyDirective) (todo : List ApplyDirective)
    (fate : Fate) : Fleet :=
  match writeEffect f.files w.options.effectDir d w.options.worker fate.write with
  | (files, none) => { f with files := files }.enter w (.ended .transport)
  | (files, some path) => { f with files := files }.enter w (.applied d path todo)

/-- A worker goes on from where it stands. -/
def work (f : Fleet) (w : Worker) (fate : Fate) : Fleet :=
  match w.stage with
  | .claiming => f.claim w fate
  | .directed [] =>
    if (0 < w.options.iterations ∧ w.options.iterations ≤ w.round) ∨ fate.exitFile then
      f.enter w (.ended .ok)
    else f.enter w .claiming
  | .directed (d :: todo) =>
    if w.options.reject then
      f.report w (.application (w.application d false)) fate (.directed todo)
    else f.apply w d todo fate
  | .applied d path todo =>
    f.report w (.application (w.application d true)) fate
      (if w.options.verify then .acknowledged d path todo else .directed todo)
  | .acknowledged d path todo =>
    f.report w (.verification (w.verification d (readEffect f.files path))) fate (.directed todo)
  | .ended _ => f

def step (f : Fleet) : FleetAction → Fleet
  | .system a => { f with system := f.system.step a }
  | .connect o incarnation =>
    match f.system with
    | .down _ => f
    | .up e =>
      { f with
        worker := some
          { options := o, incarnation, coordinator := e.incarnation, epoch := e.epoch } }
  | .work fate =>
    match f.worker with
    | none => f
    | some w => f.work w fate
  | .crash => { f with worker := none }

def run (actions : List FleetAction) : Fleet := actions.foldl step {}

theorem run_append (actions : List FleetAction) (a : FleetAction) :
    run (actions ++ [a]) = (run actions).step a := by
  rw [run, List.foldl_append]
  rfl

end Fleet

end LinkFailover
