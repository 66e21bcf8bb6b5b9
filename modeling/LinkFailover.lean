import LinkFailover.Lib.Codec
import LinkFailover.Lib.BoundedTable
import LinkFailover.Lib.SortedMap
import LinkFailover.Lib.Buckets
import LinkFailover.Lib.Orders
import LinkFailover.Lib.Widths
import LinkFailover.Lib.Stream
import LinkFailover.Outcome
import LinkFailover.Hash
import LinkFailover.Ids
import LinkFailover.Policy
import LinkFailover.Evidence
import LinkFailover.Authority
import LinkFailover.Attempt
import LinkFailover.Selector
import LinkFailover.Decision
import LinkFailover.Journal
import LinkFailover.Payload
import LinkFailover.DurableState
import LinkFailover.Store
import LinkFailover.Disk
import LinkFailover.Reopen
import LinkFailover.Engine
import LinkFailover.Observations
import LinkFailover.Failover
import LinkFailover.Operations
import LinkFailover.Branches
import LinkFailover.Lineage
import LinkFailover.Plans
import LinkFailover.Invariants
import LinkFailover.Retention
import LinkFailover.Paths
import LinkFailover.Serving
import LinkFailover.Conduct
import LinkFailover.Booting
import LinkFailover.System
import LinkFailover.GrantSoundness
import LinkFailover.FailStop
import LinkFailover.Amendments
import LinkFailover.Acceptance
import LinkFailover.Followups
import LinkFailover.Reboots
import LinkFailover.Restart
import LinkFailover.Lifecycles
import LinkFailover.Atomicity
import LinkFailover.Commits
import LinkFailover.Scans
import LinkFailover.Epochs
import LinkFailover.Replays
import LinkFailover.Directives
import LinkFailover.Chronicle
import LinkFailover.KeyedGrants
import LinkFailover.Losses
import LinkFailover.Readback
import LinkFailover.Checkpoints
import LinkFailover.Prefixes
import LinkFailover.Corruption
import LinkFailover.Wire
import LinkFailover.Requests
import LinkFailover.Server
import LinkFailover.Sessions
import LinkFailover.Terminations
import LinkFailover.Revocation
import LinkFailover.Ladder
import LinkFailover.Timeless
import LinkFailover.WallClocks
import LinkFailover.CandidateOrder
import LinkFailover.Resolution
import LinkFailover.Mirrors
import LinkFailover.Agreement
import LinkFailover.Selections
import LinkFailover.EvidenceTables
import LinkFailover.Refusals
import LinkFailover.EvidenceBounds
import LinkFailover.Lib.Newest
import LinkFailover.Memories
import LinkFailover.RetentionBounds
import LinkFailover.Lib.Layouts
import LinkFailover.Spellings
import LinkFailover.Encodings
import LinkFailover.Harmless
import LinkFailover.Lib.ShiftRegister
import LinkFailover.Lib.Blocks
import LinkFailover.Checksums
import LinkFailover.Identities
import LinkFailover.Lib.Lines
import LinkFailover.PolicyText
import LinkFailover.Verdicts
import LinkFailover.Quietness
import LinkFailover.Accounting
import LinkFailover.Stamps
import LinkFailover.Lib.Sizes
import LinkFailover.AnswerSizes
import LinkFailover.Answers
import LinkFailover.Neighbours
import LinkFailover.Lib.TableCounts
import LinkFailover.Numbers
import LinkFailover.Pending
import LinkFailover.Holders
import LinkFailover.Successions
import LinkFailover.Lib.Rejections
import LinkFailover.Replies
import LinkFailover.Client
import LinkFailover.Responses
import LinkFailover.Dialogue
import LinkFailover.Exchanges
import LinkFailover.Errands
import LinkFailover.Completions
import LinkFailover.Conversations
import LinkFailover.Definitions
import LinkFailover.CrashPoints
import LinkFailover.Lib.Separators
import LinkFailover.Applications
import LinkFailover.Worker
import LinkFailover.Effects
import LinkFailover.Rounds
import LinkFailover.Warrants
import LinkFailover.Receipts
