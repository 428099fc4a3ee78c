import ReplicatedStore.Config.Layers
import ReplicatedStore.Encoding.CompositeType
import ReplicatedStore.Json.Config
import ReplicatedStore.Proofs.Checksum
import ReplicatedStore.Proofs.Chronicle
import ReplicatedStore.Proofs.Chronicle.Completeness
import ReplicatedStore.Proofs.Chronicle.Evolution
import ReplicatedStore.Proofs.Chronicle.Growing
import ReplicatedStore.Proofs.Chronicle.Step
import ReplicatedStore.Proofs.Chronicle.Voting
import ReplicatedStore.Proofs.Consensus.Acknowledging
import ReplicatedStore.Proofs.Consensus.Applying
import ReplicatedStore.Proofs.Consensus.BackingOff
import ReplicatedStore.Proofs.Consensus.Ballots
import ReplicatedStore.Proofs.Consensus.Clients
import ReplicatedStore.Proofs.Consensus.Confirming
import ReplicatedStore.Proofs.Consensus.Elections
import ReplicatedStore.Proofs.Consensus.Entries
import ReplicatedStore.Proofs.Consensus.Following
import ReplicatedStore.Proofs.Consensus.Forwarding
import ReplicatedStore.Proofs.Consensus.Indexes
import ReplicatedStore.Proofs.Consensus.Installing
import ReplicatedStore.Proofs.Consensus.Invariance
import ReplicatedStore.Proofs.Consensus.Leading
import ReplicatedStore.Proofs.Consensus.Majority
import ReplicatedStore.Proofs.Consensus.Messages
import ReplicatedStore.Proofs.Consensus.Mirror
import ReplicatedStore.Proofs.Consensus.Outcomes
import ReplicatedStore.Proofs.Consensus.Preserving
import ReplicatedStore.Proofs.Consensus.Proposing
import ReplicatedStore.Proofs.Consensus.Quiet
import ReplicatedStore.Proofs.Consensus.Reaches
import ReplicatedStore.Proofs.Consensus.Reading
import ReplicatedStore.Proofs.Consensus.Replaying
import ReplicatedStore.Proofs.Consensus.Restarting
import ReplicatedStore.Proofs.Consensus.Terms
import ReplicatedStore.Proofs.Consensus.View
import ReplicatedStore.Proofs.Consensus.Wire
import ReplicatedStore.Proofs.Encoding.Binary
import ReplicatedStore.Proofs.Encoding.CheckedVarInt
import ReplicatedStore.Proofs.Encoding.CompositeKeys
import ReplicatedStore.Proofs.Encoding.Exact
import ReplicatedStore.Proofs.Encoding.FieldType
import ReplicatedStore.Proofs.Encoding.Malformed
import ReplicatedStore.Proofs.Encoding.Order
import ReplicatedStore.Proofs.Encoding.Reader
import ReplicatedStore.Proofs.Encoding.RoundTrip
import ReplicatedStore.Proofs.Encoding.SignedVarInt
import ReplicatedStore.Proofs.Encoding.Splitting
import ReplicatedStore.Proofs.Encoding.Terminated
import ReplicatedStore.Proofs.Encoding.VarInt
import ReplicatedStore.Proofs.Encoding.VarIntForms
import ReplicatedStore.Proofs.Fallback.Exclusion
import ReplicatedStore.Proofs.Fallback.Hysteresis
import ReplicatedStore.Proofs.Fallback.Merging
import ReplicatedStore.Proofs.History
import ReplicatedStore.Proofs.KeySpace.Canonical
import ReplicatedStore.Proofs.KeySpace.Changes
import ReplicatedStore.Proofs.KeySpace.Conflicts
import ReplicatedStore.Proofs.KeySpace.KeyMap
import ReplicatedStore.Proofs.KeySpace.KeyRange
import ReplicatedStore.Proofs.KeySpace.KeyRanges
import ReplicatedStore.Proofs.KeySpace.Overlay
import ReplicatedStore.Proofs.KeySpace.Recording
import ReplicatedStore.Proofs.KeySpace.Seeking
import ReplicatedStore.Proofs.KeySpace.StoredForms
import ReplicatedStore.Proofs.KeySpace.TransactionView
import ReplicatedStore.Proofs.KeySpace.WriteSet
import ReplicatedStore.Proofs.Runs.Activities
import ReplicatedStore.Proofs.Runs.Calls
import ReplicatedStore.Proofs.Runs.Candidacies
import ReplicatedStore.Proofs.Runs.Commits
import ReplicatedStore.Proofs.Runs.CommittedLog
import ReplicatedStore.Proofs.Runs.Depiction
import ReplicatedStore.Proofs.Runs.Deployment
import ReplicatedStore.Proofs.Runs.ElectedLeaders
import ReplicatedStore.Proofs.Runs.Lifetimes
import ReplicatedStore.Proofs.Runs.LogMatching
import ReplicatedStore.Proofs.Runs.MatchedLogs
import ReplicatedStore.Proofs.Runs.Moves
import ReplicatedStore.Proofs.Runs.ReadOnly
import ReplicatedStore.Proofs.Runs.Safety
import ReplicatedStore.Proofs.Runs.Serializability
import ReplicatedStore.Proofs.Runs.Submissions
import ReplicatedStore.Proofs.Runs.Transactions
import ReplicatedStore.Proofs.Runs.Trials
import ReplicatedStore.Proofs.Sequence
import ReplicatedStore.Proofs.Standalone.Commits
import ReplicatedStore.Proofs.Standalone.Durability
import ReplicatedStore.Proofs.Standalone.FailedCommits
import ReplicatedStore.Proofs.Standalone.Journal
import ReplicatedStore.Proofs.Standalone.Transactions
import ReplicatedStore.Proofs.Storage.Appending
import ReplicatedStore.Proofs.Storage.Coherence
import ReplicatedStore.Proofs.Storage.Corruption
import ReplicatedStore.Proofs.Storage.Directory
import ReplicatedStore.Proofs.Storage.Durability
import ReplicatedStore.Proofs.Storage.Faltering
import ReplicatedStore.Proofs.Storage.Faults
import ReplicatedStore.Proofs.Storage.Folding
import ReplicatedStore.Proofs.Storage.Interruption
import ReplicatedStore.Proofs.Storage.LogFaults
import ReplicatedStore.Proofs.Storage.LogStore
import ReplicatedStore.Proofs.Storage.Mishaps
import ReplicatedStore.Proofs.Storage.Opening
import ReplicatedStore.Proofs.Storage.Record
import ReplicatedStore.Proofs.Storage.Recovery
import ReplicatedStore.Proofs.Storage.Rewriting
import ReplicatedStore.Proofs.Storage.Scanning
import ReplicatedStore.Proofs.Storage.Selection
import ReplicatedStore.Proofs.Storage.Sessions
import ReplicatedStore.Proofs.Storage.Steps
import ReplicatedStore.Proofs.Storage.TornTail
import ReplicatedStore.Proofs.Storage.Volume
import ReplicatedStore.Server.Api
import ReplicatedStore.Session.Cluster
