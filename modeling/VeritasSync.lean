import VeritasSync.Common.Wire
import VeritasSync.Ipc.Framing
import VeritasSync.Runtime.NetworkSessions
import VeritasSync.Runtime.ScanWorker
import VeritasSync.Runtime.Scans
import VeritasSync.Security.JoinInvitation
import VeritasSync.Signaling.Session
import VeritasSync.Storage.Lineage
import VeritasSync.Storage.PathNormalization
import VeritasSync.Storage.PolicyHistory
import VeritasSync.Storage.RuleText
import VeritasSync.Storage.Sessions
import VeritasSync.Storage.TaskPath
import VeritasSync.Storage.TaskReads
import VeritasSync.Sync.ChunkAccounting
import VeritasSync.Sync.ChunkArithmetic
import VeritasSync.Sync.ConflictCopies
import VeritasSync.Sync.ConflictNames
import VeritasSync.Sync.Delivery
import VeritasSync.Sync.IgnoreContext
import VeritasSync.Sync.Isolation
import VeritasSync.Sync.Landing
import VeritasSync.Sync.ManifestDiff
import VeritasSync.Sync.MissingRanges
import VeritasSync.Sync.Reconciliation
import VeritasSync.Sync.Retention
import VeritasSync.Sync.ScheduledUpload
import VeritasSync.Sync.Successor
import VeritasSync.Sync.Tombstones
import VeritasSync.Tracker.Client
import VeritasSync.Tracker.Membership
import VeritasSync.Tracker.Relay
import VeritasSync.Tracker.Replay
import VeritasSync.Transport.Link
import VeritasSync.Transport.ReassemblyBudget
import VeritasSync.Transport.SendScheduler
