import Horizon.AlertNotify
import Horizon.AlertPolicy
import Horizon.BackupFailure
import Horizon.BackupFidelity
import Horizon.BenchmarkLease
import Horizon.CapabilityDispatch
import Horizon.CapabilityLimits
import Horizon.HistoryPaging
import Horizon.JobLifecycle
import Horizon.ManagedTuning
import Horizon.ProfileConfig
import Horizon.ProtectionRetention
import Horizon.PublicationRetry
import Horizon.ReconcileRetirement
import Horizon.Redaction
import Horizon.ReleaseUpdate
import Horizon.RestoreFailure
import Horizon.RestorePrompts
import Horizon.ResumeProfile
import Horizon.RetentionPlan
import Horizon.RetirementExclusion
import Horizon.RetirementRollback
import Horizon.RpcReplayRuns
import Horizon.RpcServer
import Horizon.RunnerAgreement
import Horizon.RuntimeContract
import Horizon.Schedule
import Horizon.SlotObservation
import Horizon.SwitchFence
import Horizon.WatchLoop
import Horizon.PerformanceProbe
import Horizon.TreeDigest
