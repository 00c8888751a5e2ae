import Warlock.AdmissionControl
import Warlock.AnswerCauses
import Warlock.ApplicationState
import Warlock.AssetDiscipline
import Warlock.AssociationMaps
import Warlock.AuthorizedKeys
import Warlock.CancellationSafety
import Warlock.CapacitySafety
import Warlock.ChannelIsolation
import Warlock.ComingToRest
import Warlock.ConsoleAccess
import Warlock.ConsoleInput
import Warlock.ConsoleStreams
import Warlock.CopyDiscipline
import Warlock.CrashRecovery
import Warlock.CreateGuard
import Warlock.DeadlockFreedom
import Warlock.EffectPrograms
import Warlock.EnforcedLimits
import Warlock.FreeSubnets
import Warlock.GatewayRegistry
import Warlock.GatewayReports
import Warlock.GuardDiscipline
import Warlock.GuardOutcomes
import Warlock.HandlerTriples
import Warlock.HostKey
import Warlock.HostNetworking
import Warlock.Inevitability
import Warlock.IntactVms
import Warlock.KeyPermissions
import Warlock.LedgerHistories
import Warlock.Ledgers
import Warlock.LockOrders
import Warlock.MachineIntegers
import Warlock.NetworkingAtomicity
import Warlock.NftHandles
import Warlock.OrphanCleanup
import Warlock.OrphanScans
import Warlock.PossibleResults
import Warlock.Preflight
import Warlock.QuietHandlers
import Warlock.ReadSnapshots
import Warlock.ReadinessProbes
import Warlock.ReportProtocol
import Warlock.RequestCharters
import Warlock.ReservationConservation
import Warlock.ReservationDiscipline
import Warlock.ReservationInvariant
import Warlock.ReservationLifecycle
import Warlock.ReservationProtocol
import Warlock.ResourceCustody
import Warlock.RestartedScripts
import Warlock.RootfsCopies
import Warlock.RustText
import Warlock.ScriptExecutions
import Warlock.Server
import Warlock.ServerInvariant
import Warlock.ServerOperations
import Warlock.ServerProcess
import Warlock.SessionDiscipline
import Warlock.SessionHistories
import Warlock.ShutdownAccounts
import Warlock.ShutdownAgendas
import Warlock.ShutdownCompleteness
import Warlock.SshSession
import Warlock.Startup
import Warlock.SubnetAddressing
import Warlock.SubnetConservation
import Warlock.SubnetHistories
import Warlock.SubnetOwnership
import Warlock.SuccessiveCreates
import Warlock.TaskViews
import Warlock.TextFields
import Warlock.TextSearches
import Warlock.TidyDiscipline
import Warlock.TransitionSystems
import Warlock.UndisturbedRuns
import Warlock.VersionCheck
import Warlock.VmConfiguration
import Warlock.VmHandlers
import Warlock.VmIdentifiers
import Warlock.VmLifecycle
import Warlock.VmRegistry
import Warlock.WorkerConversation
