import Quark.EngineWakeup
import Quark.ParkedHandlerOnce
import Quark.ReentrantAdmission
import Quark.ReentrantRestart
import Quark.ScheduleOwed
import Quark.FileStoreFailure
import Quark.ActivationWakeup
import Quark.ReliableLinkOrder
import Quark.EffectivelyOnceLog
import Quark.EffectivelyOnceRecovery
import Quark.EffectivelyOnceFencing
import Quark.LeaseLeader
import Quark.ReplyCellOnce
import Quark.SwimEvents
import Quark.SwimFate
import Quark.SwimPlacement
import Quark.CapabilityFreshness
import Quark.RelayRoute
import Quark.BackupRestore
import Quark.TaggedRoundTrip
import Quark.EventSourcedLives
import Quark.SchemaEvolution
import Quark.TaglessRoundTrip
import Quark.FrameStreamFeed
import Quark.RevocationRatchet
import Quark.EnrollmentOnce
import Quark.EnrolWireForms
import Quark.SecureTransportForgery
import Quark.SecureTransportRevocation
import Quark.SecureTransportAdmission
import Quark.SecureTransportNonces
import Quark.SealedRelay
import Quark.AtRest
import Quark.FanOutGaps
import Quark.MessagePoolCells
import Quark.TimerServiceOnce
import Quark.TimerServicePoll
import Quark.FileStoreTornTail
import Quark.Drain
import Quark.DrainToken
import Quark.GovernedDepth
import Quark.IdleMask
import Quark.LazyActivation
import Quark.Lib.CutLog
import Quark.Lib.TumblingWindow
import Quark.LoadFailure
import Quark.RestartBudget
import Quark.SupervisionRetry
import Quark.TcpOrder
import Quark.RateBucket
import Quark.EffectivelyOnceChain
import Quark.EscalationGuard
import Quark.CapabilityPull
import Quark.TimerWheel
import Quark.DescriptorLives
import Quark.SwimIncarnation
import Quark.SwimCounters
import Quark.SwimRotation
import Quark.SwimLeases
import Quark.RestoreEpoch
import Quark.FileStoreFailedReads
import Quark.ReminderBacklog
import Quark.ReminderPace
import Quark.ReminderOccurrences
import Quark.IdentityRotation
import Quark.SecureTransportPending
import Quark.RevocationSuccess
import Quark.PlacementPolicies
import Quark.RotatingReserve
import Quark.WeightedDRR
import Quark.CircuitBreaker
import Quark.Congestion
import Quark.BoundedInboxCalls
import Quark.StatelessPoolFaults
import Quark.MessagePoolTeardown
import Quark.FlatActorMap
import Quark.HistogramSpec
import Quark.AtRestSplice
import Quark.MetricsArena
import Quark.CapabilityConvergence
import Quark.LanDiscovery
