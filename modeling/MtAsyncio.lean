import MtAsyncio.Lib.Machine
import MtAsyncio.Lib.Ledger
import MtAsyncio.Model.WorkSchedule
import MtAsyncio.Proofs.WorkTokens
import MtAsyncio.Proofs.WorkStranded
import MtAsyncio.Proofs.TokenAccounting
import MtAsyncio.Proofs.WorkConservation
import MtAsyncio.Proofs.TaskCancel
import MtAsyncio.Proofs.CancelCoalesced
import MtAsyncio.Proofs.CancelWithdrawn
import MtAsyncio.Proofs.CancelHonoured
import MtAsyncio.Proofs.CancelAtYield
import MtAsyncio.Proofs.LockOwner
import MtAsyncio.Proofs.ConditionOwner
import MtAsyncio.Proofs.TaskGroupCancel
import MtAsyncio.Proofs.TaskGroupCreate
import MtAsyncio.Proofs.TaskGroupErrors
import MtAsyncio.Proofs.ReadinessHandshake
import MtAsyncio.Proofs.StreamBytes
import MtAsyncio.Proofs.FdReuse
import MtAsyncio.Proofs.ReaderClaims
import MtAsyncio.Proofs.OneContinuation
import MtAsyncio.Proofs.FutureContract
import MtAsyncio.Proofs.DeferredWakes
import MtAsyncio.Proofs.TlsEntry
import MtAsyncio.Proofs.WaitingLists
import MtAsyncio.Proofs.WaitingTenants
import MtAsyncio.Proofs.SemaphorePermits
import MtAsyncio.Proofs.QueueContent
import MtAsyncio.Proofs.QueueServed
import MtAsyncio.Proofs.LevelTrigger
import MtAsyncio.Proofs.TimeoutBalance
import MtAsyncio.Proofs.BlockingTasks
import MtAsyncio.Proofs.PoolThreads
import MtAsyncio.Proofs.ReactorCount
import MtAsyncio.Proofs.TimersPrompt
import MtAsyncio.Proofs.HandoffLive
import MtAsyncio.Proofs.StreamEof
import MtAsyncio.Proofs.EventBroadcast
import MtAsyncio.Proofs.QueueAtomic
import MtAsyncio.Proofs.QueueJoin
import MtAsyncio.Proofs.DeadlineEarly
import MtAsyncio.Proofs.TimeoutErrors
import MtAsyncio.Proofs.GatherOutcome
import MtAsyncio.Proofs.WaitReturns
import MtAsyncio.Proofs.ThreadsafeSettled
import MtAsyncio.Proofs.AsCompletedOnce
import MtAsyncio.Proofs.SockConnected
import MtAsyncio.Proofs.SockSent
import MtAsyncio.Proofs.FdReplaced
import MtAsyncio.Proofs.ClearStrands
import MtAsyncio.Proofs.PausedSilent
import MtAsyncio.Proofs.ParkedClaims
import MtAsyncio.Proofs.PollerKept
import MtAsyncio.Proofs.TickGuard
import MtAsyncio.Proofs.WakesFlushed
import MtAsyncio.Proofs.StartupReady
import MtAsyncio.Proofs.TokensValid
import MtAsyncio.Proofs.ParkedReleased
import MtAsyncio.Proofs.WireOrder
import MtAsyncio.Proofs.LostOnce
import MtAsyncio.Proofs.FlowControl
import MtAsyncio.Proofs.HandledOnce
import MtAsyncio.Proofs.ShutdownEnds
import MtAsyncio.Lib.WakeLoop
import MtAsyncio.Proofs.DrainWoken
import MtAsyncio.Proofs.ServerClosed
import MtAsyncio.Proofs.ExecutorTasks
import MtAsyncio.Proofs.ExecutorAnswers
import MtAsyncio.Proofs.ExecutorSettles
import MtAsyncio.Model.SockRecv
import MtAsyncio.Proofs.ArmSteps
import MtAsyncio.Proofs.SockReceived
