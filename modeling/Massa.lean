import Massa.Lib.Action
import Massa.Lib.BigEndian
import Massa.Lib.Layers
import Massa.Lib.Lists
import Massa.Lib.MaxCliques
import Massa.Lib.Parser
import Massa.Lib.SortedMap
import Massa.Lib.Varint
import Massa.Lib.XorDigest
import Massa.Lib.Replay
import Massa.Models.Basic
import Massa.Models.Time
import Massa.Models.Slot
import Massa.Models.Timeslots
import Massa.Models.Serialization
import Massa.Ledger.Types
import Massa.Ledger.Changes
import Massa.Models.Operation
import Massa.AsyncPool.Message
import Massa.AsyncPool.Changes
import Massa.ExecutedOps.Changes
import Massa.ExecutedOps.Final
import Massa.Pos.DeferredCredits
import Massa.Pos.Draw
import Massa.Execution.ActiveHistory
import Massa.Execution.SpeculativeExecutedOps
import Massa.Execution.SpeculativeLedger
import Massa.Ledger.LedgerDb
import Massa.Ledger.FinalLedger
import Massa.AsyncPool.Pool
import Massa.Execution.SpeculativeAsyncPool
import Massa.Db.MassaDb
import Massa.Db.Streaming
import Massa.Versioning.Mip
import Massa.Versioning.Store
import Massa.Versioning.Stats
import Massa.Pos.FinalState
import Massa.Execution.SpeculativeRollState
import Massa.Execution.ProductionStats
import Massa.Execution.RollOperations
import Massa.Consensus.CliqueComputation
import Massa.Consensus.BlocksState
import Massa.Pool.OperationPool
import Massa.Execution.ExecutionState
