import Dugite.Consensus.CounterHistory
import Dugite.Consensus.OverlaySchedule
import Dugite.Consensus.EraHistory
import Dugite.Ledger.Checkpoints
import Dugite.Ledger.Committee
import Dugite.Ledger.Rollback
import Dugite.Ledger.StakeTracking
import Dugite.Plutus.DataTraversal
import Dugite.Plutus.Termination
import Dugite.Plutus.Scope
import Dugite.Ledger.Prediction
import Dugite.Validation.Funds
import Dugite.Validation.Mandates
import Dugite.Ledger.Conservation
import Dugite.Ledger.DRepIndex
import Dugite.Ledger.RewardPulser
import Dugite.Ledger.EpochNonce
import Dugite.Storage.SelectionRuns
import Dugite.Mempool.Capacity
import Dugite.Mempool.BlockBody
import Dugite.Storage.Anchoring
import Dugite.Storage.LoeExact
import Dugite.Storage.SwitchExact
import Dugite.Storage.IndexRuns
import Dugite.Network.Following
import Dugite.Network.TrustedClamp
import Dugite.Network.MuxProgress
import Dugite.Network.Inflight
import Dugite.Ledger.GenesisDelegations
import Dugite.Storage.Compaction
import Dugite.Primitives.Varlen
import Dugite.Storage.BlockCache
