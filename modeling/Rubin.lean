import Rubin.Consensus.DaVerify
import Rubin.Consensus.DepGraph
import Rubin.Consensus.Emission
import Rubin.Consensus.ErrorOrder
import Rubin.Consensus.FeatureBits
import Rubin.Consensus.SigCache
import Rubin.Consensus.SighashRuns
import Rubin.Consensus.SimplicityContext
import Rubin.Consensus.Weight
import Rubin.Go.DaSet
import Rubin.Go.TxParity
import Rubin.Node.DaPrefetch
import Rubin.Node.DaRelayComplete
import Rubin.Node.DaRelayTtl
import Rubin.Node.EvictionPlan
import Rubin.Node.Locators
import Rubin.Node.Miner
import Rubin.Node.Orphans
import Rubin.Node.OwnerRuns
import Rubin.Node.RelayPool
import Rubin.Node.SeenSet
import Rubin.Node.StoreWrite
import Rubin.Node.StoredBlocks
import Rubin.Node.TargetSchedule
import Rubin.Node.TxAdmission
import Rubin.Node.UtxoDigest
import Rubin.Node.VaultHistory
