import Lodestar.Api.StateValidators
import Lodestar.Chain.AssembleBody
import Lodestar.Chain.BlockPool
import Lodestar.Chain.BlsSettles
import Lodestar.Chain.GossipExits
import Lodestar.Chain.HeadEvents
import Lodestar.Chain.ImportedBlocks
import Lodestar.Chain.SeedStates
import Lodestar.Chain.StateCacheRuns
import Lodestar.Chain.SyncCommitteeOnce
import Lodestar.Chain.WaitForGenesis
import Lodestar.Db.ArchiveIndices
import Lodestar.Db.RangeQueries
import Lodestar.Eth1.BlockEth1Data
import Lodestar.Eth1.DepositRootAgrees
import Lodestar.Eth1.DepositsRetained
import Lodestar.Eth1.VoteTies
import Lodestar.ForkChoice.AncestorRuns
import Lodestar.ForkChoice.FailedBlocks
import Lodestar.ForkChoice.LatestVotes
import Lodestar.ForkChoice.Links
import Lodestar.LightClient.BestUpdates
import Lodestar.LightClient.LightClientIniter
import Lodestar.Network.ForkTransition
import Lodestar.Network.GossipTopics
import Lodestar.Network.MetadataController
import Lodestar.Network.PeerRpcScore
import Lodestar.Network.PrioritizePeers
import Lodestar.OpPools.SyncAggregates
import Lodestar.ReqResp.SequentialBlocks
import Lodestar.ReqResp.UncompressChunks
import Lodestar.StateTransition.AggregationBits
import Lodestar.StateTransition.CachedListsAgree
import Lodestar.StateTransition.CommitteeAssignments
import Lodestar.StateTransition.ParticipationCredits
import Lodestar.StateTransition.ProposerSampling
import Lodestar.StateTransition.RegistryUpdates
import Lodestar.StateTransition.UpgradeState
import Lodestar.Sync.RangeTiles
import Lodestar.Tasks.ArchiveFailures
import Lodestar.Validator.BlockDuties
import Lodestar.Validator.BlockProposals
import Lodestar.Validator.ExportImport
import Lodestar.Validator.ImportFailures
import Lodestar.Validator.ListPubkeys
import Lodestar.Validator.SlashingRaces
import Lodestar.Validator.SpanRuns
import Lodestar.Validator.ValidatorStore
