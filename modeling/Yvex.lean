import Yvex.AcceptanceSeal
import Yvex.ArtifactFrame
import Yvex.BatchSelection
import Yvex.BlockPacking
import Yvex.CatalogClose
import Yvex.EngineRuns
import Yvex.ExpertWorklist
import Yvex.GgufSafety
import Yvex.HttpFraming
import Yvex.IdentityChunks
import Yvex.IncrementalDecoding
import Yvex.LifecycleDrain
import Yvex.MediaPaths
import Yvex.MoeBatch
import Yvex.ProgressOrder
import Yvex.ProviderIdentity
import Yvex.ProviderIsolation
import Yvex.ReasoningStream
import Yvex.RequestQueueService
import Yvex.ResponseGateway
import Yvex.ResponseGrammar
import Yvex.RollingMetadata
import Yvex.SamplingRuns
import Yvex.SessionOwnership
import Yvex.SessionPolicy
import Yvex.Sha256Stream
import Yvex.ShardIndex
import Yvex.StableSort
import Yvex.StatePageTouch
import Yvex.StatePrefix
import Yvex.TelemetryLoss
import Yvex.TransactionProtocol
