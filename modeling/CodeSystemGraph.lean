import CodeSystemGraph.ImpactExactness
import CodeSystemGraph.ImpactOrder
import CodeSystemGraph.GraphExportSound
import CodeSystemGraph.StoreGaps
import CodeSystemGraph.StoreLock
import CodeSystemGraph.StoreRestoreSafe
import CodeSystemGraph.ChangeRaw
import CodeSystemGraph.ChangeDecoding
import CodeSystemGraph.ContractClients
import CodeSystemGraph.ContractColumns
import CodeSystemGraph.EventAgreement
import CodeSystemGraph.EventDelivery
import CodeSystemGraph.RepositoryOwnership
import CodeSystemGraph.BraceLexerLines
import CodeSystemGraph.ProtobufScopes
import CodeSystemGraph.ProtobufDeclared
import CodeSystemGraph.RouterMountChains
import CodeSystemGraph.WorkStateCache
import CodeSystemGraph.IgnoreWatch
import CodeSystemGraph.SafeConfigDotenv
import CodeSystemGraph.AgentMarkdownFit
import CodeSystemGraph.CatalogSecrets
import CodeSystemGraph.PullRedaction
import CodeSystemGraph.PullTruncation
import CodeSystemGraph.PullOverlap
import CodeSystemGraph.SyncCoverage
import CodeSystemGraph.TraceGraph
import CodeSystemGraph.ManualLinks
import CodeSystemGraph.ChangeBounds
import CodeSystemGraph.QueryOptimal
import CodeSystemGraph.LouvainGain
import CodeSystemGraph.CommunityPartition
import CodeSystemGraph.CommunityAccounts
import CodeSystemGraph.WorkerMonitor
import CodeSystemGraph.RelativeImports
import CodeSystemGraph.UrlTemplateSound
import CodeSystemGraph.ClientChains
import CodeSystemGraph.SnapshotIdentity
import CodeSystemGraph.RegistryLoads
import CodeSystemGraph.PublicationRuns
