import GStore.Db.Persistence
import GStore.Concurrent.VersionView
import GStore.Cluster.Recovery
import GStore.Cluster.NodeReplicas
import GStore.Store.RocksRefinement
import GStore.Http.Isolation
import GStore.Http.Noninterference
import GStore.Kvstore.Pager
import GStore.Query.PathSemantics
import GStore.Query.OrderBy
import GStore.Kvstore.Arrays
import GStore.Dict.FrontCoding
import GStore.Query.Graphs
import GStore.Query.GroupSolutions
import GStore.Cluster.Rpc
import GStore.Db.LogReplay
import GStore.Parser.AnonymousNodes
import GStore.Reason.LeastFixpoint
import GStore.Db.UpdateMeaning
import GStore.Db.NamedUpdates
import GStore.Query.ResultsJson
import GStore.Dict.Spaces
import GStore.Http.RequestSafety
import GStore.Db.BulkLoad
import GStore.Parser.RdfXmlDocuments
import GStore.Parser.MintedLabels
import GStore.Nlqa.Repair
import GStore.Cluster.Durability
import GStore.Kvstore.TreeLookup
