import OpenDiamond.Lib.OrderedDict
import OpenDiamond.Lib.Runs
import OpenDiamond.Lib.Processes
import OpenDiamond.Lib.Binary64
import OpenDiamond.Lib.Joined
import OpenDiamond.Lib.BigEndian
import OpenDiamond.Lib.Streams
import OpenDiamond.Lib.Traversal
import OpenDiamond.Lib.Unicode
import OpenDiamond.Lib.Sockets
import OpenDiamond.Lib.Splitting
import OpenDiamond.Lib.Words
import OpenDiamond.Lib.Decimal
import OpenDiamond.Lib.Framing
import OpenDiamond.Lib.BinaryText
import OpenDiamond.Lib.Patterns
import OpenDiamond.Lib.Derivations
import OpenDiamond.Lib.Scanning
import OpenDiamond.Lib.Draining
import OpenDiamond.Lib.Dealing
import OpenDiamond.Lib.Urls
import OpenDiamond.Lib.Markup
import OpenDiamond.Lib.Floats
import OpenDiamond.Lib.Weaving
import OpenDiamond.Lib.Latest
import OpenDiamond.Lib.Greedy
import OpenDiamond.Lib.Records
import OpenDiamond.Lib.Halving
import OpenDiamond.Lib.Lines
import OpenDiamond.Lib.Memo
import OpenDiamond.Lib.Loops
import OpenDiamond.DiamondObject
import OpenDiamond.FilterProtocol
import OpenDiamond.FilterFraming
import OpenDiamond.FilterObject
import OpenDiamond.AttributeCache
import OpenDiamond.ResultKeys
import OpenDiamond.FilterStackRunner
import OpenDiamond.FilterOrder
import OpenDiamond.ResultCache
import OpenDiamond.CachedWalk
import OpenDiamond.CachedDrop
import OpenDiamond.BlobCache
import OpenDiamond.BlobLifetime
import OpenDiamond.Xdr
import OpenDiamond.Protocol
import OpenDiamond.Rpc
import OpenDiamond.RpcClient
import OpenDiamond.ReplyMatching
import OpenDiamond.SessionVars
import OpenDiamond.Listen
import OpenDiamond.HttpLoader
import OpenDiamond.BlastSet
import OpenDiamond.Scope
import OpenDiamond.ScopeLists
import OpenDiamond.CookieParsing
import OpenDiamond.FilterDependencies
import OpenDiamond.FilterSources
import OpenDiamond.FilterResolution
import OpenDiamond.StackOrder
import OpenDiamond.Search
import OpenDiamond.ClientSearch
import OpenDiamond.BlastChannel
import OpenDiamond.ChildManager
import OpenDiamond.Statistics
import OpenDiamond.ExecutionTimes
import OpenDiamond.Worker
import OpenDiamond.DropAccounting
import OpenDiamond.SharedCache
import OpenDiamond.BlasterSearch
import OpenDiamond.ObjectAttributes
import OpenDiamond.ProxyStore
import OpenDiamond.MixerStore
import OpenDiamond.Pyramid
import OpenDiamond.GigapanStore
import OpenDiamond.YfccStore
import OpenDiamond.AugmentStore
import OpenDiamond.ItemLists
import OpenDiamond.ProxyFilters
import OpenDiamond.ProxyModels
import OpenDiamond.ProxySearch
import OpenDiamond.ProxyBlast
import OpenDiamond.PatchesCodec
import OpenDiamond.SearchCache
import OpenDiamond.ObjectLoader
import OpenDiamond.Decoding
import OpenDiamond.Resources
import OpenDiamond.Lib.Mutex
import OpenDiamond.SharedStatistics
import OpenDiamond.FilterMessages
import OpenDiamond.WholeSearch
import OpenDiamond.CachedEvaluation
import OpenDiamond.FilterStart
import OpenDiamond.Lib.Grouping
import OpenDiamond.ScopeDistribution
import OpenDiamond.ProxyStream
import OpenDiamond.Config
import OpenDiamond.TextAttributes
import OpenDiamond.SharedEvaluation
import OpenDiamond.FilterLibrary
