import Jeth.Lib.SortedMap
import Jeth.Lib.BinaryHeap
import Jeth.Lib.LRU
import Jeth.Lib.RWMutex
import Jeth.Lib.FlowChecker
import Jeth.Lib.SortFunc
import Jeth.Lib.Hex
import Jeth.Lib.UndoLog
import Jeth.Lib.Collections
import Jeth.Lib.Ancestry
import Jeth.Lib.Saturating
import Jeth.Atomic.Trie
import Jeth.Atomic.HeightMapRepair
import Jeth.Atomic.SharedMemory
import Jeth.Sync.LeafSyncer
import Jeth.Sync.TrieSegments
import Jeth.Sync.LeafsRequest
import Jeth.Atomic.Syncer
import Jeth.Evm.TxHeap
import Jeth.Evm.Mempool
import Jeth.Evm.MempoolLocks
import Jeth.Evm.AtomicTx
import Jeth.Evm.AtomicBatch
import Jeth.Evm.AtomicRepository
import Jeth.Evm.StateObject
import Jeth.Evm.StateDB
import Jeth.Evm.StateRevert
import Jeth.Evm.RevertToSnapshot
import Jeth.Evm.MultiCoin
import Jeth.Evm.AtomicChain
import Jeth.Evm.AtomicChainSafety
import Jeth.Precompile.Predicate
import Jeth.Precompile.Warp
import Jeth.Consensus.DynamicFees
import Jeth.Consensus.BlockFee
import Jeth.Evm.Wallet
import Jeth.Lib.FanIn
import Jeth.Warp.Aggregator
import Jeth.Evm.MultiCoinTransfer
import Jeth.Core.FIFOCache
import Jeth.Evm.MempoolGossip
import Jeth.Sync.SegmentCreation
import Jeth.Lib.HeapOrder
import Jeth.Lib.HeapInterface
import Jeth.Evm.TxHeapOrder
import Jeth.Evm.TxHeapRefs
import Jeth.Sync.CodeSyncer
import Jeth.Evm.AtomicTxBuilders
