import CoinLayers.Request
import CoinLayers.SaltedHash
import CoinLayers.Ground
import CoinLayers.Proofs.CacheView
import CoinLayers.Proofs.MergeView
import CoinLayers.Proofs.Stack
import CoinLayers.Proofs.Quiet
import CoinLayers.Proofs.Change
import CoinLayers.Proofs.Drain
import CoinLayers.Proofs.Accounts
import CoinLayers.Proofs.EveryCache
import CoinLayers.Proofs.PlainMap
import CoinLayers.Proofs.FlagSoundness
import CoinLayers.Proofs.Consistency
import CoinLayers.Proofs.FailedFlush
import CoinLayers.Proofs.Composition
import CoinLayers.Proofs.Course
import CoinLayers.Proofs.Script
import CoinLayers.Proofs.Run
import CoinLayers.Proofs.Sweeping
import CoinLayers.Proofs.Records
import CoinLayers.Proofs.LeastRecent
import CoinLayers.Proofs.TransactionView
import CoinLayers.Proofs.Undoing
import CoinLayers.Proofs.ShortLived
import CoinLayers.Proofs.Guarding
import CoinLayers.Proofs.Unspendable
import CoinLayers.Proofs.Marks
import CoinLayers.Proofs.Inputs
import CoinLayers.Proofs.Conflict
import CoinLayers.Proofs.AnyOrder
import CoinLayers.Proofs.FailedRead
import CoinLayers.Proofs.Batches
import CoinLayers.Proofs.Lookups
import CoinLayers.Proofs.FirstUnspent
import CoinLayers.Proofs.Outputs
import CoinLayers.Proofs.Target
import CoinLayers.Proofs.Counters
