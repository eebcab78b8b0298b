import BitcoinPQ.Core.Wire
import BitcoinPQ.Core.Relax
import BitcoinPQ.Core.Digits
import BitcoinPQ.Core.Memo
import BitcoinPQ.Core.Buffer
import BitcoinPQ.Models.Serialize.Stream
import BitcoinPQ.Models.Primitives.Transaction
import BitcoinPQ.Models.Primitives.RoundTrip
import BitcoinPQ.Models.Primitives.Block
import BitcoinPQ.Models.Keys.PubKey
import BitcoinPQ.Models.Serialize.SizeComputer
import BitcoinPQ.Models.Script.Script
import BitcoinPQ.Models.Script.SigHash
import BitcoinPQ.Models.Script.Interpreter
import BitcoinPQ.Models.Script.Verify
import BitcoinPQ.Models.Script.SoftFork
import BitcoinPQ.Core.Cost
import BitcoinPQ.Models.Script.SigOps
import BitcoinPQ.Core.MapFold
import BitcoinPQ.Models.Coins.Coins
import BitcoinPQ.Models.Coins.CacheRefinement
import BitcoinPQ.Models.Keys.KeyUseCount
import BitcoinPQ.Models.Serialize.VarInt
import BitcoinPQ.Core.Binary64
import BitcoinPQ.Models.Chain.Params
import BitcoinPQ.Models.Validation.Subsidy
import BitcoinPQ.Models.Chain.BlockIndex
import BitcoinPQ.Models.Validation.HeaderCheck
import BitcoinPQ.Models.Validation.SequenceLocks
import BitcoinPQ.Models.Script.Standard
import BitcoinPQ.Models.Wallet.KeyStore
import BitcoinPQ.Models.Wallet.Sign
import BitcoinPQ.Models.Wallet.IsMine
import BitcoinPQ.Models.Wallet.Restart
import BitcoinPQ.Models.Encoding.Base58
import BitcoinPQ.Models.Encoding.ConvertBits
import BitcoinPQ.Models.Encoding.Bech32
import BitcoinPQ.Models.Encoding.Address
import BitcoinPQ.Models.Chain.VersionBits
import BitcoinPQ.Models.Primitives.Prevector
import BitcoinPQ.Models.Arith.BaseUint
import BitcoinPQ.Models.Arith.Compact
import BitcoinPQ.Models.Chain.Pow
import BitcoinPQ.Models.Chain.SkipList
import BitcoinPQ.Core.MerkleTree
import BitcoinPQ.Models.Validation.Merkle
import BitcoinPQ.Models.Script.ScriptNum
import BitcoinPQ.Models.Script.Push
import BitcoinPQ.Models.Coins.Compressor
import BitcoinPQ.Core.Decimal
import BitcoinPQ.Models.Encoding.FixedPoint
import BitcoinPQ.Models.Encoding.Money
import BitcoinPQ.Models.Validation.PartialMerkle
import BitcoinPQ.Core.Selection
import BitcoinPQ.Models.Wallet.SelectCoins
import BitcoinPQ.Models.Encoding.Base64
import BitcoinPQ.Models.Crypto.Equihash
import BitcoinPQ.Core.Bits64
import BitcoinPQ.Models.Net.RollingBloomFilter
import BitcoinPQ.Models.Script.CuckooCache
import BitcoinPQ.Core.Writes
import BitcoinPQ.Core.Int64Range
import BitcoinPQ.Models.Validation.Undo
import BitcoinPQ.Models.Validation.TxVerify
