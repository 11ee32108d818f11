import Chinet.CurrencyBasic
import Chinet.FormatUtils
import Chinet.Difficulty
import Chinet.Common.Varint
import Chinet.Common.Base58
import Chinet.Storage.State
import Chinet.Storage.Inputs
import Chinet.Storage.Aliases
import Chinet.Storage.Outputs
import Chinet.Storage.Spending
import Chinet.Storage.Indexing
import Chinet.Storage.AliasIndex
import Chinet.Storage.Transactions
import Chinet.Fork.Headers
import Chinet.Storage.Blocks
import Chinet.ForkChoice.RelativeDifficulty
import Chinet.Fork.Branch
import Chinet.Storage.Frame
import Chinet.Storage.Chain
import Chinet.Storage.FeeMedian
import Chinet.Storage.Ledger
import Chinet.Storage.InputChecks
import Chinet.Storage.Attachments
import Chinet.Storage.Unwinding
import Chinet.Storage.Registrations
import Chinet.Storage.History
import Chinet.Storage.DoubleSpend
import Chinet.Storage.PlacedOutputs
import Chinet.Storage.Maturity
import Chinet.Storage.Pop
import Chinet.Storage.AliasRuns
import Chinet.Storage.AliasOwnership
import Chinet.Storage.Supplement
import Chinet.Pool.State
import Chinet.Pool.Indexes
import Chinet.Alternative.Validation
import Chinet.Alternative.Containers
import Chinet.ForkChoice.Reorganize
import Chinet.Alternative.Handle
import Chinet.Alternative.Accept
import Chinet.Alternative.Moves
import Chinet.Alternative.Checkpoints
import Chinet.Alternative.HtlcExpiry
import Chinet.Caches.State
import Chinet.Caches.Coherence
import Chinet.Fork.Numbers
import Chinet.Fork.Acceptance
import Chinet.ForkChoice.Stability
import Chinet.Caches.Runs
import Chinet.P2p.Peerlist
import Chinet.Db.LmdbTransactions
import Chinet.Db.CachedAccessor
import Chinet.Offers.Market
import Chinet.Account.SeedPhrase
import Chinet.Lib.Keystream
import Chinet.Common.EncryptionFilter
import Chinet.Lib.Codec
import Chinet.Serialization.BinaryArchive
import Chinet.Serialization.WireFormat
import Chinet.Lib.StepWindow
import Chinet.Wallet.ChainShortener
import Chinet.Wallet.Escrow
import Chinet.Wallet.ContractStates
import Chinet.Wallet.PullBlocks
import Chinet.Wallet.TransfersCache
import Chinet.Wallet.TransferIndexes
import Chinet.Wallet.DanglingIndexes
import Chinet.Wallet.SpentFlags
import Chinet.Protocol.Synchronization
import Chinet.Account.AddressText
import Chinet.Stratum.Server
import Chinet.Stratum.MinerAddress
import Chinet.Stratum.Shares
import Chinet.P2p.BlockedPeers
import Chinet.Wallet.UnconfirmedTxs
import Chinet.Wallet.EveryTransfer
import Chinet.Wallet.PoolSpends
import Chinet.Wallet.EscrowReservations
import Chinet.Wallet.ReservedTransfers
import Chinet.Wallet.Sending
import Chinet.Wallet.FailedSends
import Chinet.Lib.Archive
import Chinet.Serialization.BoostArchive
import Chinet.Wallet.WalletLayout
import Chinet.Wallet.WalletFile
import Chinet.Wallet.StoreAndLoad
import Chinet.Wallet.BlocksWithoutCache
import Chinet.Wallet.StoredWallets
import Chinet.Difficulty.HashTarget
import Chinet.Difficulty.Retargeting
import Chinet.AmountDigits
import Chinet.BlockReward
import Chinet.Lib.SortContract
import Chinet.OutputOffsets
import Chinet.Alternative.Pruning
import Chinet.Lib.GreedyMatching
import Chinet.Storage.MultisigSignatures
import Chinet.Lib.SlotCollection
import Chinet.MultisigSigning
import Chinet.MultisigRuns
import Chinet.Lib.SortedInsert
import Chinet.Wallet.TxSources
import Chinet.Lib.Bisection
import Chinet.Wallet.Destinations
import Chinet.Wallet.ConstructTx
import Chinet.Wallet.SweepBelow
import Chinet.Wallet.SweptTransfers
import Chinet.Lib.WordSums
import Chinet.Storage.MoneySupply
import Chinet.AmountPlaces
import Chinet.Wallet.SplitStrategies
import Chinet.Lib.GreedySums
import Chinet.Wallet.SelectIndices
import Chinet.Wallet.StakeScan
import Chinet.Storage.HeightFromDate
import Chinet.Pool.UsedHeight
import Chinet.Lib.Delimited
import Chinet.Serialization.AliasSignature
import Chinet.SeparateSigning
import Chinet.Serialization.BlobSize
import Chinet.Wallet.EscrowAmounts
import Chinet.Lib.OrderedSearch
import Chinet.Wallet.StakeEntries
import Chinet.Storage.StakeConditions
import Chinet.Wallet.MintedStakes
import Chinet.Alternative.Bookkeeping
import Chinet.Crypto.ScalarVec
import Chinet.Account.IntegratedAddress
import Chinet.Crypto.TreeHash
import Chinet.Serialization.BlockHash
import Chinet.Crypto.RingSignatures
import Chinet.Payload.Items
import Chinet.Payload.Encoding
import Chinet.Payload.Constructed
import Chinet.Payload.Transparency
import Chinet.Db.ArrayAccessor
import Chinet.Alternative.LookupTable
import Chinet.Pool.Conflicts
