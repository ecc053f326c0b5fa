import Parthenon.Primitives.Transaction
import Parthenon.Primitives.Wire
import Parthenon.Primitives.WireLaws
import Parthenon.Primitives.WireCanonical
import Parthenon.Primitives.ParsedLengths
import Parthenon.Primitives.TransactionCaches
import Parthenon.Consensus.Difficulty
import Parthenon.Consensus.Target
import Parthenon.Consensus.Retargeting
import Parthenon.Consensus.Issuance
import Parthenon.Library.PairTree
import Parthenon.Library.PrunedPath
import Parthenon.Library.Fips180
import Parthenon.Library.Cursor
import Parthenon.Primitives.Block
import Parthenon.Crypto.Sha256Laws
import Parthenon.Crypto.Sha256Fips
import Parthenon.Primitives.HeaderWords
import Parthenon.Primitives.BlockCommitment
import Parthenon.Chainstate.Utxo
import Parthenon.Chainstate.Chain
import Parthenon.Chainstate.ChainLaws
import Parthenon.Chainstate.Atomicity
import Parthenon.Chainstate.Undo
import Parthenon.Chainstate.Supply
import Parthenon.Chainstate.Soundness
import Parthenon.Crypto.Schnorr
import Parthenon.Validation.Validators
import Parthenon.Validation.BlockAgreement
import Parthenon.Primitives.Signing
import Parthenon.Wallet.Wallet
import Parthenon.Wallet.SignedTransactions
import Parthenon.Library.KeyedSet
import Parthenon.Mempool.Mempool
import Parthenon.Mempool.Contents
import Parthenon.Mempool.Representation
import Parthenon.Chainstate.ChainState
import Parthenon.Chainstate.RequiredBits
import Parthenon.Chainstate.CoinbaseAssets
import Parthenon.Consensus.Genesis
import Parthenon.Node.Node
import Parthenon.Storage.BlockStorage
import Parthenon.Storage.UtxoStorage
import Parthenon.Node.NodeLaws
import Parthenon.Node.Ledgers
import Parthenon.Node.PoolConflicts
import Parthenon.Wallet.Tracking
import Parthenon.P2p.Message
import Parthenon.P2p.MessageLaws
import Parthenon.P2p.PeerConnection
import Parthenon.P2p.Framing
import Parthenon.Evm.MptMap
import Parthenon.Evm.MptShape
import Parthenon.Evm.State
import Parthenon.Evm.Words
import Parthenon.Evm.Vm
import Parthenon.Evm.StateRoots
import Parthenon.Evm.StateCommitment
import Parthenon.Node.PreCheck
import Parthenon.Library.Effects
import Parthenon.Evm.VmEffects
import Parthenon.Governance.Vesting
import Parthenon.Governance.Treasury
import Parthenon.Governance.TreasuryLaws
import Parthenon.Governance.GrantPayments
import Parthenon.Governance.VestingExact
import Parthenon.Governance.Emergency
import Parthenon.Library.Quorum
import Parthenon.Governance.Guardians
import Parthenon.Governance.FeeRouter
import Parthenon.Governance.FeeShares
import Parthenon.Governance.Boule
import Parthenon.Governance.Params
import Parthenon.Governance.ParamHistory
import Parthenon.Governance.Voting
import Parthenon.Governance.VotingLaws
import Parthenon.Governance.ProposalLifecycle
import Parthenon.Governance.OneVote
import Parthenon.Governance.BouleLaws
import Parthenon.Governance.Council
import Parthenon.Governance.Screening
import Parthenon.Bridge.SpvBridge
import Parthenon.Bridge.PaymentChannel
import Parthenon.Bridge.BridgeState
import Parthenon.Bridge.BridgeLaws
import Parthenon.Bridge.Solvency
import Parthenon.Bridge.Attestation
import Parthenon.Bridge.Replay
import Parthenon.Rollup.FraudProofs
import Parthenon.Rollup.FinalizedChain
import Parthenon.Rollup.ZkState
import Parthenon.Rollup.StateRootBinding
import Parthenon.Crypto.ZkSnark
import Parthenon.Rollup.ZkExits
import Parthenon.Dex.OrderBook
import Parthenon.Dex.Matching
import Parthenon.Dex.Priority
import Parthenon.Dex.Cancellation
import Parthenon.Dex.Amm
import Parthenon.Dex.AmmShares
import Parthenon.Plasma.PlasmaChain
import Parthenon.Plasma.Exits
import Parthenon.Library.Delimited
import Parthenon.Common.Commitment
import Parthenon.Common.FinalityQuorum
import Parthenon.Settlement.Escrow
import Parthenon.Settlement.Multisig
import Parthenon.Settlement.DistinctKeys
import Parthenon.Primitives.WirePointers
import Parthenon.Primitives.WireBounds
import Parthenon.Evm.GasAccounting
import Parthenon.Evm.Stop
import Parthenon.Consensus.CompactTargets
import Parthenon.Storage.BlockIndex
import Parthenon.Mempool.Eviction
import Parthenon.Wallet.Balance
import Parthenon.Mempool.Calls
import Parthenon.Mempool.EvictionEnds
import Parthenon.Mempool.Bound
import Parthenon.Library.Ancestry
import Parthenon.Mempool.Relations
import Parthenon.Mempool.Newcomers
import Parthenon.Mempool.AncestorTotals
import Parthenon.Library.Grouping
import Parthenon.Mempool.Packages
import Parthenon.Evm.MemoryAccess
import Parthenon.Evm.WordValues
import Parthenon.Evm.WordArithmetic
import Parthenon.Evm.LongDivision
import Parthenon.Evm.Exponentiation
import Parthenon.Evm.Shifts
import Parthenon.Evm.GasPricing
import Parthenon.Library.Rounding
import Parthenon.Evm.BaseFee
import Parthenon.Governance.TallyRule
import Parthenon.Governance.ExecutionEffects
import Parthenon.Governance.AuditLog
import Parthenon.Governance.ReserveRule
import Parthenon.Governance.BudgetPeriods
import Parthenon.Governance.Sortition
import Parthenon.Governance.VestingRevocation
import Parthenon.Governance.SupplyPolicy
import Parthenon.Rollup.AppliedBatches
import Parthenon.Rollup.BatchCodecs
import Parthenon.Dex.OrderLookup
import Parthenon.Dex.LiquidityPricing
import Parthenon.Dex.MarketOrders
import Parthenon.Dex.Swaps
import Parthenon.Common.ProposerSelection
import Parthenon.Library.ByteCodec
import Parthenon.Settlement.DestinationTag
import Parthenon.Monetary.Decimals
import Parthenon.Monetary.Denominations
import Parthenon.Monetary.AmountViews
import Parthenon.Library.TokenStream
import Parthenon.P2p.PeerDatabase
import Parthenon.P2p.PeerFile
import Parthenon.P2p.BanPersistence
import Parthenon.Governance.VotingPower
import Parthenon.P2p.Sending
import Parthenon.P2p.Delivery
import Parthenon.Library.EndlessMemory
import Parthenon.Evm.Machine
import Parthenon.Evm.WordViews
import Parthenon.Evm.Refinement
import Parthenon.Chainstate.SpentOnce
import Parthenon.Library.Windows
import Parthenon.Rpc.RateLimiter
import Parthenon.Library.Postings
import Parthenon.Indexers.Indexers
import Parthenon.Library.Histories
import Parthenon.Node.Agreement
import Parthenon.Apis.GraphQL
import Parthenon.Crypto.Homomorphic
import Parthenon.Evm.Verifier
import Parthenon.Governance.Delegation
import Parthenon.Governance.Ostracism
import Parthenon.Node.Mining
import Parthenon.Wallet.Firmware
import Parthenon.Rpc.Authorization
import Parthenon.Settlement.Payments
