import SygmaRelayer.Lib.Fallible
import SygmaRelayer.Lib.Mutex
import SygmaRelayer.Lib.Runs
import SygmaRelayer.Lib.Sorting
import SygmaRelayer.Lib.Text
import SygmaRelayer.Lib.Bytes
import SygmaRelayer.Lib.Go
import SygmaRelayer.Lib.SizedFields
import SygmaRelayer.Lib.Grouping
import SygmaRelayer.Lib.Sublists
import SygmaRelayer.Lib.JsonScanner
import SygmaRelayer.Lib.JsonWriter
import SygmaRelayer.Lib.NestedMap
import SygmaRelayer.Lib.KeyValue
import SygmaRelayer.Lib.BufferedReader
import SygmaRelayer.Lib.JsonReader
import SygmaRelayer.Lib.AbiTypes
import SygmaRelayer.Lib.Abi
import SygmaRelayer.Lib.TypedDataTypes
import SygmaRelayer.Lib.TypedData
import SygmaRelayer.Lib.CounterMode
import SygmaRelayer.Spec.PropStore
import SygmaRelayer.Spec.PropDb
import SygmaRelayer.Spec.BtcExecutor
import SygmaRelayer.Spec.BtcWatch
import SygmaRelayer.Spec.BtcTx
import SygmaRelayer.Spec.BtcExecution
import SygmaRelayer.Spec.Subscription
import SygmaRelayer.Spec.Coordinator
import SygmaRelayer.Spec.EvmExecutor
import SygmaRelayer.Spec.Election
import SygmaRelayer.Spec.StartProtocol
import SygmaRelayer.Spec.Bully
import SygmaRelayer.Spec.Attempts
import SygmaRelayer.Spec.Transfer
import SygmaRelayer.Spec.FungibleCodec
import SygmaRelayer.Spec.BtcMessages
import SygmaRelayer.Spec.TransferCodec
import SygmaRelayer.Spec.DepositEvents
import SygmaRelayer.Spec.BtcDeposits
import SygmaRelayer.Spec.RetryEvents
import SygmaRelayer.Spec.EventListener
import SygmaRelayer.Spec.BtcListener
import SygmaRelayer.Spec.SubstrateExecutor
import SygmaRelayer.Spec.Initiate
import SygmaRelayer.Spec.Keyshare
import SygmaRelayer.Spec.KeygenEvents
import SygmaRelayer.Spec.Peerstore
import SygmaRelayer.Spec.TssPeers
import SygmaRelayer.Spec.AllReady
import SygmaRelayer.Spec.PartyStore
import SygmaRelayer.Spec.ResharingParties
import SygmaRelayer.Spec.StreamManager
import SygmaRelayer.Spec.StreamFraming
import SygmaRelayer.Spec.StreamReader
import SygmaRelayer.Spec.EnvConfig
import SygmaRelayer.Spec.WireMessages
import SygmaRelayer.Spec.Delivery
import SygmaRelayer.Spec.SemiFungibleCodec
import SygmaRelayer.Spec.ProposalsHash
import SygmaRelayer.Spec.BridgeEvents
import SygmaRelayer.Spec.EvmExecution
import SygmaRelayer.Spec.Topology
import SygmaRelayer.Proofs.BtcSteps
import SygmaRelayer.Proofs.BtcOwnership
import SygmaRelayer.Proofs.BtcFinality
import SygmaRelayer.Proofs.BtcSingleExecution
import SygmaRelayer.Proofs.BtcSettlement
import SygmaRelayer.Proofs.BtcUsable
import SygmaRelayer.Proofs.BtcSignatures
import SygmaRelayer.Proofs.BtcExecutionEnds
import SygmaRelayer.Proofs.BtcInputs
import SygmaRelayer.Proofs.BtcTxAgreement
import SygmaRelayer.Proofs.SubscriptionIds
import SygmaRelayer.Proofs.SubscriptionTable
import SygmaRelayer.Proofs.CoordinatorSteps
import SygmaRelayer.Proofs.KeyshareLock
import SygmaRelayer.Proofs.SessionUniqueness
import SygmaRelayer.Proofs.AttemptSteps
import SygmaRelayer.Proofs.AttemptErrors
import SygmaRelayer.Proofs.AttemptSubscriptions
import SygmaRelayer.Proofs.EvmBatchOrder
import SygmaRelayer.Proofs.EvmMessageIds
import SygmaRelayer.Proofs.EvmSessions
import SygmaRelayer.Proofs.StaticElection
import SygmaRelayer.Proofs.StartAgreement
import SygmaRelayer.Proofs.BullySteps
import SygmaRelayer.Proofs.BullyCandidate
import SygmaRelayer.Proofs.BullyYield
import SygmaRelayer.Proofs.BullyListener
import SygmaRelayer.Proofs.BullySelect
import SygmaRelayer.Proofs.FungibleRoutes
import SygmaRelayer.Proofs.GenericCodec
import SygmaRelayer.Proofs.NonFungibleCodec
import SygmaRelayer.Proofs.OptionalMessage
import SygmaRelayer.Proofs.MalformedCalldata
import SygmaRelayer.Proofs.DepositIsolation
import SygmaRelayer.Proofs.RetryStatus
import SygmaRelayer.Proofs.PropDb
import SygmaRelayer.Proofs.RetryIsolation
import SygmaRelayer.Proofs.RetryDestination
import SygmaRelayer.Proofs.RetriedDeposits
import SygmaRelayer.Proofs.FilterDeposits
import SygmaRelayer.Proofs.BtcDepositAgreement
import SygmaRelayer.Proofs.BtcDepositAmounts
import SygmaRelayer.Proofs.BtcDepositData
import SygmaRelayer.Proofs.BtcBlockOrder
import SygmaRelayer.Proofs.BtcConservation
import SygmaRelayer.Proofs.BtcCoinSelection
import SygmaRelayer.Proofs.BtcFeeCoverage
import SygmaRelayer.Proofs.BtcDecimals
import SygmaRelayer.Proofs.EvmBatchGas
import SygmaRelayer.Proofs.SubstrateOutstanding
import SygmaRelayer.Proofs.BtcRestarts
import SygmaRelayer.Proofs.SigningQuorum
import SygmaRelayer.Proofs.AllReady
import SygmaRelayer.Proofs.KeyshareFailure
import SygmaRelayer.Proofs.FrostRoundTrip
import SygmaRelayer.Proofs.KeygenOnce
import SygmaRelayer.Proofs.ReshareParams
import SygmaRelayer.Proofs.StoredPeers
import SygmaRelayer.Proofs.SessionStreams
import SygmaRelayer.Proofs.SharedStream
import SygmaRelayer.Proofs.StreamRoundTrip
import SygmaRelayer.Proofs.PartyStore
import SygmaRelayer.Proofs.ResharingParties
import SygmaRelayer.Proofs.EnvConfig
import SygmaRelayer.Proofs.WireRoundTrip
import SygmaRelayer.Proofs.Delivery
import SygmaRelayer.Proofs.PartyUpdates
import SygmaRelayer.Proofs.SemiFungibleRoute
import SygmaRelayer.Proofs.SignedBatch
import SygmaRelayer.Proofs.BridgedTransfers
import SygmaRelayer.Proofs.Bridging
import SygmaRelayer.Proofs.RedeliveredDeposits
import SygmaRelayer.Proofs.TopologyFetch
import SygmaRelayer.Proofs.TopologySteps
import SygmaRelayer.Proofs.TopologyRefresh
import SygmaRelayer.Proofs.ExecutionSteps
import SygmaRelayer.Proofs.ExecutionOutcome
import SygmaRelayer.Proofs.ExecutionExit
