import BlockchainDataCollection.Effect.Program
import BlockchainDataCollection.Effect.Contract
import BlockchainDataCollection.Effect.Environment
import BlockchainDataCollection.Effect.Interleaving
import BlockchainDataCollection.Effect.Machine
import BlockchainDataCollection.Effect.Typestate
import BlockchainDataCollection.Effect.Tasks
import BlockchainDataCollection.Store.KeyedTable
import BlockchainDataCollection.Store.Database
import BlockchainDataCollection.Store.SortedSet
import BlockchainDataCollection.Text.Splitting
import BlockchainDataCollection.Text.Codec
import BlockchainDataCollection.Model.Python
import BlockchainDataCollection.Model.Data
import BlockchainDataCollection.Model.Events
import BlockchainDataCollection.Model.Parser
import BlockchainDataCollection.Consumer.TxProcessor
import BlockchainDataCollection.Consumer.Processing
import BlockchainDataCollection.Consumer.Saving
import BlockchainDataCollection.Consumer.Relevance
import BlockchainDataCollection.Consumer.Completeness
import BlockchainDataCollection.Consumer.Soundness
import BlockchainDataCollection.Consumer.Idempotence
import BlockchainDataCollection.Consumer.IterationOrder
import BlockchainDataCollection.Consumer.Consuming
import BlockchainDataCollection.Consumer.Confluence
import BlockchainDataCollection.Consumer.Committing
import BlockchainDataCollection.Consumer.Failures
import BlockchainDataCollection.Consumer.Joining
import BlockchainDataCollection.Consumer.Selection
import BlockchainDataCollection.Consumer.Creation
import BlockchainDataCollection.Consumer.KafkaConsumer
import BlockchainDataCollection.Consumer.Offsets
import BlockchainDataCollection.Consumer.Watchdog
import BlockchainDataCollection.Producer.KafkaProducer
import BlockchainDataCollection.Producer.DataProducer
import BlockchainDataCollection.Producer.Producing
import BlockchainDataCollection.Producer.Coverage
import BlockchainDataCollection.Producer.Rewards
import BlockchainDataCollection.Producer.Delivery
import BlockchainDataCollection.Producer.Resuming
import BlockchainDataCollection.Producer.Sending
import BlockchainDataCollection.Producer.Sharing
import BlockchainDataCollection.Producer.Counters
import BlockchainDataCollection.Producer.Backlog
import BlockchainDataCollection.Producer.Balance
import BlockchainDataCollection.Producer.Partitions
import BlockchainDataCollection.Producer.Connection
import BlockchainDataCollection.Store.Ledger
import BlockchainDataCollection.Consumer.Supply
import BlockchainDataCollection.Consumer.Circulation
import BlockchainDataCollection.Consumer.Spelling
import BlockchainDataCollection.Consumer.Liquidity
import BlockchainDataCollection.Producer.Capacity
import BlockchainDataCollection.Producer.ExitCode
import BlockchainDataCollection.Model.NodeConnector
import BlockchainDataCollection.Store.LastWrite
import BlockchainDataCollection.Store.Join
import BlockchainDataCollection.Consumer.Configuration
import BlockchainDataCollection.Numeric.Rounding
import BlockchainDataCollection.Consumer.Amounts
import BlockchainDataCollection.Effect.Completion
import BlockchainDataCollection.Producer.Chunking
import BlockchainDataCollection.Producer.Messages
import BlockchainDataCollection.Consumer.KafkaEvents
import BlockchainDataCollection.Effect.Processes
import BlockchainDataCollection.Effect.ReaderGroup
import BlockchainDataCollection.Consumer.Attempts
import BlockchainDataCollection.Consumer.Totality
import BlockchainDataCollection.Producer.Backing
import BlockchainDataCollection.Producer.Recording
import BlockchainDataCollection.System.Pipeline
import BlockchainDataCollection.System.Progress
import BlockchainDataCollection.System.Integrity
import BlockchainDataCollection.System.Convergence
import BlockchainDataCollection.System.Ingestion
import BlockchainDataCollection.Query.SupplyQuery
import BlockchainDataCollection.System.Reporting
import BlockchainDataCollection.Producer.Forwarding
import BlockchainDataCollection.System.Duplication
import BlockchainDataCollection.Consumer.Sessions
import BlockchainDataCollection.Consumer.Membership
import BlockchainDataCollection.System.KafkaCluster
import BlockchainDataCollection.System.ClusterProgress
import BlockchainDataCollection.System.KafkaPipeline
import BlockchainDataCollection.System.Liveness
