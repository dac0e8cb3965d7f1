import CsvProductUploader.Lib.Runs
import CsvProductUploader.Events
import CsvProductUploader.ImportJob.Entity
import CsvProductUploader.Lib.MaxCounter
import CsvProductUploader.ImportJob.JobStore
import CsvProductUploader.ImportJob.Process
import CsvProductUploader.ImportJob.Folding
import CsvProductUploader.ImportJob.Handover
import CsvProductUploader.ImportJob.Identity
import CsvProductUploader.ImportJob.Importer
import CsvProductUploader.ImportJob.Lifecycle
import CsvProductUploader.ImportJob.Confirmation
import CsvProductUploader.ImportJob.Deadline
import CsvProductUploader.Kafka.Publisher
import CsvProductUploader.Kafka.Isolation
import CsvProductUploader.ImportJob.Shortfall
import CsvProductUploader.ImportJob.Tracker
import CsvProductUploader.Calendar
import CsvProductUploader.Lib.LastPerKey
import CsvProductUploader.Lib.Update
import CsvProductUploader.Lib.Utf8
import CsvProductUploader.Postgres.Upsert
import CsvProductUploader.Catalog.Product
import CsvProductUploader.Postgres.Products
import CsvProductUploader.Catalog.Service
import CsvProductUploader.ImportJob.Csv
import CsvProductUploader.ImportJob.Published
import CsvProductUploader.ImportJob.Projector
import CsvProductUploader.Catalog.Counting
import CsvProductUploader.Catalog.Custody
import CsvProductUploader.Catalog.Outcomes
import CsvProductUploader.Catalog.Reporting
import CsvProductUploader.Catalog.Commits
import CsvProductUploader.Catalog.Overcount
import CsvProductUploader.Catalog.Rebalance
import CsvProductUploader.Catalog.Replay
import CsvProductUploader.Catalog.Coverage
import CsvProductUploader.ImportJob.Ledger
import CsvProductUploader.Pipeline.System
import CsvProductUploader.Pipeline.Accounts
import CsvProductUploader.Pipeline.Completion
import CsvProductUploader.Pipeline.Restarts
import CsvProductUploader.NodePipeline.Validation
import CsvProductUploader.NodePipeline.Processor
import CsvProductUploader.NodePipeline.Recovery
import CsvProductUploader.NodePipeline.Progress
import CsvProductUploader.NodePipeline.Streams
import CsvProductUploader.ImportJob.Price
import CsvProductUploader.ImportJob.Reimport
import CsvProductUploader.ImportJob.Columns
import CsvProductUploader.ImportJob.Delimiter
import CsvProductUploader.ImportJob.Records
import CsvProductUploader.ImportJob.Sources
import CsvProductUploader.Catalog.Atomicity
import CsvProductUploader.ImportJob.Upload
import CsvProductUploader.Lib.Paging
import CsvProductUploader.Postgres.Projection
import CsvProductUploader.ImportJob.ProductPages
import CsvProductUploader.Catalog.Backoff
import CsvProductUploader.Kafka.Admin
import CsvProductUploader.Lib.Like
import CsvProductUploader.ImportJob.ProductSearch
import CsvProductUploader.Lib.Ties
import CsvProductUploader.NodePipeline.Products
import CsvProductUploader.NodePipeline.RowText
import CsvProductUploader.Catalog.Reset
import CsvProductUploader.Postgres.Migrate
import CsvProductUploader.Lib.Requests
import CsvProductUploader.Client.Products
import CsvProductUploader.Client.Progress
import CsvProductUploader.Lib.JsonText
import CsvProductUploader.Lib.Json
import CsvProductUploader.Lib.JsonStruct
import CsvProductUploader.Timestamp
import CsvProductUploader.Kafka.Wire
import CsvProductUploader.Kafka.Republish
import CsvProductUploader.Catalog.Poison
import CsvProductUploader.Lib.EventStream
import CsvProductUploader.ImportJob.LiveProgress
import CsvProductUploader.ImportJob.Reports
import CsvProductUploader.Catalog.Rejections
import CsvProductUploader.Pipeline.Arrival
import CsvProductUploader.Lib.CsvWriter
import CsvProductUploader.Benchmark.Fixture
import CsvProductUploader.NodePipeline.Tenancy
import CsvProductUploader.Kafka.Topics
import CsvProductUploader.NodePipeline.Filling
import CsvProductUploader.NodePipeline.Dashboard
