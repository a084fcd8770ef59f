import ObjectFeed.Config.Json
import ObjectFeed.Config.Properties
import ObjectFeed.Feed.Memory
import ObjectFeed.Fixture.Container
import ObjectFeed.Fixture.Lines
import ObjectFeed.Fixture.Table
import ObjectFeed.Listing
import ObjectFeed.Offset.Cache
import ObjectFeed.Proofs.Course
import ObjectFeed.Proofs.Holding
import ObjectFeed.Proofs.Partition
import ObjectFeed.Proofs.PersistedForm
import ObjectFeed.Proofs.Transcript
import ObjectFeed.Proofs.Window
import ObjectFeed.Stream
import ObjectFeed.Template
import ObjectFeed.Proofs.ReadThrough
import ObjectFeed.Proofs.Reading
import ObjectFeed.Proofs.Resumption
import ObjectFeed.Proofs.Standing
import ObjectFeed.Proofs.Turn
import ObjectFeed.Proofs.Calls
import ObjectFeed.Proofs.WholeRun
import ObjectFeed.Proofs.Restart
import ObjectFeed.Proofs.Closing
import ObjectFeed.Proofs.Workers
import ObjectFeed.Proofs.Failures
import ObjectFeed.Proofs.Recording
import ObjectFeed.Proofs.Pagination
import ObjectFeed.Proofs.Frame
import ObjectFeed.Proofs.Batching
import ObjectFeed.Proofs.Growth
import ObjectFeed.Proofs.Labels
import ObjectFeed.Proofs.Ledger
import ObjectFeed.Proofs.Arrivals
import ObjectFeed.Proofs.Browsing
import ObjectFeed.Proofs.Acts
import ObjectFeed.Proofs.Ending
import ObjectFeed.Proofs.LastCount
import ObjectFeed.Proofs.Loans
import ObjectFeed.Proofs.Lifetime
import ObjectFeed.Proofs.Progress
import ObjectFeed.Proofs.Snapshots
import ObjectFeed.Proofs.Lookups
import ObjectFeed.Proofs.Chunking
import ObjectFeed.Proofs.LineReading
import ObjectFeed.Proofs.Matching
import ObjectFeed.Proofs.Clients
import ObjectFeed.Proofs.Reconstruction
import ObjectFeed.Proofs.Ownership
import ObjectFeed.Proofs.Grammar
import ObjectFeed.Proofs.Termination
import ObjectFeed.Proofs.Relisting
import ObjectFeed.Proofs.Envelopes
import ObjectFeed.Proofs.Identities
import ObjectFeed.Proofs.Options
import ObjectFeed.Proofs.TextReading
import ObjectFeed.Proofs.Skipping
import ObjectFeed.Proofs.Settings
import ObjectFeed.Proofs.Hashing
import ObjectFeed.Proofs.RowBatches
import ObjectFeed.Proofs.ValueReading
import ObjectFeed.Proofs.SampleLines
import ObjectFeed.Proofs.InHand
