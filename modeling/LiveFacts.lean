import LiveFacts.CommandLine.Answer
import LiveFacts.CommandLine.Help
import LiveFacts.CommandLine.Request
import LiveFacts.Decimal.Binary64
import LiveFacts.Decimal.Shortest
import LiveFacts.Digest.Sha256
import LiveFacts.Error
import LiveFacts.Fact.Basic
import LiveFacts.Fact.Digest
import LiveFacts.Fact.Document
import LiveFacts.Fact.Hydrate
import LiveFacts.Fact.Json
import LiveFacts.Json.Basic
import LiveFacts.Json.Printer
import LiveFacts.Json.Reader
import LiveFacts.Keyed
import LiveFacts.Latch
import LiveFacts.Main
import LiveFacts.Network
import LiveFacts.Node.Basic
import LiveFacts.Node.Round
import LiveFacts.Query.Basic
import LiveFacts.Query.Cursor
import LiveFacts.Query.Inverse
import LiveFacts.Query.Json
import LiveFacts.Query.Printer
import LiveFacts.Query.Reader
import LiveFacts.Source
import LiveFacts.Store.Basic
import LiveFacts.Store.Closure
import LiveFacts.Store.Connection
import LiveFacts.Store.Evaluate
import LiveFacts.Template.Basic
import LiveFacts.Template.Compile
import LiveFacts.Text.Blank
import LiveFacts.Text.Hex
import LiveFacts.Watch
import LiveFacts.Workload
import LiveFacts.Node.Traffic
import LiveFacts.Proofs.Traversals
import LiveFacts.Proofs.Store.Links
import LiveFacts.Proofs.Fact.Records
import LiveFacts.Proofs.Store.Saves
import LiveFacts.Proofs.Query.Walks
import LiveFacts.Proofs.Store.Evaluation
import LiveFacts.Proofs.Store.Arrivals
import LiveFacts.Proofs.Latch.Interleavings
import LiveFacts.Proofs.Query.Growth
import LiveFacts.Proofs.Query.Inversion
import LiveFacts.Proofs.Query.Reports
import LiveFacts.Proofs.Query.Exactness
import LiveFacts.Proofs.Query.Losses
import LiveFacts.Proofs.Query.Turns
import LiveFacts.Proofs.Watch.Deliveries
import LiveFacts.Proofs.Node.Rounds
import LiveFacts.Proofs.Fact.Dehydration
import LiveFacts.Proofs.Node.Saves
import LiveFacts.Proofs.Node.Seeding
import LiveFacts.Proofs.Node.Runs
import LiveFacts.Proofs.Node.Tellings
import LiveFacts.Proofs.Node.Maintenance
import LiveFacts.Proofs.Node.Strays
import LiveFacts.Proofs.Node.Remains
import LiveFacts.Proofs.Node.Receipts
import LiveFacts.Proofs.Node.EarlyWatches
import LiveFacts.Proofs.Node.Orders
import LiveFacts.Proofs.Store.Closures
import LiveFacts.Proofs.Node.Continuity
import LiveFacts.Proofs.Node.Answers
import LiveFacts.Proofs.Network.Worlds
import LiveFacts.Proofs.Network.Ends
import LiveFacts.Proofs.Network.Acts
import LiveFacts.Proofs.Network.Echoes
import LiveFacts.Proofs.Network.Agreement
import LiveFacts.Proofs.Query.Carried
import LiveFacts.Proofs.Network.Mirrors
import LiveFacts.Proofs.Template.Meaning
import LiveFacts.Proofs.Node.Outbox
import LiveFacts.Proofs.Node.Transfers
import LiveFacts.Proofs.Network.Exchanges
import LiveFacts.Proofs.Network.Closedness
import LiveFacts.Proofs.Network.Attachment
import LiveFacts.Proofs.Query.Texts
import LiveFacts.Proofs.Template.Texts
import LiveFacts.Proofs.Json.Texts
import LiveFacts.Proofs.Fact.Contents
import LiveFacts.Proofs.Fact.Identity
import LiveFacts.Proofs.Fact.Hydration
import LiveFacts.Proofs.Node.Documents
import LiveFacts.Proofs.Fact.Descriptions
import LiveFacts.Proofs.Fact.Restorations
import LiveFacts.Proofs.Node.Stocks
import LiveFacts.Proofs.Network.Stocks
import LiveFacts.Proofs.Network.Restorations
import LiveFacts.Proofs.Watch.Accounts
import LiveFacts.Proofs.Node.Watches
import LiveFacts.Proofs.Network.Commands
import LiveFacts.Proofs.Node.Independence
import LiveFacts.Proofs.Node.Limits
import LiveFacts.Proofs.Network.Independence
import LiveFacts.Proofs.Node.Shifts
import LiveFacts.Proofs.Node.Drains
import LiveFacts.Proofs.Network.Histories
import LiveFacts.Proofs.Store.Paths
import LiveFacts.Proofs.Store.Reversals
import LiveFacts.Proofs.Store.Loops
import LiveFacts.Proofs.Node.Closures
import LiveFacts.Proofs.Node.Abandonment
import LiveFacts.Proofs.Network.Abandonment
import LiveFacts.Proofs.Query.Constancy
import LiveFacts.Proofs.Store.Chaining
import LiveFacts.Proofs.Fact.Acceptance
import LiveFacts.Proofs.Template.Drafts
import LiveFacts.Proofs.Template.Acceptance
import LiveFacts.Proofs.Query.Grammar
import LiveFacts.Proofs.Query.Cursors
import LiveFacts.Proofs.Json.Readings
import LiveFacts.Proofs.Query.Forms
