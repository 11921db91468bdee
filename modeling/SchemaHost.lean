import SchemaHost.Api.Serve
import SchemaHost.History.Retention
import SchemaHost.Lifespan
import SchemaHost.Registry.Access
import SchemaHost.Console.Address
import SchemaHost.Console.Uuid
import SchemaHost.Proofs.Server.Frame
import SchemaHost.Proofs.Tenant.Frame
import SchemaHost.Proofs.Update.Frame
import SchemaHost.Proofs.Cache.Frame
import SchemaHost.Proofs.Cache.Service
import SchemaHost.Proofs.Registry.Records
import SchemaHost.Proofs.Update.Steps
import SchemaHost.Proofs.Update.Settlement
import SchemaHost.Proofs.Server.Outage
import SchemaHost.Proofs.Server.Task
import SchemaHost.Proofs.Server.Scope
import SchemaHost.Proofs.Update.Course
import SchemaHost.Proofs.Tenant.Pool
import SchemaHost.Proofs.Update.Transaction
import SchemaHost.Proofs.Tenant.Store
import SchemaHost.Proofs.Service.Errand
import SchemaHost.Proofs.Service.Isolation
import SchemaHost.Proofs.Tenant.Bootstrap
import SchemaHost.Proofs.Tenant.Provision
import SchemaHost.Proofs.Cache.Purge
import SchemaHost.Proofs.Update.Turns
import SchemaHost.Proofs.Registry.Orderly
import SchemaHost.Proofs.Update.Records
import SchemaHost.Proofs.Cache.Overviews
import SchemaHost.Proofs.Overview.Coherence
import SchemaHost.Proofs.Overview.Served
import SchemaHost.Proofs.Text.Blank
import SchemaHost.Proofs.Text.Case
import SchemaHost.Proofs.Ddl.Scan
import SchemaHost.Proofs.Schema.Columns
import SchemaHost.Proofs.Ddl.Closed
import SchemaHost.Proofs.Schema.Lines
import SchemaHost.Proofs.Schema.Blocks
import SchemaHost.Proofs.Schema.Tidy
import SchemaHost.Proofs.Schema.Printer
import SchemaHost.Proofs.Schema.RoundTrip
import SchemaHost.Proofs.Schema.Comments
import SchemaHost.Proofs.Schema.Commented
import SchemaHost.Proofs.Schema.Torn
import SchemaHost.Proofs.Schema.Uncommented
import SchemaHost.Proofs.History.Receipts
import SchemaHost.Proofs.Service.Pools
import SchemaHost.Proofs.Service.Clients
import SchemaHost.Proofs.Cache.Live
import SchemaHost.Proofs.Overview.Legible
import SchemaHost.Proofs.Tenant.Reprovision
import SchemaHost.Proofs.Overview.Races
import SchemaHost.Proofs.Tenant.Lifecycle
import SchemaHost.Proofs.Ddl.Value
import SchemaHost.Proofs.Sql.Lexeme
import SchemaHost.Proofs.Console.Guarded
import SchemaHost.Proofs.Sql.Parts
import SchemaHost.Proofs.Sql.Reading
import SchemaHost.Proofs.Ddl.Names
import SchemaHost.Proofs.Ddl.Platform
import SchemaHost.Proofs.Sql.Clauses
import SchemaHost.Proofs.Ddl.Columns
import SchemaHost.Proofs.Ddl.Constraints
import SchemaHost.Proofs.Server.Visit
import SchemaHost.Proofs.Console.Session
import SchemaHost.Proofs.Console.Columns
import SchemaHost.Proofs.Console.Rows
import SchemaHost.Proofs.Ddl.Labels
import SchemaHost.Proofs.Ddl.Faithful
import SchemaHost.Proofs.Service.Visits
import SchemaHost.Proofs.Update.Dropped
import SchemaHost.Proofs.Service.ReadBack
import SchemaHost.Proofs.Console.Verdict
import SchemaHost.Proofs.Tenant.Namespace
import SchemaHost.Proofs.Cache.Passes
import SchemaHost.Proofs.Schema.LineEnds
import SchemaHost.Proofs.Schema.Nesting
import SchemaHost.Proofs.Schema.Layout
import SchemaHost.Proofs.Schema.Placement
import SchemaHost.Proofs.Overview.Stored
import SchemaHost.Proofs.Console.Renaming
import SchemaHost.Proofs.Schema.Formed
import SchemaHost.Proofs.Schema.Stem
import SchemaHost.Proofs.Schema.Ordering
import SchemaHost.Proofs.Schema.Matches
