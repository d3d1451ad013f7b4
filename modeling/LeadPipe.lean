import LeadPipe.Framework.Table
import LeadPipe.Framework.Ranking
import LeadPipe.Framework.Selection
import LeadPipe.Framework.Transaction
import LeadPipe.Framework.Program
import LeadPipe.Framework.Tally
import LeadPipe.Framework.Transition
import LeadPipe.Framework.Clustering
import LeadPipe.Framework.Dialogue
import LeadPipe.Framework.Rounding
import LeadPipe.Framework.Paging
import LeadPipe.Python.Text
import LeadPipe.Python.Dicts
import LeadPipe.Python.Urllib
import LeadPipe.Python.UrlLaws
import LeadPipe.Python.Urljoin
import LeadPipe.Python.Queries
import LeadPipe.Python.CodePoints
import LeadPipe.Domain.Models
import LeadPipe.Platform
import LeadPipe.Normalization.Fields
import LeadPipe.Normalization.Sites
import LeadPipe.Normalization.Tidy
import LeadPipe.Normalization.Hosts
import LeadPipe.Normalization.Emails
import LeadPipe.Normalization.Variants
import LeadPipe.Normalization.NormalForm
import LeadPipe.Normalization.CodePoints
import LeadPipe.Validation.Lead
import LeadPipe.Validation.Websites
import LeadPipe.Validation.Grades
import LeadPipe.Validation.CodePoints
import LeadPipe.Deduplication.Fingerprint
import LeadPipe.Framework.Tokens
import LeadPipe.Framework.Traversal
import LeadPipe.Deduplication.Slugs
import LeadPipe.Deduplication.Matcher
import LeadPipe.Deduplication.Merge
import LeadPipe.Deduplication.MergeLaws
import LeadPipe.Deduplication.Precedence
import LeadPipe.Deduplication.Placeholders
import LeadPipe.Deduplication.Agreement
import LeadPipe.Deduplication.Parity
import LeadPipe.Db.Models
import LeadPipe.Repositories.Leads
import LeadPipe.Repositories.Records
import LeadPipe.Repositories.Suppressions
import LeadPipe.Repositories.Jobs
import LeadPipe.Pipeline.Runner
import LeadPipe.Pipeline.Statements
import LeadPipe.Pipeline.Ingest
import LeadPipe.Pipeline.Effect
import LeadPipe.Pipeline.Integrity
import LeadPipe.Pipeline.Keys
import LeadPipe.Pipeline.Lookup
import LeadPipe.Pipeline.Ownership
import LeadPipe.Pipeline.Anchors
import LeadPipe.Pipeline.Collections
import LeadPipe.Pipeline.Accounting
import LeadPipe.Pipeline.Derived
import LeadPipe.Pipeline.Retention
import LeadPipe.Pipeline.Provenance
import LeadPipe.Pipeline.Rerun
import LeadPipe.Pipeline.Repetition
import LeadPipe.Pipeline.Separation
import LeadPipe.Pipeline.Evidence
import LeadPipe.Pipeline.Gathering
import LeadPipe.Pipeline.Orders
import LeadPipe.Privacy.Erasure
import LeadPipe.Privacy.Contacts
import LeadPipe.Privacy.StoredContacts
import LeadPipe.Privacy.Running
import LeadPipe.Jobs.Queue
import LeadPipe.Jobs.Workers
import LeadPipe.Jobs.Lifecycle
import LeadPipe.Jobs.Budget
import LeadPipe.Jobs.Exclusive
import LeadPipe.Jobs.Service
import LeadPipe.Jobs.Scheduling
import LeadPipe.Jobs.Worker
import LeadPipe.Jobs.Heartbeat
import LeadPipe.Jobs.Overlap
import LeadPipe.Jobs.FailedRuns
import LeadPipe.Api.Listing
import LeadPipe.Fetch.Urls
import LeadPipe.Fetch.Client
import LeadPipe.Fetch.Runs
import LeadPipe.Fetch.Surroundings
import LeadPipe.Fetch.Vetting
import LeadPipe.Fetch.Obedience
import LeadPipe.Framework.Interleaving
import LeadPipe.Framework.Throttle
import LeadPipe.Fetch.Limits
import LeadPipe.Fetch.Politeness
import LeadPipe.Fetch.Spacing
import LeadPipe.Sources.Api
import LeadPipe.Sources.Html
import LeadPipe.Sources.Runs
import LeadPipe.Sources.Credentials
import LeadPipe.Sources.Failures
import LeadPipe.Sources.Pagination
import LeadPipe.Config.Cron
import LeadPipe.Config.DaysOfWeek
import LeadPipe.Config.Loader
import LeadPipe.Config.Policy
import LeadPipe.Config.Interpolation
import LeadPipe.Config.Options
import LeadPipe.Framework.Csv
import LeadPipe.Framework.JsonText
import LeadPipe.Exports.Writers
import LeadPipe.Sources.Csv
import LeadPipe.Exports.Collected
import LeadPipe.Jobs.Fairness
import LeadPipe.Jobs.Draining
import LeadPipe.Framework.Triple
import LeadPipe.Framework.Constraints
import LeadPipe.Db.Constraints
import LeadPipe.Repositories.Admission
import LeadPipe.Pipeline.Admission
import LeadPipe.System.Operations
import LeadPipe.Api.Routes
import LeadPipe.System.Erasure
import LeadPipe.System.JobRows
import LeadPipe.Framework.Spending
import LeadPipe.Fetch.Costs
import LeadPipe.Sources.Costs
import LeadPipe.System.Suppression
import LeadPipe.System.Sources
import LeadPipe.Framework.Books
import LeadPipe.System.Reports
import LeadPipe.System.Scope
import LeadPipe.System.Origins
import LeadPipe.Framework.Continuity
import LeadPipe.System.Identity
