import TinyProbe.Lib.Run
import TinyProbe.Lib.Map
import TinyProbe.Lib.History
import TinyProbe.Lib.Stream
import TinyProbe.Base.Text
import TinyProbe.Base.Time
import TinyProbe.Base.Float64
import TinyProbe.Live.Snapshot
import TinyProbe.Live.Store
import TinyProbe.Alerting.Model
import TinyProbe.Alerting.StateMachine
import TinyProbe.Alerting.Policy
import TinyProbe.Alerting.Metrics
import TinyProbe.Alerting.Repository
import TinyProbe.Alerting.Evaluator
import TinyProbe.Alerting.Service
import TinyProbe.Alerting.Log
import TinyProbe.Alerting.Pairing
import TinyProbe.Alerting.Continuity
import TinyProbe.Alerting.Queue
import TinyProbe.Alerting.Handover
import TinyProbe.Alerting.Relabel
import TinyProbe.Alerting.Handler
import TinyProbe.Alerting.Reminders
import TinyProbe.Alerting.Dispatcher
import TinyProbe.History.Accumulator
import TinyProbe.History.Aggregator
import TinyProbe.History.Conservation
import TinyProbe.History.Rows
import TinyProbe.Lib.Table
import TinyProbe.Servers.Registry
import TinyProbe.Live.Coordinator
import TinyProbe.Live.Steps
import TinyProbe.Lib.Keyset
import TinyProbe.Lib.Decimal
import TinyProbe.Base.Rfc3339
import TinyProbe.Live.Agreement
import TinyProbe.Live.Deletion
import TinyProbe.Live.Revocation
import TinyProbe.Live.Arrival
import TinyProbe.Live.Hub
import TinyProbe.Live.Status
import TinyProbe.Web.Snapshots
import TinyProbe.Web.LivePage
import TinyProbe.Web.Convergence
import TinyProbe.History.Query
import TinyProbe.History.Archive
import TinyProbe.History.Timeline
import TinyProbe.Auth.Sessions
import TinyProbe.Alerting.Edits
import TinyProbe.App.Safety
import TinyProbe.History.Aggregate
import TinyProbe.Lib.Runs
import TinyProbe.Web.ChartSeries
import TinyProbe.Lib.Extremum
import TinyProbe.Web.ChartScan
import TinyProbe.Web.ChartShape
import TinyProbe.Web.ChartBudget
import TinyProbe.Web.MinuteSeries
import TinyProbe.Live.Window
import TinyProbe.Live.Channels
import TinyProbe.Live.Membership
import TinyProbe.Live.Delivery
import TinyProbe.Lib.Comparator
import TinyProbe.Web.LiveHook
import TinyProbe.Web.Freshness
import TinyProbe.Web.ServerCollection
import TinyProbe.Web.Installation
import TinyProbe.Web.ServersPage
import TinyProbe.Web.PageHook
import TinyProbe.Lib.Json
import TinyProbe.Base.Finite
import TinyProbe.Alerting.Template
import TinyProbe.Alerting.Placement
import TinyProbe.Alerting.Webhook
import TinyProbe.Alerting.Sending
import TinyProbe.Alerting.Events
import TinyProbe.Alerting.RuleForms
import TinyProbe.Live.Ingest
import TinyProbe.Alerting.DiskAlerts
import TinyProbe.Base.Ranged
import TinyProbe.History.Persistence
import TinyProbe.Web.HistoryHook
import TinyProbe.Web.HistoryShown
import TinyProbe.Web.Backend
import TinyProbe.Web.Reflection
import TinyProbe.Db.Migrations
import TinyProbe.Auth.Setup
import TinyProbe.Agent.Routes
import TinyProbe.Agent.Source
import TinyProbe.Agent.Rates
import TinyProbe.Agent.DiskRates
import TinyProbe.Agent.Reports
import TinyProbe.Db.AlertView
import TinyProbe.Db.Cascade
import TinyProbe.Alerting.Columns
import TinyProbe.Web.EventSource
import TinyProbe.Alerting.AttemptLog
import TinyProbe.History.Jobs
import TinyProbe.Auth.Admission
import TinyProbe.Web.TokenKept
import TinyProbe.Agent.Runner
