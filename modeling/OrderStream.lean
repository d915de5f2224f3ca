import OrderStream.Data.Dict
import OrderStream.Data.Sha256
import OrderStream.Data.PyFloat
import OrderStream.Data.Json
import OrderStream.Data.Utf8
import OrderStream.Data.Lines
import OrderStream.Theory.HashChain
import OrderStream.Theory.Transition
import OrderStream.Value
import OrderStream.Models
import OrderStream.Spine.Canonical
import OrderStream.Spine.EventSpine
import OrderStream.Spine.Chain
import OrderStream.Spine.Writers
import OrderStream.Spine.AppendErrors
import OrderStream.Spine.Tamper
import OrderStream.Spine.Reset
import OrderStream.Buffer.Cohesion
import OrderStream.Intent
import OrderStream.Buffer.Coalescing
import OrderStream.Buffer.CausalOrder
import OrderStream.Delivery.Pipeline
import OrderStream.Delivery.ReplayCursor
import OrderStream.Watcher.Agreement
import OrderStream.Watcher.AuditHistory
import OrderStream.Watcher.Lifecycle
import OrderStream.Watcher.NoChangeLost
import OrderStream.Auth
import OrderStream.Buffer.Conservation
import OrderStream.Buffer.Filter
import OrderStream.Watcher.Continuity
import OrderStream.Watcher.Convergence
import OrderStream.Delivery.Verifiable
import OrderStream.Delivery.Broker
import OrderStream.Delivery.Connections
import OrderStream.Delivery.Privacy
import OrderStream.Delivery.Dashboard
import OrderStream.Delivery.Snapshot
import OrderStream.Delivery.SnapshotTail
import OrderStream.Delivery.DashboardReplay
import OrderStream.Spine.Replay
import OrderStream.Spine.Head
import OrderStream.DiffChain
import OrderStream.Spine.Storage
import OrderStream.Buffer.Independence
import OrderStream.Buffer.Latency
import OrderStream.Delivery.Cancellation
import OrderStream.Watcher.Reconcile
import OrderStream.Delivery.Reconvergence
import OrderStream.Spine.Malformed
import OrderStream.Delivery.Registrations
import OrderStream.Delivery.Health
import OrderStream.Delivery.LiveView
import OrderStream.Routes.Records
import OrderStream.Routes.Orders
import OrderStream.Routes.History
import OrderStream.Demo.Simulator
import OrderStream.Demo.Events
import OrderStream.Theory.Overwrite
import OrderStream.Delivery.DashboardOrders
import OrderStream.Delivery.DashboardView
import OrderStream.Routes.Served
import OrderStream.Routes.Events
import OrderStream.Watcher.Rebuild
import OrderStream.Delivery.DashboardList
import OrderStream.Theory.Window
import OrderStream.Delivery.HealthWindows
import OrderStream.Delivery.Shutdown
import OrderStream.Delivery.EndToEnd
import OrderStream.Delivery.CliListener
import OrderStream.Watcher.CacheReset
import OrderStream.Watcher.TrailReset
import OrderStream.Delivery.Clients
import OrderStream.Delivery.Hello
import OrderStream.Delivery.DashboardPause
import OrderStream.Routes.Audit
