import MiLsp.Daemon.ResultCache
import MiLsp.EditPlan.DirtyGuard
import MiLsp.EditPlan.Resolution
import MiLsp.EditPlan.Write
import MiLsp.FindFiles.Glob
import MiLsp.Graph.Communities
import MiLsp.Graph.CompareAndSet
import MiLsp.Graph.ContentIdentity
import MiLsp.Graph.Restage
import MiLsp.Ids.Resolve
import MiLsp.Incremental.RacilyClean
import MiLsp.LiveContext.SafeTarget
import MiLsp.Output.Limits
import MiLsp.Pool.Safety
import MiLsp.Pool.WatcherOrder
import MiLsp.Query.ByteBound
import MiLsp.Query.ImpactPaths
import MiLsp.Query.QuotedStages
import MiLsp.Query.SearchOverlay
import MiLsp.Query.SeenAfterShown
import MiLsp.Query.Select
import MiLsp.Registry.Serial
import MiLsp.Rename.Substitution
import MiLsp.Repair.AllOrNothing
import MiLsp.SelfUpdate.Extract
import MiLsp.SelfUpdate.NoDowngrade
import MiLsp.SelfUpdate.Precedence
import MiLsp.SelfUpdate.Recovery
import MiLsp.Snapshots.Safety
import MiLsp.Store.Cancellation
import MiLsp.Store.Liveness
import MiLsp.Watcher.Agreement
import MiLsp.Watcher.Poison
import MiLsp.Watcher.Timers
import MiLsp.WikiCode.Paging
