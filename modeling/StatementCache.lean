import StatementCache.Mapper
import StatementCache.Script.Run
import StatementCache.Proofs.Sessions.Transparency
import StatementCache.Proofs.Sessions.Reuse
import StatementCache.Proofs.Sessions.Durability
import StatementCache.Proofs.Sessions.Freshness
import StatementCache.Proofs.Overlay.History
import StatementCache.Proofs.Overlay.Rollback
import StatementCache.Proofs.Sessions.OwnReads
import StatementCache.Proofs.Alike
import StatementCache.Proofs.Contents.Passive
import StatementCache.Proofs.Overlay.Paired
import StatementCache.Proofs.Sessions.Likeness
import StatementCache.Proofs.Sessions.Isolation
import StatementCache.Proofs.Contents.Visits
import StatementCache.Proofs.Sessions.Tenure
import StatementCache.Proofs.Contents.Invisible
import StatementCache.Proofs.Key.Calls
import StatementCache.Proofs.Key.Making
import StatementCache.Proofs.Snapshot.Canonical
import StatementCache.Proofs.Snapshot.Storing
import StatementCache.Proofs.Overlay.Piecewise
import StatementCache.Proofs.Nesting.Termination
import StatementCache.Proofs.Nesting.Memoization
import StatementCache.Proofs.Sessions.Responsibility
import StatementCache.Proofs.Overlay.Burial
import StatementCache.Proofs.Overlay.Fanout
import StatementCache.Proofs.Eviction.Inclusion
import StatementCache.Proofs.Eviction.Arrivals
import StatementCache.Proofs.Eviction.Refusals
import StatementCache.Proofs.Eviction.Tiers
import StatementCache.Proofs.Assembly.Limits
import StatementCache.Proofs.Sessions.Rejection
import StatementCache.Proofs.Eviction.Stacks
import StatementCache.Proofs.Overlay.Overflow
import StatementCache.Proofs.Statistics.Exact
import StatementCache.Proofs.Config.RoundTrip
import StatementCache.Proofs.Value.Comparison
