import TimedCache.Cache
import TimedCache.Cache.Plan
import TimedCache.Cache.Run
import TimedCache.Counters
import TimedCache.Entry
import TimedCache.Event
import TimedCache.Failure
import TimedCache.Item
import TimedCache.Key
import TimedCache.Proofs.Listing
import TimedCache.Proofs.Recency
import TimedCache.Recency
import TimedCache.Settings
import TimedCache.Settings.Name
import TimedCache.Settings.Variables
import TimedCache.Store
import TimedCache.Store.Run
import TimedCache.Sweeping.Patrol
import TimedCache.Sweeping.Script
import TimedCache.Sweeping.Sweeper
import TimedCache.Sweeping.Ticker
import TimedCache.Text.Blank
import TimedCache.Text.Numeral
import TimedCache.Text.Quoted
import TimedCache.Text.Unprintable
import TimedCache.Time.Clock
import TimedCache.Time.Duration
import TimedCache.Time.Instant
import TimedCache.Time.Unit
import TimedCache.Time.Unit.Reading
import TimedCache.Proofs.Store.Line
import TimedCache.Proofs.Store.Listed
import TimedCache.Proofs.Store.Coherence
import TimedCache.Proofs.Store.Live
import TimedCache.Proofs.Store.Readers
import TimedCache.Proofs.Store.Inclusion
import TimedCache.Proofs.Cache.Sweeps
import TimedCache.Proofs.Sweeping.Ticks
import TimedCache.Proofs.Sweeping.Schedule
import TimedCache.Proofs.Store.History
import TimedCache.Proofs.Store.Fate
import TimedCache.Proofs.Cache.Closed
import TimedCache.Proofs.Cache.Staleness
import TimedCache.Proofs.Store.Moments
import TimedCache.Proofs.Store.Balance
import TimedCache.Proofs.Store.Views
import TimedCache.Proofs.Store.Retention
import TimedCache.Proofs.Store.Lifetimes
import TimedCache.Proofs.Uses
import TimedCache.Proofs.Recency.Moves
import TimedCache.Proofs.Store.Writes
import TimedCache.Proofs.Store.LastUses
import TimedCache.Proofs.Store.Clients
import TimedCache.Proofs.Store.Sweeps
import TimedCache.Proofs.Store.Reads
import TimedCache.Proofs.Cache.Readings
import TimedCache.Proofs.Text.Numeral
import TimedCache.Proofs.Settings.Variables
import TimedCache.Proofs.Text.Case
import TimedCache.Proofs.Time.Unit
import TimedCache.Proofs.Time.Unit.Reading
import TimedCache.Proofs.Settings.RoundTrip
import TimedCache.Proofs.Cache.Reports
import TimedCache.Proofs.Entry
import TimedCache.Proofs.Cache.Plans
import TimedCache.Proofs.Store.Windows
