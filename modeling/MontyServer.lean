import MontyServer.Classify
import MontyServer.Progress
import MontyServer.Reaper
import MontyServer.Capacity
import MontyServer.Isolation
import MontyServer.Permits
import MontyServer.Representation
import MontyServer.Futures
import MontyServer.Expiry
import MontyServer.Literals
import MontyServer.RoundTrip
import MontyServer.RateLimit
import MontyServer.Tenancy
import MontyServer.Snapshot
import MontyServer.Timekeeping
import MontyServer.Gates
import MontyServer.OsCalls
import MontyServer.Orphans
import MontyServer.Refills
import MontyServer.Startup
import MontyServer.Completion
import MontyServer.Admission
import MontyServer.Departures
import MontyServer.Provenance
import MontyServer.Consistency
import MontyServer.Alone
import MontyServer.Failures
import MontyServer.Discovery
import MontyServer.Loading
import MontyServer.Buckets
import MontyServer.Sweep
import MontyServer.Open
