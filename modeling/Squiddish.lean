import Squiddish.Lib.Runs
import Squiddish.Lib.Progress
import Squiddish.Lib.Channels
import Squiddish.Lib.Text
import Squiddish.Lib.Trim
import Squiddish.Lib.Infix
import Squiddish.Lib.Labels
import Squiddish.Lib.Utf8
import Squiddish.Lib.Prog
import Squiddish.Lib.FileStore
import Squiddish.Lib.Fifo
import Squiddish.Lib.Listing
import Squiddish.Lib.Pool
import Squiddish.Lib.Escape
import Squiddish.Lib.Floats
import Squiddish.Lib.Decimals
import Squiddish.Error
import Squiddish.Config
import Squiddish.Settings
import Squiddish.Sizes
import Squiddish.Http
import Squiddish.Proxy.Validate
import Squiddish.Proxy.Damage
import Squiddish.Proxy.Hosts
import Squiddish.Proxy.Connect
import Squiddish.Proxy.Connections
import Squiddish.Cache.Entry
import Squiddish.Cache.Paths
import Squiddish.Cache.Disk
import Squiddish.Cache.Effects
import Squiddish.Cache.Index
import Squiddish.Cache.Balance
import Squiddish.Cache.Example
import Squiddish.Cache.Accounting
import Squiddish.Cache.Jobs
import Squiddish.Cache.Crashes
import Squiddish.Cache.Faults
import Squiddish.Cache.Refinement
import Squiddish.Cache.Restarts
import Squiddish.Cache.Resizing
import Squiddish.Cache.Evictions
import Squiddish.Cache.Tiered
import Squiddish.Cache.Lookups
import Squiddish.Cache.Copies
import Squiddish.Cache.Generations
import Squiddish.Cache.Machine
import Squiddish.Cache.Cuts
import Squiddish.Cache.Interruption
import Squiddish.Proxy.Caching
import Squiddish.Cache.Keys
import Squiddish.Proxy.Forward
import Squiddish.Inflight.Downloads
import Squiddish.Proxy.Respond
import Squiddish.Proxy.ErrorPage
import Squiddish.Proxy.Fetch
import Squiddish.Proxy.Handler
import Squiddish.Proxy.Directives
import Squiddish.Proxy.Prohibitions
import Squiddish.Proxy.HopByHop
import Squiddish.Proxy.Loops
import Squiddish.Proxy.Apt
import Squiddish.Proxy.Indexes
import Squiddish.Proxy.Freshness
import Squiddish.Proxy.Lifetimes
import Squiddish.Inflight.System
import Squiddish.Inflight.Registry
import Squiddish.Inflight.Ownership
import Squiddish.Inflight.Delivery
import Squiddish.Inflight.Progress
import Squiddish.Inflight.Handlers
import Squiddish.Inflight.Answers
import Squiddish.Inflight.Locks
import Squiddish.Inflight.Offsets
import Squiddish.Inflight.Atomicity
import Squiddish.Inflight.Tiers
import Squiddish.Inflight.Assembly
import Squiddish.Inflight.Bodies
import Squiddish.Inflight.Tasks
import Squiddish.Inflight.Headers
import Squiddish.Inflight.Lagging
import Squiddish.Inflight.Entitlement
import Squiddish.Inflight.Reuse
import Squiddish.Inflight.Limits
import Squiddish.Inflight.Partial
import Squiddish.Inflight.Credentials
import Squiddish.Inflight.Variants
import Squiddish.Inflight.Uniform
import Squiddish.Inflight.Sharing
import Squiddish.Inflight.Coalescing
import Squiddish.Inflight.Resources
import Squiddish.Cache.Shared
import Squiddish.Cache.Pairs
import Squiddish.Cache.Tearing
import Squiddish.Cache.Weights
import Squiddish.Cache.Trees
import Squiddish.Cache.Orphans
import Squiddish.Lib.Decimals
import Squiddish.Sizes
