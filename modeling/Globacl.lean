import Globacl.Core.Decisions
import Globacl.Core.Loading
import Globacl.Core.Operations
import Globacl.Core.Rebuild
import Globacl.Core.Served
import Globacl.Core.Truncated
import Globacl.Core.Unbounded
import Globacl.Edge.Base
import Globacl.Edge.Order
import Globacl.Agent.Forward
import Globacl.Commitd.Published
import Globacl.Commitd.Duplicates
import Globacl.Commitd.Pull
import Globacl.Commitd.Fence
import Globacl.Commitd.Hints
import Globacl.Commitd.Slots
import Globacl.Commitd.Startup
import Globacl.Commitd.Together
import Globacl.Commitd.Aborts
import Globacl.Commitd.Install
import Globacl.Lib.Writes
import Globacl.Lib.Best
import Globacl.Agent.Verify
import Globacl.Edge.Exact
import Globacl.Edge.Faults
import Globacl.Relay.Cache
import Globacl.Demo.Proxy
import Globacl.Commitd.Latest
import Globacl.Commitd.Restored
import Globacl.Commitd.Counts
import Globacl.Core.Patterns
import Globacl.Core.ShardLogs
import Globacl.Commitd.Publisher
import Globacl.Commitd.Unpublished
import Globacl.Relay.Acked
import Globacl.Commitd.Acks
import Globacl.Agent.Gaps
import Globacl.Edge.Reload
import Globacl.Agent.Turns
import Globacl.Agent.Files
import Globacl.Agent.Provenance
import Globacl.Commitd.Dates
import Globacl.Core.Keyring
import Globacl.Core.Percent
import Globacl.Core.Nats
import Globacl.Core.Auth
import Globacl.Edge.Bookkeeping
import Globacl.Edge.Causes
import Globacl.Control.Gateway
import Globacl.Commitd.AckQuorum
import Globacl.Commitd.Committed
import Globacl.Commitd.CommitIds
import Globacl.Commitd.Config
import Globacl.Commitd.Wire
import Globacl.Commitd.Network
