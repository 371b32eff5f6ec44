import Geryon.Pool.Delivery
import Geryon.Ownership.Handover
import Geryon.Ownership.Pairing
import Geryon.Initialised.Goroutines
import Geryon.Manager.Waiters
import Geryon.Startup.Users
import Geryon.Startup.Handshake
import Geryon.Startup.NTLM
import Geryon.Cache.Invalidation
import Geryon.Proxy.Completion
import Geryon.Proxy.Outgoing
import Geryon.Raft.Apply
import Geryon.Raft.Final
import Geryon.Raft.Votes
import Geryon.Raft.Reload
import Geryon.Raft.WALList
import Geryon.Swim.Gossip
import Geryon.Swim.Runs
import Geryon.Swim.Probes
import Geryon.Pool.Health
import Geryon.Raft.FSM
import Geryon.Raft.Bookkeeping
import Geryon.Cluster.Acknowledge
import Geryon.Raft.Speaking
import Geryon.Proxy.Holding
import Geryon.Startup.Limiter
import Geryon.Startup.Credentials
import Geryon.Startup.RoundTrip
import Geryon.Pool.Prepared
import Geryon.Pool.Routing
import Geryon.Protocol.Batch
import Geryon.Startup.PBKDF2
import Geryon.Startup.Pattern
import Geryon.Swim.Signature
import Geryon.Logger.QueryLog
