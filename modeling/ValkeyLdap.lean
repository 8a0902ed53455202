import ValkeyLdap.Lib.Runs
import ValkeyLdap.Lib.Endless
import ValkeyLdap.Lib.Monitor
import ValkeyLdap.Lib.Filter
import ValkeyLdap.Lib.Assertion
import ValkeyLdap.Lib.Dn
import ValkeyLdap.Lib.Session
import ValkeyLdap.Lib.Logged
import ValkeyLdap.Lib.Utf8
import ValkeyLdap.Lib.Acl
import ValkeyLdap.Lib.Reorder
import ValkeyLdap.Lib.Pieces
import ValkeyLdap.Lib.Simulation
import ValkeyLdap.Lib.Poison
import ValkeyLdap.Lib.Alike
import ValkeyLdap.Errors
import ValkeyLdap.Server
import ValkeyLdap.Pool
import ValkeyLdap.PoolRuns
import ValkeyLdap.Context
import ValkeyLdap.System
import ValkeyLdap.Moves
import ValkeyLdap.Aligned
import ValkeyLdap.StatusUpdates
import ValkeyLdap.Lookups
import ValkeyLdap.Delivery
import ValkeyLdap.Ownership
import ValkeyLdap.Custody
import ValkeyLdap.FixedList
import ValkeyLdap.Health
import ValkeyLdap.Iteration
import ValkeyLdap.SettingsKept
import ValkeyLdap.Attended
import ValkeyLdap.Waiting
import ValkeyLdap.Release
import ValkeyLdap.Recovery
import ValkeyLdap.Connection
import ValkeyLdap.SearchFilter
import ValkeyLdap.Failover
import ValkeyLdap.Histories
import ValkeyLdap.Auth
import ValkeyLdap.Replies
import ValkeyLdap.Credentials
import ValkeyLdap.Accounts
import ValkeyLdap.Permissions
import ValkeyLdap.Tokens
import ValkeyLdap.Exemption
import ValkeyLdap.Names
import ValkeyLdap.CachedPassword
import ValkeyLdap.LatestAnswer
import ValkeyLdap.GroupFilter
import ValkeyLdap.RuleTokens
import ValkeyLdap.UserSearch
import ValkeyLdap.Replacement
import ValkeyLdap.Visits
import ValkeyLdap.ServerList
import ValkeyLdap.Startup
import ValkeyLdap.BindDn
import ValkeyLdap.PoolWaits
import ValkeyLdap.Logging
import ValkeyLdap.Scheduler
import ValkeyLdap.SyncTasks
import ValkeyLdap.Lifecycle
import ValkeyLdap.AuthJobs
import ValkeyLdap.Options
import ValkeyLdap.Reports
import ValkeyLdap.Logger
import ValkeyLdap.Secrecy
import ValkeyLdap.Version
import ValkeyLdap.Tls
import ValkeyLdap.Causes
