import Concordia.Lib.Run
import Concordia.Lib.Linear
import Concordia.Lib.ConsumerGroup
import Concordia.Lib.Replay
import Concordia.Lib.Purge
import Concordia.Lib.Window
import Concordia.Lib.CircuitBreaker
import Concordia.Lib.Rows
import Concordia.Lib.Dict
import Concordia.Lib.DictIterator
import Concordia.Lib.Headers
import Concordia.Lib.Url
import Concordia.Lib.Delegation
import Concordia.Lib.ExpiringCache
import Concordia.Lib.Paging
import Concordia.Lib.OffsetPaging
import Concordia.Lib.ServeMux
import Concordia.Lib.Json
import Concordia.Lib.Decimal
import Concordia.Lib.Strconv
import Concordia.Lib.Calendar
import Concordia.Lib.Rfc3339
import Concordia.Lib.Float64
import Concordia.Lib.HashChain
import Concordia.Servers.Db
import Concordia.Servers.Operations
import Concordia.Servers.Effects
import Concordia.Servers.Invariant
import Concordia.Servers.Effective
import Concordia.Servers.Authority
import Concordia.Servers.CheckPerm
import Concordia.Servers.UuidText
import Concordia.Servers.Manage
import Concordia.Servers.Listings
import Concordia.Servers.UsersCache
import Concordia.Servers.AuditTrail
import Concordia.Servers.PermCache
import Concordia.Chat.Messages
import Concordia.Chat.Pagination
import Concordia.Chat.Create
import Concordia.Chat.ServerCache
import Concordia.Chat.Entitlement
import Concordia.Chat.Uploads
import Concordia.Chat.Writes
import Concordia.Chat.Walk
import Concordia.Chat.Requests
import Concordia.Chat.AccessControl
import Concordia.Chat.Staleness
import Concordia.Chat.Deletions
import Concordia.Chat.AttachmentUrl
import Concordia.Chat.Renderings
import Concordia.Chat.UserRegistry
import Concordia.Chat.Mentions
import Concordia.Auth.Service
import Concordia.Auth.Tokens
import Concordia.Auth.Sequential
import Concordia.Auth.Rotation
import Concordia.Auth.Logout
import Concordia.Auth.Endpoints
import Concordia.Auth.Accounts
import Concordia.Auth.Exchange
import Concordia.Auth.History
import Concordia.Auth.Profile
import Concordia.Auth.Trail
import Concordia.Voice.Signaling
import Concordia.Voice.System
import Concordia.Voice.ActiveConnections
import Concordia.Voice.Relaying
import Concordia.Voice.Cleanup
import Concordia.Voice.Broadcast
import Concordia.Voice.Authorization
import Concordia.Voice.Agreement
import Concordia.Voice.Calls
import Concordia.Voice.Candidates
import Concordia.Voice.Joining
import Concordia.Voice.Offers
import Concordia.Web.Session
import Concordia.Web.Messages
import Concordia.Web.ChannelView
import Concordia.Web.Reconciliation
import Concordia.Web.Reconnect
import Concordia.Lib.Segments
import Concordia.Web.MessageList
import Concordia.Web.Deletion
import Concordia.Presence.Redis
import Concordia.Presence.Sessions
import Concordia.Presence.Index
import Concordia.Presence.Heartbeats
import Concordia.Presence.Concurrent
import Concordia.Push.System
import Concordia.Push.Steps
import Concordia.Push.Confidentiality
import Concordia.Push.Delivery
import Concordia.Gateway.Subscription
import Concordia.Gateway.Lifecycle
import Concordia.Gateway.Access
import Concordia.Gateway.Routing
import Concordia.Gateway.Send
import Concordia.Gateway.ChatEndpoint
import Concordia.Gateway.RateLimit
import Concordia.Gateway.RateWindow
import Concordia.Gateway.RetryAfter
import Concordia.Gateway.Backplane
import Concordia.Gateway.Connections
import Concordia.Gateway.Identity
import Concordia.Gateway.Forwarding
import Concordia.Gateway.ClientAddress
import Concordia.Gateway.ActingUser
import Concordia.Gateway.Breaker
import Concordia.Gateway.OpenState
import Concordia.Gateway.Recovery
import Concordia.Gateway.BreakerSettings
import Concordia.Gateway.FanOut
import Concordia.Tips.Service
import Concordia.Tips.Paging
import Concordia.Tips.Amounts
import Concordia.Tips.Privacy
import Concordia.Audit.Event
import Concordia.Audit.Columns
import Concordia.Audit.Store
import Concordia.Audit.RoundTrip
import Concordia.Audit.Commitment
import Concordia.Audit.Instances
import Concordia.Audit.Localise
import Concordia.Audit.Query
import Concordia.Audit.Emit
