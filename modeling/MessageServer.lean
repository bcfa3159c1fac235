import MessageServer.Lib.Interleaving
import MessageServer.Lib.EpochLog
import MessageServer.Lib.Paging
import MessageServer.Store.Copies
import MessageServer.Store.FanOut
import MessageServer.Store.Pages
import MessageServer.Store.Secrecy
import MessageServer.Store.LinkBoxSweep
import MessageServer.Store.Negotiation
import MessageServer.Store.Pins
import MessageServer.Api.Ceiling
import MessageServer.Api.Secrecy
import MessageServer.Api.RoundTrip
import MessageServer.Api.Starvation
import MessageServer.Api.SubscriptionIndex
import MessageServer.Api.Window
import MessageServer.Api.Decision
import MessageServer.Api.LastPush
import MessageServer.Api.Claims
import MessageServer.Api.Alone
import MessageServer.Api.Floor
import MessageServer.Pgx.Unwanted
import MessageServer.Pgx.Fetch
import MessageServer.Pgx.Sequential
import MessageServer.Pgx.LinkBoxRuns
import MessageServer.Pgx.Rotation
import MessageServer.Pgx.Migrations
import MessageServer.Sweep.Pass
import MessageServer.Cmd.Limits
import MessageServer.Cmd.Dsn
import MessageServer.Endpoint.Connections
import MessageServer.Peer.Liveness
import MessageServer.Peer.Isolation
import MessageServer.Peer.Refusals
import MessageServer.Peer.Generations
import MessageServer.Peer.Representation
import MessageServer.Harness.Fragmentation
