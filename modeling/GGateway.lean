import GGateway.Router.Stability
import GGateway.Telemetry.Accounting
import GGateway.Upstream.Recovery
import GGateway.Upstream.Disruption
import GGateway.Proxy.ClientFailures
import GGateway.Upstream.Circulation
import GGateway.Runtime.Reenabling
import GGateway.Runtime.Resilience
import GGateway.Tunnel.Registry
import GGateway.Upstream.Schedule
import GGateway.Runtime.Progress
import GGateway.DownstreamTLS.Selection
import GGateway.Upstream.Sharing
import GGateway.Router.Captures
import GGateway.Router.Hosts
import GGateway.Upstream.RingWalk
import GGateway.Upstream.HashKeys
import GGateway.Proxy.Commit
import GGateway.WebSocket.RoundTrip
import GGateway.Proxy.Rejected
