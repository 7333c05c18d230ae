import Tunnel.Agreement
import Tunnel.Args
import Tunnel.Conn.Expiry
import Tunnel.Conn.Handshake
import Tunnel.Conn.Inflow
import Tunnel.Conn.Memory
import Tunnel.Conn.Ready
import Tunnel.Conn.Relay
import Tunnel.Conn.Retire
import Tunnel.Conn.Wakes
import Tunnel.Engine.Locked
import Tunnel.Engine.Paced
import Tunnel.Engine.Restored
import Tunnel.Engine.Tripwire
import Tunnel.Gui.Tables
import Tunnel.Inspect.Convergence
import Tunnel.Inspect.Enrich
import Tunnel.Inspect.Own
import Tunnel.Inspect.Rollups
import Tunnel.Portmap.Release
import Tunnel.Portmap.Renewal
import Tunnel.Portmap.Restart
import Tunnel.Probe.Encoding
import Tunnel.Probe.Inert
import Tunnel.Probe.Job
import Tunnel.Probe.Question
import Tunnel.Probe.Rdata
import Tunnel.Probe.Records
import Tunnel.Probe.Scan
import Tunnel.Route
import Tunnel.Wg.Checksum
import Tunnel.Wg.Driver
import Tunnel.Wg.Leased
import Tunnel.Wg.Echo
import Tunnel.Wg.Fragments
import Tunnel.Wg.Frame
import Tunnel.Wg.Peer
import Tunnel.Wg.Reuse
import Tunnel.Wg.RoundTrip
