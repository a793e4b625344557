import MediaRelay.PathKey
import MediaRelay.Uuid
import MediaRelay.Text.CodeRanges
import MediaRelay.Text.Visible
import MediaRelay.Text.Extending
import MediaRelay.Text.Quoted
import MediaRelay.Fault
import MediaRelay.Octets
import MediaRelay.Source.Basic
import MediaRelay.Text.Blank
import MediaRelay.Http.Request
import MediaRelay.Http.Response
import MediaRelay.Input.Gate
import MediaRelay.Net.Ipv4
import MediaRelay.Net.Ipv6
import MediaRelay.Net.SocketAddr
import MediaRelay.Input.State
import MediaRelay.Input.Lifecycle
import MediaRelay.Media.Kind
import MediaRelay.Net.Host
import MediaRelay.Route
import MediaRelay.Input.Worker
import MediaRelay.Source.Buffered
import MediaRelay.Media.Framing
import MediaRelay.Media.Flv
import MediaRelay.Media.Ogg.Crc
import MediaRelay.Media.Ogg.Page
import MediaRelay.Media.Ogg.Streams
import MediaRelay.Media.TransportStream
import MediaRelay.Media.Reader
import MediaRelay.Registry.Queue
import MediaRelay.Registry.Store
import MediaRelay.Registry.Clients
import MediaRelay.Registry.Tasks
import MediaRelay.Relay.Server
import MediaRelay.Relay.Connection
import MediaRelay.Relay.Hosting
import MediaRelay.Source.Chunked
import MediaRelay.Source.Datagrams
import MediaRelay.Relay.Session
import MediaRelay.Relay.Scenario
import MediaRelay.Proofs.Stream
import MediaRelay.Proofs.Requests
import MediaRelay.Proofs.Flv
import MediaRelay.Proofs.Ogg.Scan
import MediaRelay.Proofs.Ogg.Pages
import MediaRelay.Proofs.Ogg.Units
import MediaRelay.Proofs.Ogg.Drain
import MediaRelay.Proofs.Ogg.Table
import MediaRelay.Proofs.Ogg.Header
import MediaRelay.Proofs.Chunking
import MediaRelay.Proofs.Registry.Table
import MediaRelay.Proofs.Registry.Registration
import MediaRelay.Proofs.Registry.Slots
import MediaRelay.Proofs.Registry.Attachments
import MediaRelay.Proofs.Registry.FanOut
import MediaRelay.Proofs.Http.RequestLine
import MediaRelay.Proofs.Http.RequestHead
import MediaRelay.Proofs.TransportStream
import MediaRelay.Proofs.Registry.OnDemand
import MediaRelay.Proofs.Registry.Accounting
import MediaRelay.Proofs.Registry.UpdateOrder
import MediaRelay.Proofs.Ogg.Checksum
import MediaRelay.Proofs.DatagramStream
import MediaRelay.Scheduler.Basic
import MediaRelay.Scheduler.StopQueue
import MediaRelay.Proofs.Scheduler.Lifecycle
import MediaRelay.Proofs.Scheduler.SelfStop
import MediaRelay.Proofs.BufferedReads
import MediaRelay.Proofs.Ogg.Sync
import MediaRelay.Proofs.Activation
import MediaRelay.Proofs.Scheduler.Stopping
import MediaRelay.Proofs.Registry.Removal
import MediaRelay.Proofs.Relay.Hosting
import MediaRelay.Proofs.Relay.Refusals
import MediaRelay.Proofs.Relay.Invariant
import MediaRelay.Proofs.Relay.InputRemoval
