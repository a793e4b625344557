import MediaRelay.Fault
import MediaRelay.Media.Kind
import MediaRelay.Net.Host

-- A route says where an input's stream comes from: a host and port, TCP or UDP, and for UDP whether
-- the host is a multicast group to join. An input is a route published under a path with a media
-- kind, a name and an identifier of its own.

namespace MediaRelay

inductive Protocol
  | tcp
  | udp
deriving DecidableEq, Repr, Inhabited

namespace Protocol

def name : Protocol → String
  | tcp => "tcp"
  | udp => "udp"

-- The protocol a name denotes, ignoring blanks at both ends and the case of ASCII letters; an
-- unknown name is refused in that normal form.
def parse (s : String) : Except Fault Protocol :=
  match Text.foldName s with
  | "tcp" => .ok tcp
  | "udp" => .ok udp
  | other => .error (.route (.unknownProtocol other))

end Protocol

inductive Cast
  | unicast
  | multicast
deriving DecidableEq, Repr, Inhabited

structure Route where
  uuid : Uuid
  name : String := ""
  host : String
  port : Nat
  protocol : Protocol
  cast : Cast := .unicast
deriving DecidableEq

namespace Route

def display (r : Route) : String :=
  r.protocol.name ++ "://" ++ r.host ++ ":" ++ toString r.port

def validate (r : Route) : Except Fault Unit :=
  if (Text.trimBlank r.host).isEmpty then .error (.route (.emptyHost r.uuid)) else .ok ()

def multicastGroup (r : Route) : Except Fault (Option Net.Ipv4) :=
  match r.cast with
  | .unicast => .ok none
  | .multicast =>
    match Net.Ipv4.parse? r.host with
    | some g => if g.isMulticast then .ok (some g) else .error (.route (.notMulticast r.host))
    | none => .error (.route (.notMulticast r.host))

-- the socket address a route binds to: the unspecified address for a multicast group, the host
-- itself when it is an IP address, and otherwise the first address the host name stands for
def resolve (host : Net.Host) (r : Route) : Except Fault Net.SocketAddr := do
  r.validate
  if (← r.multicastGroup).isSome then
    return { ip := .v4 Net.Ipv4.unspecified, port := r.port }
  if let some ip := Net.IpAddr.parse? r.host then
    return { ip, port := r.port }
  match ← (host.resolve r.host r.port).mapError .io with
  | a :: _ => return a
  | [] => throw (.route (.cannotResolve r.host))

end Route

structure InputDescriptor where
  uuid : Uuid
  name : String := ""
  route : Route
  path : String
  media : MediaKind
deriving DecidableEq

def InputDescriptor.key (d : InputDescriptor) : PathKey :=
  PathKey.ofPath d.path

end MediaRelay
