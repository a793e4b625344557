import MediaRelay.Net.Ipv6

-- An IP address is an IPv4 or an IPv6 address; a text names an IP address when it is exactly an
-- IPv4 address or exactly an IPv6 address. A socket address adds a port, and is written
-- `address:port`, with an IPv6 address between brackets; an IPv6 socket address may also name a
-- scope, written after the address and a percent sign. Ports and scopes are decimal numerals that
-- may have leading zeros.

namespace MediaRelay

namespace Net

inductive IpAddr
  | v4 (ip : Ipv4)
  | v6 (ip : Ipv6)
deriving DecidableEq, Repr

def IpAddr.parse? (s : String) : Option IpAddr :=
  match Ipv4.parse? s with
  | some ip => some (.v4 ip)
  | none => (Ipv6.parse? s).map .v6

def IpAddr.isLoopback : IpAddr → Bool
  | .v4 ip => ip.a == 127
  | .v6 ip => ip.groups == [0, 0, 0, 0, 0, 0, 0, 1]

def IpAddr.isUnspecified : IpAddr → Bool
  | .v4 ip => ip == Ipv4.unspecified
  | .v6 ip => ip.groups == [0, 0, 0, 0, 0, 0, 0, 0]

structure SocketAddr where
  ip : IpAddr
  port : Nat
  scope : Nat := 0
deriving DecidableEq, Repr

namespace SocketAddr

def readDecimal (bound : Nat) (cs : List Char) : Option (Nat × List Char) :=
  readNumber 10 cs.length bound true cs

def read? (cs : List Char) : Option (SocketAddr × List Char) :=
  let v4 : Option (SocketAddr × List Char) := do
    let (ip, cs) ← Ipv4.read? cs
    let cs ← readChar ':' cs
    let (port, cs) ← readDecimal 0xFFFF cs
    return (⟨.v4 ip, port, 0⟩, cs)
  let v6 : Option (SocketAddr × List Char) := do
    let cs ← readChar '[' cs
    let (ip, cs) ← Ipv6.read? cs
    let (scope, cs) := match readChar '%' cs with
      | some rest => (readDecimal 0xFFFFFFFF rest).getD (0, cs)
      | none => (0, cs)
    let cs ← readChar ']' cs
    let cs ← readChar ':' cs
    let (port, cs) ← readDecimal 0xFFFF cs
    return (⟨.v6 ip, port, scope⟩, cs)
  v4 <|> v6

def parse? (s : String) : Option SocketAddr :=
  match read? s.toList with
  | some (a, []) => some a
  | _ => none

def display (a : SocketAddr) : String :=
  match a.ip with
  | .v4 ip => ip.display ++ ":" ++ toString a.port
  | .v6 ip =>
    let scope := if a.scope = 0 then "" else "%" ++ toString a.scope
    "[" ++ ip.display ++ scope ++ "]:" ++ toString a.port

example : (parse? "[::1]:80").map display = some "[::1]:80" ∧
    (parse? "10.0.0.1:65535").map display = some "10.0.0.1:65535" ∧
    parse? "10.0.0.1:65536" = none := by
  decide +kernel

end SocketAddr

end Net

end MediaRelay
