import MediaRelay.Net.SocketAddr
import MediaRelay.Fault

-- The operating system the relay runs on, as the relay sees it: what it answers when the relay
-- binds a socket, joins a multicast group, looks a host name up, or connects or sends to an
-- address. The relay is modelled over any host; nothing of it reads more than these answers.

namespace MediaRelay

namespace Net

structure Host where
  -- binds a stream (TCP) socket or a datagram (UDP) socket to an address, next to the sockets of
  -- that protocol the relay holds, and answers the address the socket is bound to
  bind : (stream : Bool) → List SocketAddr → SocketAddr → Except IoFault SocketAddr
  -- joins a UDP socket to an IPv4 multicast group on the default interface
  join : Ipv4 → Except IoFault Unit
  -- the addresses that a host name which is no IP address stands for, on a port
  resolve : String → Nat → Except IoFault (List SocketAddr)
  -- connects a stream socket to an address, and answers the address the socket was given
  connect : SocketAddr → Except IoFault SocketAddr
  -- sends a datagram to an address
  send : SocketAddr → Except IoFault Unit

end Net

end MediaRelay
