import MediaRelay.PathKey
import MediaRelay.Uuid
import MediaRelay.Text.Quoted

-- Every operation of the relay that can fail reports a `Fault`, which names the cause. The wording
-- of each cause is fixed in one place, `Fault.message`. Only a framing fault is fatal: it means the
-- input no longer follows its container format, so its session cannot go on.

namespace MediaRelay

inductive IoKind
  | unexpectedEof
  | connectionReset
  | addrNotAvailable
  | addrInUse
  | invalidInput
  | networkUnreachable
  | uncategorized
deriving DecidableEq, Repr

inductive IoFault
  | endedAfter (got want : Nat)
  | endedInside (part : String)
  | reset
  -- The operating system refused a socket operation or a name lookup, with its own class and
  -- description of the failure.
  | os (kind : IoKind) (text : String)
deriving DecidableEq, Repr

namespace IoFault

def kind : IoFault → IoKind
  | endedAfter .. => .unexpectedEof
  | endedInside _ => .unexpectedEof
  | reset => .connectionReset
  | os k _ => k

def text : IoFault → String
  | endedAfter got want => s!"stream ended after {got} of {want} bytes"
  | endedInside part => "stream ended inside " ++ part
  | reset => "source reset"
  | os _ t => t

end IoFault

inductive FramingFault
  | flvHeaderTooShort (declared : Nat)
  | flvHeaderTooLong (declared limit : Nat)
deriving DecidableEq, Repr

def FramingFault.text : FramingFault → String
  | flvHeaderTooShort d => s!"FLV header size {d} is shorter than the fixed header"
  | flvHeaderTooLong d limit => s!"FLV header size {d} exceeds {limit} bytes"

inductive RegistryFault
  | duplicatePath (key : PathKey)
  | inputNotFound (key : PathKey)
  | routeImmutable (key : PathKey)
  | protocolMismatch (key : PathKey)
deriving DecidableEq

def RegistryFault.text : RegistryFault → String
  | duplicatePath k => "path already registered: " ++ k.display
  | inputNotFound k => "no input registered for path: " ++ k.display
  | routeImmutable k => "route of input at " ++ k.display ++ " cannot be changed"
  | protocolMismatch k => "route swap for " ++ k.display ++ " changes the protocol"

inductive RouteFault
  | emptyHost (route : Uuid)
  | unknownProtocol (name : String)
  | notMulticast (host : String)
  | cannotResolve (host : String)
deriving DecidableEq

def RouteFault.text : RouteFault → String
  | emptyHost u => "route " ++ u.hyphenated ++ " has an empty host"
  | unknownProtocol name => "unknown protocol: " ++ name
  | notMulticast host => host ++ " is not an IPv4 multicast group"
  | cannotResolve host => "cannot resolve " ++ host

inductive RequestFault
  | notUtf8
  | malformedLine (line : String)
  | unsupportedMethod (method : String)
  | invalidPath (path : String)
  | unsupportedVersion (version : String)
  | headTooLarge (limit : Nat)
  | closedEarly
deriving DecidableEq

def RequestFault.text : RequestFault → String
  | notUtf8 => "request head is not valid UTF-8"
  | malformedLine line => "malformed request line: " ++ Text.quote line
  | unsupportedMethod m => "unsupported method: " ++ m
  | invalidPath p => "invalid path: " ++ p
  | unsupportedVersion v => "unsupported version: " ++ v
  | headTooLarge limit => s!"request head exceeds {limit} bytes"
  | closedEarly => "connection closed before end of request"

inductive Fault
  | io (e : IoFault)
  | framing (e : FramingFault)
  | registry (e : RegistryFault)
  | unsupportedMedia (name : String)
  | route (e : RouteFault)
  | badRequest (e : RequestFault)
  | timeout (what : String)
  | alreadyStarted (worker : Uuid)
  | stopped
deriving DecidableEq

namespace Fault

def message : Fault → String
  | io e => "I/O error: " ++ e.text
  | framing e => "fatal framing error: " ++ e.text
  | registry e => e.text
  | unsupportedMedia name => "unsupported media type: " ++ name
  | route e => "route error: " ++ e.text
  | badRequest e => "bad request: " ++ e.text
  | timeout what => "timed out waiting for " ++ what
  | alreadyStarted w => "worker " ++ w.hyphenated ++ " is already started"
  | stopped => "stopped"

def isFatal : Fault → Bool
  | framing _ => true
  | _ => false

theorem isFatal_iff (f : Fault) : f.isFatal = true ↔ ∃ e, f = framing e := by
  cases f <;> simp [isFatal]

end Fault

end MediaRelay
