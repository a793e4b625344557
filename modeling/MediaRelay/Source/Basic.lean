import MediaRelay.Fault
import MediaRelay.Octets

-- A byte source hands out the bytes of one input stream, a read at a time. A read asks for up to
-- `n` bytes and returns at most that many; a read that returns nothing marks the end of the stream,
-- and a read can fail. The state of the source moves on in either case.

namespace MediaRelay

class ByteSource (σ : Type) where
  -- Reads up to `n` bytes: the bytes that arrived, or a failure, and the source after it.
  read : Nat → σ → Except IoFault Octets × σ
  remaining : σ → Nat

end MediaRelay
