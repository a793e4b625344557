import MediaRelay.Http.Response
import MediaRelay.Media.Kind

-- A client's connection reads the client's request and answers it. A path where no stream is
-- published gets `404 Not Found`, a HEAD request the head of the stream's response, and the
-- connection closes; a GET request attaches the client to the stream. The connection then writes
-- the `200 OK` head with the stream's content type and, one at a time, the units it takes from its
-- private queue, in the order they were queued. Every write is bounded by the hang timeout and
-- stops when the connection is cancelled; such a write may have sent part of its bytes. Between
-- two writes the connection ends when it is cancelled, when its queue overflowed or was released,
-- or when no unit comes within the hang timeout.
--
-- What the client's side does is not known here: each turn of the connection is given, as what
-- becomes of its next write.

namespace MediaRelay

namespace Connection

inductive Turn
  | write
  -- the write stops after `n` bytes: the connection was cancelled or the write timed out
  | cut (n : Nat)
  -- the connection ends before the write
  | stop
deriving DecidableEq, Repr

-- the bytes sent by writing `ds` one after the other, turn by turn, until a turn or the data ends
-- the connection
def writeAll : List Octets → List Turn → Octets
  | [], _ => []
  | _ :: _, [] => []
  | d :: ds, .write :: ts => d ++ writeAll ds ts
  | d :: _, .cut n :: _ => d.take n
  | _ :: _, .stop :: _ => []

-- what a client of a stream of media kind `m` receives: the head, then the units it takes from its
-- queue
def streamed (v : Http.Version) (m : MediaKind) (units : List Octets) (turns : List Turn) :
    Octets :=
  writeAll (Http.okResponse v m.contentType :: units) turns

theorem writeAll_prefix (ds : List Octets) (ts : List Turn) : writeAll ds ts <+: ds.flatten := by
  induction ds generalizing ts with
  | nil => simp [writeAll]
  | cons d ds ih =>
    cases ts with
    | nil => simp [writeAll]
    | cons t ts =>
      cases t with
      | write => simpa [writeAll] using (List.prefix_append_right_inj d).mpr (ih ts)
      | cut n => exact (List.take_prefix n d).trans (List.prefix_append d _)
      | stop => simp [writeAll]

example : writeAll [[1, 2], [3, 4], [5]] [.write, .cut 1] = [1, 2, 3] := by decide

-- how a connection answers a request it read, given the media kind of the stream published under
-- the request's path, if any
inductive Reply
  -- writes the bytes and closes
  | respond (bs : Octets)
  -- attaches the client to the stream
  | stream (v : Http.Version)
deriving DecidableEq

def reply (req : Http.Request) : Option MediaKind → Reply
  | none => .respond (Http.notFoundResponse req.version)
  | some m =>
    match req.method with
    | .head => .respond (Http.okResponse req.version m.contentType)
    | .get => .stream req.version

end Connection

end MediaRelay
