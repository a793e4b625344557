import MediaRelay.Fault
import MediaRelay.Source.Basic
import MediaRelay.Text.Blank

-- Clients ask for a stream with an HTTP/1.0 or HTTP/1.1 `GET` or `HEAD` request. The head of a
-- request ends at the first line feed that is followed by a carriage return and a line feed, or by
-- a second line feed. Only the request line matters: the text before the first line feed, without
-- the carriage returns at its end, must consist of exactly three blank-separated fields, the
-- method, a path starting with a slash, and the version. The checks run in that order, after the
-- check that the head is UTF-8 text, and the first that fails names the fault.

namespace MediaRelay

namespace Http

inductive Method
  | get
  | head
deriving DecidableEq, Repr

def Method.ofToken? : String → Option Method
  | "GET" => some .get
  | "HEAD" => some .head
  | _ => none

def Method.token : Method → String
  | .get => "GET"
  | .head => "HEAD"

inductive Version
  | http10
  | http11
deriving DecidableEq, Repr

def Version.ofToken? : String → Option Version
  | "HTTP/1.0" => some .http10
  | "HTTP/1.1" => some .http11
  | _ => none

def Version.token : Version → String
  | .http10 => "HTTP/1.0"
  | .http11 => "HTTP/1.1"

structure Request where
  method : Method
  path : String
  version : Version
deriving DecidableEq, Repr

-- The request line of a head: the text before the first line feed, without the carriage returns at
-- its end.
def requestLine (text : List Char) : List Char :=
  ((text.takeWhile (· != '\n')).reverse.dropWhile (· == '\r')).reverse

def decodeText? (head : Octets) : Option String :=
  String.fromUTF8? ⟨head.toArray⟩

def Request.parse (head : Octets) : Except Fault Request := do
  let some text := decodeText? head
    | throw (.badRequest .notUtf8)
  let line := requestLine text.toList
  let [m, p, v] := (Text.fieldsList line).map String.ofList
    | throw (.badRequest (.malformedLine (String.ofList line)))
  let some method := Method.ofToken? m
    | throw (.badRequest (.unsupportedMethod m))
  if !p.startsWith "/" then
    throw (.badRequest (.invalidPath p))
  let some version := Version.ofToken? v
    | throw (.badRequest (.unsupportedVersion v))
  return { method, path := p, version }

-- The length of the head at the front of the bytes: up to the first line feed that is followed by a
-- carriage return and a line feed, or by a line feed.
def headLength? : Octets → Option Nat
  | [] => none
  | b :: rest =>
    if b == 10 && [13, 10].isPrefixOf rest then some 3
    else if b == 10 && [10].isPrefixOf rest then some 2
    else (headLength? rest).map (· + 1)

def readSize : Nat := 1024

-- The room the head buffer starts with: `readSize` bytes, or fewer when the limit is lower, but at
-- least one.
def initialRoom (limit : Nat) : Nat :=
  Nat.min readSize (Nat.max limit 1)

-- The room of the head buffer before a read, when it holds `held` bytes in `room`: unchanged while
-- at least `readSize` bytes are free, else twice as large, or large enough for `readSize` bytes
-- more when doubling is not.
def roomBeforeRead (room held : Nat) : Nat :=
  if readSize ≤ room - held then room else Nat.max (2 * room) (held + readSize)

theorem free_le_roomBeforeRead (room held : Nat) :
    readSize ≤ roomBeforeRead room held - held := by
  unfold roomBeforeRead
  split
  · assumption
  · apply Nat.le_sub_of_add_le
    rw [Nat.add_comm]
    exact Nat.le_max_right _ _

variable {σ : Type} [ByteSource σ]

-- Where reading a head stands after a round: finished with its answer, or going on with the room
-- and the bytes of the buffer and the source.
inductive HeadRound (σ : Type)
  | done (r : Except Fault Request)
  | more (room : Nat) (buf : Octets) (src : σ)

-- One round of reading a head, with `buf` the bytes received so far in a buffer of `room` bytes: a
-- complete head is read as a request, a head that reached the limit is refused, and otherwise one
-- read fills the free room of the buffer, grown by `roomBeforeRead`; a failed read and a closed
-- connection end the reading.
def readRound (limit room : Nat) (buf : Octets) (src : σ) : HeadRound σ :=
  match headLength? buf with
  | some n => .done (Request.parse (buf.take n))
  | none =>
    if limit ≤ buf.length then .done (.error (.badRequest (.headTooLarge limit)))
    else
      match ByteSource.read (roomBeforeRead room buf.length - buf.length) src with
      | (.error e, _) => .done (.error (.io e))
      | (.ok got, src') =>
        if got.length = 0 then .done (.error (.badRequest .closedEarly))
        else .more (roomBeforeRead room buf.length) (buf ++ got) src'

theorem readRound_eq_more {limit room room' : Nat} {buf buf' : Octets} {src src' : σ}
    (h : readRound limit room buf src = .more room' buf' src') :
    headLength? buf = none ∧ buf.length < limit ∧ room' = roomBeforeRead room buf.length ∧
      ∃ got, ByteSource.read (room' - buf.length) src = (.ok got, src') ∧ got ≠ [] ∧
        buf' = buf ++ got := by
  unfold readRound at h
  split at h
  · cases h
  · rename_i hh
    split at h
    · cases h
    · rename_i hl
      split at h
      · cases h
      · rename_i got src₁ hr
        split at h
        · cases h
        · rename_i hg
          cases h
          exact ⟨hh, Nat.lt_of_not_le hl, rfl, got, hr, fun h => hg (by simp [h]), rfl⟩

-- Reads until the head is complete and reads the request from it, with `buf` the bytes received so
-- far in a buffer of `room` bytes.
def readRequestFrom (limit room : Nat) (buf : Octets) (src : σ) : Except Fault Request :=
  match _h : readRound limit room buf src with
  | .done r => r
  | .more room' buf' src' => readRequestFrom limit room' buf' src'
termination_by limit - buf.length
decreasing_by
  obtain ⟨-, hl, -, got, -, hg, rfl⟩ := readRound_eq_more _h
  have : 0 < got.length := List.length_pos_iff.mpr hg
  simp only [List.length_append]
  omega

-- Reads a request from a client, refusing a head that reaches `limit` bytes without ending.
def readRequest (limit : Nat) (src : σ) : Except Fault Request :=
  readRequestFrom limit (initialRoom limit) [] src

end Http

end MediaRelay
