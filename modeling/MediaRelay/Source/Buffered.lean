import MediaRelay.Source.Basic

-- Framers read their input through a buffer of 8192 bytes. A read of `n` bytes is served from the
-- buffer when it holds anything. When the buffer is empty, a read of at least the buffer's capacity
-- goes to the source directly, and a smaller read first refills the buffer with one read of up to
-- 8192 bytes from the source. Waiting for input refills an empty buffer the same way.

namespace MediaRelay

structure Buffered (σ : Type) where
  inner : σ
  pending : Octets := []
deriving DecidableEq, Repr

namespace Buffered

def capacity : Nat := 8192

variable {σ : Type} [ByteSource σ]

-- The bytes still to be read: those in the buffer and those the source has still to serve.
def remaining (b : Buffered σ) : Nat :=
  b.pending.length + ByteSource.remaining b.inner

def pull (n : Nat) : EStateM Fault (Buffered σ) Octets := fun b =>
  match ByteSource.read n b.inner with
  | (.ok bs, s) => .ok bs { b with inner := s }
  | (.error e, s) => .error (.io e) { b with inner := s }

-- Refills an empty buffer with one read from the source; a full buffer stays as it is.
def fill : EStateM Fault (Buffered σ) Unit := do
  let b ← get
  if b.pending.isEmpty then
    let bs ← pull capacity
    modify fun b => { b with pending := bs }

def take (n : Nat) : EStateM Fault (Buffered σ) Octets := do
  let b ← get
  set { b with pending := b.pending.drop n }
  return b.pending.take n

-- Reads up to `n` bytes: past an empty buffer when `n` is at least its capacity, else from the
-- buffer after refilling it if it is empty.
def read (n : Nat) : EStateM Fault (Buffered σ) Octets := do
  let b ← get
  if b.pending.isEmpty && capacity ≤ n then
    pull n
  else
    fill
    take n

-- Reads until `want` more bytes have arrived or a read returns nothing; `acc` holds the pieces read
-- so far, the latest first.
def readFullFrom (acc : List Octets) (want : Nat) : EStateM Fault (Buffered σ) Octets :=
  if _hw : want = 0 then
    return acc.reverse.flatten
  else do
    let got ← read want
    if _hg : got.length = 0 then
      return acc.reverse.flatten
    else
      readFullFrom (got :: acc) (want - got.length)
termination_by want

def readFull (n : Nat) : EStateM Fault (Buffered σ) Octets :=
  readFullFrom [] n

-- Reads exactly `n` bytes: nothing when the stream ends before the first byte, and a fault when it
-- ends part way through.
def readExactOrEof (n : Nat) : EStateM Fault (Buffered σ) (Option Octets) := do
  let bs ← readFull n
  if bs.isEmpty then
    return none
  else if bs.length < n then
    throw (.io (.endedAfter bs.length n))
  else
    return some bs

end Buffered

end MediaRelay
