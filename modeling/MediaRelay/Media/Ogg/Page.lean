import MediaRelay.Media.Ogg.Crc

-- An Ogg stream is a sequence of pages. A page starts with the capture pattern `OggS`, then a
-- version byte (0), a flags byte, an 8-byte granule position, a 4-byte serial number of its logical
-- stream, a 4-byte sequence number, the 4-byte checksum and a segment count `n`, all little-endian.
-- A lacing table of `n` bytes follows, and then a body as long as their sum.

namespace MediaRelay

namespace Ogg

def capture : Octets := [0x4F, 0x67, 0x67, 0x53]

def pageHeaderSize : Nat := 27

def flagContinued : UInt8 := 0x01

def flagBos : UInt8 := 0x02

def flagEos : UInt8 := 0x04

structure Page where
  bytes : Octets
  serial : Nat
  flags : UInt8
deriving DecidableEq, Repr

namespace Page

def isContinued (p : Page) : Bool := p.flags &&& flagContinued != 0

def isBos (p : Page) : Bool := p.flags &&& flagBos != 0

def isEos (p : Page) : Bool := p.flags &&& flagEos != 0

end Page

def captureOffset? : Octets → Option Nat
  | [] => none
  | b :: rest => if capture.isPrefixOf (b :: rest) then some 0 else (captureOffset? rest).map (· + 1)

-- Drops the bytes before the first capture pattern at or after offset `start`, or all but the last
-- 3 bytes when there is none; tells whether anything was dropped.
def skipToCapture (buf : Octets) (start : Nat) : Bool × Octets :=
  match captureOffset? (buf.drop start) with
  | some p => if p + start = 0 then (false, buf) else (true, buf.drop (p + start))
  | none =>
    let dropped := buf.length - min 3 buf.length
    (0 < dropped, buf.drop dropped)

inductive Search
  | page (p : Page) (rest : Octets)
  | incomplete
  | skipped (rest : Octets)
deriving DecidableEq, Repr

def bodyLength (lacing : Octets) : Nat :=
  lacing.foldr (fun b acc => b.toNat + acc) 0

def search (buf : Octets) : Search :=
  if buf.length < capture.length then .incomplete
  else if !capture.isPrefixOf buf then
    match skipToCapture buf 0 with
    | (true, rest) => .skipped rest
    | (false, _) => .incomplete
  else if buf.length < pageHeaderSize then .incomplete
  else if buf.getD 4 0 != 0 then .skipped (skipToCapture buf 1).2
  else
    let segments := (buf.getD 26 0).toNat
    let headerLength := pageHeaderSize + segments
    if buf.length < headerLength then .incomplete
    else
      let pageLength := headerLength + bodyLength (Octets.slice buf pageHeaderSize segments)
      if buf.length < pageLength then .incomplete
      else
        let page := buf.take pageLength
        if (pageCrc page).toNat != Octets.leNat (Octets.slice page crcOffset 4) then
          .skipped (skipToCapture buf 1).2
        else
          .page ⟨page, Octets.leNat (Octets.slice page 14 4), page.getD 5 0⟩ (buf.drop pageLength)

end Ogg

end MediaRelay
