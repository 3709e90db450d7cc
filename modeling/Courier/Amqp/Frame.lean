import Courier.Bytes.BigEndian
import Courier.Text.Quoted

/-!
Frames of the AMQP 1.0 transport and the protocol header that opens a connection. A frame
starts with an eight-byte header: its total size, its data offset in four-byte words (at least
two, and within the frame), its type and its channel; the body follows the offset. Encoding
appends a frame to a buffer; writing hands a stream the header, put together in place, and then
the body, if any. Decoding works on a buffer that may hold more than one frame; reading takes a
frame from a stream, skipping any extended header, and tells a stream that ended before the
frame (nothing read) from one that ended inside it.
-/

set_option autoImplicit false

namespace Courier.Amqp

open Courier.Bytes

/-- The eight bytes that open a frame. -/
structure FrameHeader where
  size : Nat
  offset : Nat
  kind : UInt8
  channel : UInt16

/-- What is wrong with a frame header. -/
inductive HeaderFault where
  | sizeBelow (size : Nat)
  | offsetBelow (offset : Nat)
  | offsetBeyond (offset size : Nat)

/-- Why a frame or protocol header is refused. -/
inductive FrameError where
  /-- The buffer ends before the frame or header does. -/
  | incomplete
  | tooLarge (size limit : Nat)
  | invalid (f : HeaderFault)
  /-- A protocol header that does not start with the protocol's name; its first four bytes. -/
  | notAmqp (first : List UInt8)
  | unsupportedVersion (major minor revision : UInt8)
  /-- A stream with nothing left. -/
  | endOfInput
  /-- A stream that ended inside a read. -/
  | cutShort

/-- The text of the error. -/
def FrameError.message : FrameError → String
  | .incomplete => "frame incomplete"
  | .tooLarge size limit =>
    "frame exceeds max frame size: " ++ toString size ++ " > " ++ toString limit
  | .invalid f => "invalid frame header: " ++ match f with
    | .sizeBelow size => "size " ++ toString size ++ " below 8"
    | .offsetBelow o => "doff " ++ toString o
    | .offsetBeyond o size => "doff " ++ toString o ++ " beyond size " ++ toString size
  | .notAmqp first => "invalid protocol header: expected AMQP, got " ++ Text.Quoted.quoteBytes first
  | .unsupportedVersion a b c =>
    "unsupported AMQP version " ++ toString a.toNat ++ "." ++ toString b.toNat ++ "." ++
      toString c.toNat
  | .endOfInput => "EOF"
  | .cutShort => "unexpected EOF"

/-- A frame: type, channel and body. -/
structure Frame where
  kind : UInt8
  channel : UInt16
  body : List UInt8

namespace FrameHeader

/-- The size of a frame header in bytes. -/
def length : Nat := 8

/-- A header is refused when the size is below the header's, the offset below two words, or
the offset past the end of the frame. -/
def check (h : FrameHeader) : Except FrameError FrameHeader :=
  if h.size < length then .error (.invalid (.sizeBelow h.size))
  else if h.offset < 2 then .error (.invalid (.offsetBelow h.offset))
  else if h.offset * 4 > h.size then .error (.invalid (.offsetBeyond h.offset h.size))
  else .ok h

/-- The header at the start of a buffer. -/
def parse (bs : List UInt8) : Except FrameError FrameHeader :=
  if bs.length < length then .error .incomplete
  else check ⟨ofBigEndian (bs.take 4), (bs.getD 4 0).toNat, bs.getD 5 0,
    (ofBigEndian ((bs.drop 6).take 2)).toUInt16⟩

/-- Bytes of the body: those after the offset. -/
def bodySize (h : FrameHeader) : Nat := h.size - h.offset * 4

end FrameHeader

/-- A frame size past a positive limit is refused; a limit of zero admits any size. -/
def checkLimit (h : FrameHeader) (limit : Nat) : Except FrameError Unit :=
  if limit > 0 ∧ h.size > limit then .error (.tooLarge h.size limit) else .ok ()

namespace Frame

/-- Appends the bytes of a frame with no extended header to `dst`: the size, an offset of two
words, the type, the channel and the body. -/
def encode (dst : List UInt8) (f : Frame) : List UInt8 :=
  dst ++ bigEndian 4 (FrameHeader.length + f.body.length) ++ [2, f.kind] ++
    bigEndian 2 f.channel.toNat ++ f.body

/-- The header of a frame with no extended header, put in place into eight zero bytes. -/
def header (f : Frame) : Array UInt8 :=
  let h := putUInt32 (Array.replicate FrameHeader.length 0) 0
    (FrameHeader.length + f.body.length).toUInt32
  let h := (h.set! 4 2).set! 5 f.kind
  putUInt16 h 6 f.channel

/-- What writing a frame hands to a stream, one write after the other: the header, then the
body unless it is empty. -/
def writes (f : Frame) : List (List UInt8) :=
  f.header.toList :: if f.body.isEmpty then [] else [f.body]

/-- The frame at the start of a buffer and its size; `limit` bounds the size unless zero. -/
def decode (bs : List UInt8) (limit : Nat) : Except FrameError (Frame × Nat) := do
  let h ← FrameHeader.parse bs
  checkLimit h limit
  if bs.length < h.size then .error .incomplete
  else pure (⟨h.kind, h.channel, (bs.take h.size).drop (h.offset * 4)⟩, h.size)

/-- Exactly `n` bytes from a stream: nothing left is the end, too little a cut. -/
def readFull (n : Nat) (bs : List UInt8) : Except FrameError (List UInt8 × List UInt8) :=
  if n = 0 then .ok ([], bs)
  else if bs.isEmpty then .error .endOfInput
  else if bs.length < n then .error .cutShort
  else .ok (bs.take n, bs.drop n)

/-- The next frame of a stream and what is left of it. Skipping an extended header that the
stream does not hold is an end of input. -/
def read (bs : List UInt8) (limit : Nat) : Except FrameError (Frame × List UInt8) := do
  let (head, rest) ← readFull FrameHeader.length bs
  let h ← FrameHeader.parse head
  checkLimit h limit
  let extended := h.offset * 4 - FrameHeader.length
  if rest.length < extended then .error .endOfInput
  else
    let (body, rest) ← readFull h.bodySize (rest.drop extended)
    pure (⟨h.kind, h.channel, body⟩, rest)

end Frame

/-- The eight bytes that open a connection: the protocol's name, a protocol id and a
version. -/
structure ProtocolHeader where
  id : UInt8
  major : UInt8
  minor : UInt8
  revision : UInt8

namespace ProtocolHeader

/-- The protocol's name as bytes. -/
def name : List UInt8 := [0x41, 0x4d, 0x51, 0x50]

/-- The header of version 1.0.0 for a protocol id. -/
def v1 (id : UInt8) : ProtocolHeader := ⟨id, 1, 0, 0⟩

/-- The bytes of a header. -/
def toBytes (h : ProtocolHeader) : List UInt8 := name ++ [h.id, h.major, h.minor, h.revision]

/-- Whether bytes start with the protocol's name. -/
def detect (bs : List UInt8) : Bool := bs.take 4 == name

/-- A header of version 1.0.0 at the start of a buffer. -/
def parse (bs : List UInt8) : Except FrameError ProtocolHeader :=
  if bs.length < 8 then .error .incomplete
  else if !detect bs then .error (.notAmqp (bs.take 4))
  else
    let h : ProtocolHeader := ⟨bs.getD 4 0, bs.getD 5 0, bs.getD 6 0, bs.getD 7 0⟩
    if h.major ≠ 1 ∨ h.minor ≠ 0 ∨ h.revision ≠ 0 then
      .error (.unsupportedVersion h.major h.minor h.revision)
    else .ok h

/-- The protocol id of the header a stream starts with, and what is left of it. -/
def read (bs : List UInt8) : Except FrameError (UInt8 × List UInt8) := do
  let (head, rest) ← Frame.readFull 8 bs
  let h ← parse head
  pure (h.id, rest)

end ProtocolHeader

end Courier.Amqp
