/-!
The 64-bit xxHash digest with seed zero. Bytes are read as little-endian words; four lanes
absorb 32-byte stripes, the rest is folded in by 8, 4 and 1 bytes, and a final avalanche
mixes the high bits into the low ones. All arithmetic wraps modulo 2^64.
-/

set_option autoImplicit false

namespace Courier.Hash

def prime1 : UInt64 := 0x9E3779B185EBCA87
def prime2 : UInt64 := 0xC2B2AE3D27D4EB4F
def prime3 : UInt64 := 0x165667B19E3779F9
def prime4 : UInt64 := 0x85EBCA77C2B2AE63
def prime5 : UInt64 := 0x27D4EB2F165667C5

/-- Rotation of a word to the left by `r` bits, `0 < r < 64`. -/
def rotl (x r : UInt64) : UInt64 := (x <<< r) ||| (x >>> (64 - r))

/-- The little-endian word of the first `width` bytes. -/
def littleEndian (width : Nat) (bs : List UInt8) : UInt64 :=
  (bs.take width).foldr (fun b acc => (acc <<< 8) ||| b.toUInt64) 0

/-- One lane absorbs one word. -/
def round (acc input : UInt64) : UInt64 := rotl (acc + input * prime2) 31 * prime1

/-- A lane folded into the combined state. -/
def mergeRound (acc lane : UInt64) : UInt64 := (acc ^^^ round 0 lane) * prime1 + prime4

/-- The four accumulators that absorb whole stripes. -/
structure Lanes where
  first : UInt64
  second : UInt64
  third : UInt64
  fourth : UInt64

/-- The lanes before the first stripe, for seed zero. -/
def Lanes.initial : Lanes := ⟨prime1 + prime2, prime2, 0, 0 - prime1⟩

/-- The lanes after one 32-byte stripe. -/
def Lanes.absorb (l : Lanes) (stripe : List UInt8) : Lanes :=
  ⟨round l.first (littleEndian 8 stripe), round l.second (littleEndian 8 (stripe.drop 8)),
   round l.third (littleEndian 8 (stripe.drop 16)), round l.fourth (littleEndian 8 (stripe.drop 24))⟩

/-- The lanes combined into one word. -/
def Lanes.merge (l : Lanes) : UInt64 :=
  let h := rotl l.first 1 + rotl l.second 7 + rotl l.third 12 + rotl l.fourth 18
  mergeRound (mergeRound (mergeRound (mergeRound h l.first) l.second) l.third) l.fourth

/-- Absorbs stripes while 32 bytes remain; gives the lanes and the bytes left over. -/
def Lanes.absorbAll (l : Lanes) (bs : List UInt8) : Lanes × List UInt8 :=
  if 32 ≤ bs.length then absorbAll (l.absorb bs) (bs.drop 32) else (l, bs)
termination_by bs.length
decreasing_by simp; omega

/-- Folds the last bytes in: whole words, then a half word, then single bytes. -/
def finish (h : UInt64) (bs : List UInt8) : UInt64 :=
  if 8 ≤ bs.length then
    finish (rotl (h ^^^ round 0 (littleEndian 8 bs)) 27 * prime1 + prime4) (bs.drop 8)
  else if 4 ≤ bs.length then
    finish (rotl (h ^^^ littleEndian 4 bs * prime1) 23 * prime2 + prime3) (bs.drop 4)
  else
    match bs with
    | [] => h
    | b :: rest => finish (rotl (h ^^^ b.toUInt64 * prime5) 11 * prime1) rest
termination_by bs.length
decreasing_by all_goals simp_all <;> omega

/-- The final mixing step. -/
def avalanche (h : UInt64) : UInt64 :=
  let h := (h ^^^ (h >>> 33)) * prime2
  let h := (h ^^^ (h >>> 29)) * prime3
  h ^^^ (h >>> 32)

/-- The digest of a byte string. -/
def xxh64 (bs : List UInt8) : UInt64 :=
  let start : UInt64 × List UInt8 :=
    if 32 ≤ bs.length then
      let (l, rest) := Lanes.initial.absorbAll bs
      (l.merge, rest)
    else (prime5, bs)
  avalanche (finish (start.1 + bs.length.toUInt64) start.2)

/-- The digest of a text's UTF-8 bytes. -/
def xxh64Text (s : String) : UInt64 := xxh64 s.toUTF8.toList

end Courier.Hash
