import Courier.Proofs.Amqp.Numbers
import Courier.Amqp.Frame

/-!
# Frames written and read back

A frame goes out in two ways: appended to a buffer, its header field after field, or written to
a stream as a header put together in place by shifting machine words, followed by the body when
there is one. Both give the same bytes. Decoding them, whatever follows in the buffer, gives the
frame back with its size, as long as the size fits the header's 32-bit field and the limit
admits it.

- `putUInt32_bytes`, `putUInt16_bytes`: the shifted bytes are the big-endian bytes;
- `Frame.header_toList`, `Frame.encode_eq_writes`: the two writers agree;
- `FrameHeader.parse_encode`: the header of an encoded frame reads back as written;
- `Frame.encode_round_trip`: encoding agrees with writing, and decoding inverts it.

Decoding a buffer checks the whole frame's length once the header is in; reading a stream takes
the header, skips any extended header and then reads the body, each read failing on its own.
The checks come in another order, yet the two agree on every input:

- `Frame.decode_of_header`, `Frame.read_of_header`: what is left to do once a header is admitted,
  and `Frame.decode_read_of_header`: from there the two agree;
- `Frame.read_agrees_with_decode`: the same frame and the same bytes taken, the same refusal, or
  an incomplete buffer exactly where the stream ends.

A buffer that is still filling is decoded as a stream is parsed: `Frame.decode_streaming` says
that a decoded frame stays decoded whatever bytes arrive after it, and that every shorter prefix
is incomplete, whether it ends inside the header, the extended header or the body.
-/

set_option autoImplicit false

namespace Courier.Bytes

/-- Only the number modulo the width's range is written. -/
theorem bigEndian_mod (w x : Nat) : bigEndian w (x % 256 ^ w) = bigEndian w x := by
  induction w generalizing x with
  | zero => rfl
  | succ w ih =>
    have hdiv : x % 256 ^ (w + 1) / 256 ^ w % 256 = x / 256 ^ w % 256 := by
      rw [Nat.pow_succ, Nat.mod_mul_right_div_self, Nat.mod_mod]
    have hmod : x % 256 ^ (w + 1) % 256 ^ w = x % 256 ^ w :=
      Nat.mod_mod_of_dvd x (Nat.pow_dvd_pow 256 (Nat.le_succ w))
    rw [bigEndian, bigEndian, Nat.pow_eq, hdiv, ← ih (x % 256 ^ (w + 1)), hmod, ih]

/-- The four bytes `putUInt32` shifts out of a word are its big-endian bytes. -/
theorem putUInt32_bytes (v : UInt32) :
    [(v >>> 24).toUInt8, (v >>> 16).toUInt8, (v >>> 8).toUInt8, v.toUInt8] = bigEndian 4 v.toNat := by
  simp only [bigEndian, List.cons.injEq, and_true]
  refine ⟨?_, ?_, ?_, ?_⟩ <;> apply UInt8.toNat_inj.mp <;>
    simp [UInt32.toNat_shiftRight, Nat.shiftRight_eq_div_pow]

/-- The two bytes `putUInt16` shifts out of a word are its big-endian bytes. -/
theorem putUInt16_bytes (v : UInt16) : [(v >>> 8).toUInt8, v.toUInt8] = bigEndian 2 v.toNat := by
  simp only [bigEndian, List.cons.injEq, and_true]
  refine ⟨?_, ?_⟩ <;> apply UInt8.toNat_inj.mp <;>
    simp [UInt16.toNat_shiftRight, Nat.shiftRight_eq_div_pow]

end Courier.Bytes

namespace Courier.Amqp

open Courier.Bytes

namespace Frame

variable (f : Frame)

/-- The header put in place holds the same bytes that encoding appends: the size modulo the
field's range, the offset, the type and the channel. -/
theorem header_toList : f.header.toList =
    bigEndian 4 (FrameHeader.length + f.body.length) ++ [2, f.kind] ++ bigEndian 2 f.channel.toNat := by
  have hsize : (FrameHeader.length + f.body.length) % 256 ^ 4 =
      (FrameHeader.length + f.body.length).toUInt32.toNat := by simp
  rw [← bigEndian_mod, hsize, ← putUInt32_bytes, ← putUInt16_bytes]
  simp only [Frame.header, putUInt32, putUInt16, FrameHeader.length, Array.set!_eq_setIfInBounds,
    Array.toList_setIfInBounds, Array.toList_replicate]
  rfl

/-- A stream is handed the header and then the body; an empty body is not written at all, and
so adds nothing. -/
theorem flatten_writes : f.writes.flatten = f.header.toList ++ f.body := by
  unfold Frame.writes
  split <;> simp_all

/-- Appending a frame to a buffer adds exactly the bytes a stream is handed for it. -/
theorem encode_eq_writes (dst : List UInt8) : encode dst f = dst ++ f.writes.flatten := by
  rw [flatten_writes, header_toList]
  simp [Frame.encode]

theorem length_encode (dst : List UInt8) :
    (encode dst f).length = dst.length + (FrameHeader.length + f.body.length) := by
  simp [Frame.encode, FrameHeader.length]
  omega

end Frame

namespace FrameHeader

/-- A header laid out as size, an offset of two words, type and channel parses into those
fields, which are then checked. -/
theorem parse_layout {H C : List UInt8} (rest : List UInt8) (k : UInt8) (hH : H.length = 4)
    (hC : C.length = 2) :
    parse (H ++ 2 :: k :: C ++ rest) = check ⟨ofBigEndian H, 2, k, (ofBigEndian C).toUInt16⟩ := by
  match H, hH, C, hC with
  | [_, _, _, _], _, [_, _], _ => simp [parse, length]

/-- The header of an encoded frame reads back as written, whatever follows it, when the size
fits its field. -/
theorem parse_encode (f : Frame) (s : List UInt8) (hsize : length + f.body.length < 2 ^ 32) :
    parse (Frame.encode [] f ++ s) = .ok ⟨length + f.body.length, 2, f.kind, f.channel⟩ := by
  have hsize' : length + f.body.length < 256 ^ 4 := by simpa using hsize
  have hch : f.channel.toNat < 256 ^ 2 := by simpa using f.channel.toNat_lt
  have bytes : Frame.encode [] f ++ s = bigEndian 4 (length + f.body.length) ++
      2 :: f.kind :: bigEndian 2 f.channel.toNat ++ (f.body ++ s) := by
    simp [Frame.encode]
  rw [bytes, parse_layout _ _ (length_bigEndian _ _) (length_bigEndian _ _),
    ofBigEndian_bigEndian_of_lt hsize', ofBigEndian_bigEndian_of_lt hch]
  simp [check, length]

end FrameHeader

theorem checkLimit_ok (h : FrameHeader) {m : Nat} (hm : m = 0 ∨ h.size ≤ m) :
    checkLimit h m = .ok () := by
  unfold checkLimit
  rw [if_neg]
  omega

namespace Frame

/-- A frame encoded into an empty buffer decodes back, whatever follows it, with the number of
bytes it took. -/
theorem decode_encode_append (f : Frame) (s : List UInt8) (m : Nat)
    (hsize : FrameHeader.length + f.body.length < 2 ^ 32)
    (hm : m = 0 ∨ FrameHeader.length + f.body.length ≤ m) :
    decode (encode [] f ++ s) m = .ok (f, FrameHeader.length + f.body.length) := by
  have hframe : (encode [] f ++ s).take (FrameHeader.length + f.body.length) = encode [] f :=
    List.take_left' (by simp [length_encode])
  -- the body starts right after the eight header bytes
  have hbody : (encode [] f).drop (2 * 4) = f.body := by
    have : encode [] f = (bigEndian 4 (FrameHeader.length + f.body.length) ++ [2, f.kind] ++
        bigEndian 2 f.channel.toNat) ++ f.body := by simp [Frame.encode]
    rw [this, List.drop_left' (by simp)]
  simp only [decode, FrameHeader.parse_encode f s hsize, bind, Except.bind,
    checkLimit_ok ⟨_, 2, f.kind, f.channel⟩ hm, hframe, hbody]
  rw [if_neg (by simp [length_encode])]
  rfl

/-- The frame codec's round trip. Appending a frame to any buffer adds the bytes that writing it
hands a stream; and when its size `8 + |body|` fits the 32-bit size field and the limit is
zero or admits it, decoding those bytes followed by anything gives back the frame, with its
type, channel and body, and the size as the count of bytes taken. -/
theorem encode_round_trip (f : Frame) (dst s : List UInt8) (m : Nat)
    (hsize : FrameHeader.length + f.body.length < 2 ^ 32)
    (hm : m = 0 ∨ FrameHeader.length + f.body.length ≤ m) :
    encode dst f = dst ++ f.writes.flatten ∧
      decode (encode [] f ++ s) m = .ok (f, FrameHeader.length + f.body.length) :=
  ⟨encode_eq_writes f dst, decode_encode_append f s m hsize hm⟩

/-- A one-byte frame on channel 1, after a byte of another frame and followed by two more, under
the smallest limit a peer may announce. -/
theorem one_byte_frame_round_trip :
    FrameHeader.length + [0xab].length < 2 ^ 32 ∧ (512 = 0 ∨ FrameHeader.length + [0xab].length ≤ 512) ∧
      (encode [0xff] ⟨0, 1, [0xab]⟩ = [0xff] ++ (writes ⟨0, 1, [0xab]⟩).flatten ∧
        decode (encode [] ⟨0, 1, [0xab]⟩ ++ [1, 2]) 512 =
          .ok (⟨0, 1, [0xab]⟩, FrameHeader.length + [0xab].length)) :=
  ⟨by decide, by decide, encode_round_trip ⟨0, 1, [0xab]⟩ [0xff] [1, 2] 512 (by decide) (by decide)⟩

end Frame

/-! ## Decoding a buffer and reading a stream agree -/

namespace Frame

/-- A read of `n` bytes from a stream that holds them takes exactly those. -/
theorem readFull_of_le {n : Nat} {bs : List UInt8} (h : n ≤ bs.length) :
    readFull n bs = .ok (bs.take n, bs.drop n) := by
  unfold readFull
  by_cases hn : n = 0
  · simp [hn]
  · have hne : bs.isEmpty = false := by
      cases bs with
      | nil => simp at h; omega
      | cons => rfl
    simp [hn, hne, Nat.not_lt.mpr h]

/-- A read of `n` bytes from a stream that holds fewer ends with nothing left, or cut short. -/
theorem readFull_of_lt {n : Nat} {bs : List UInt8} (h : bs.length < n) :
    readFull n bs = .error .endOfInput ∨ readFull n bs = .error .cutShort := by
  unfold readFull
  rw [if_neg (by omega)]
  cases bs with
  | nil => simp
  | cons b rest =>
    right
    rw [if_neg (by simp), if_pos h]

end Frame

namespace FrameHeader

/-- A header is read from the first eight bytes alone. -/
theorem parse_take {bs : List UInt8} (h : length ≤ bs.length) : parse (bs.take length) = parse bs := by
  simp only [length] at h
  simp [parse, length, List.take_take, List.drop_take, List.getD_eq_getElem?_getD,
    Nat.not_lt.mpr h, List.getElem?_eq_getElem (show 4 < bs.length by omega),
    List.getElem?_eq_getElem (show 5 < bs.length by omega)]

/-- A header that parses comes from at least eight bytes and passed its check. -/
theorem parse_ok {bs : List UInt8} {h : FrameHeader} (e : parse bs = .ok h) :
    length ≤ bs.length ∧ length ≤ h.size ∧ 2 ≤ h.offset ∧ h.offset * 4 ≤ h.size := by
  unfold parse check at e
  by_cases h8 : bs.length < length
  · simp [h8] at e
  · simp only [h8, if_false] at e
    split_ifs at e with h1 h2 h3
    cases e
    simp [length] at *
    omega

/-- A header is refused as incomplete when fewer than eight bytes are there, and as invalid
otherwise. -/
theorem parse_error {bs : List UInt8} {e : FrameError} (he : parse bs = .error e) :
    (bs.length < length ∧ e = .incomplete) ∨ (length ≤ bs.length ∧ ∃ f, e = .invalid f) := by
  unfold parse check at he
  by_cases h8 : bs.length < length
  · simp only [h8, if_true, Except.error.injEq] at he
    exact .inl ⟨h8, he.symm⟩
  · simp only [h8, if_false] at he
    refine .inr ⟨Nat.le_of_not_lt h8, ?_⟩
    split_ifs at he <;> cases he <;> exact ⟨_, rfl⟩

end FrameHeader

/-- The limit refuses a frame only as too large, naming its size and the limit. -/
theorem checkLimit_error {h : FrameHeader} {limit : Nat} {e : FrameError}
    (he : checkLimit h limit = .error e) : e = .tooLarge h.size limit := by
  unfold checkLimit at he
  split_ifs at he
  cases he
  rfl

namespace Frame

variable {bs : List UInt8} {limit : Nat} {h : FrameHeader}

/-- Once a header is in and admitted, decoding asks for the whole frame in the buffer. -/
theorem decode_of_header (hp : FrameHeader.parse bs = .ok h) (hl : checkLimit h limit = .ok ()) :
    decode bs limit = if bs.length < h.size then .error .incomplete
      else .ok (⟨h.kind, h.channel, (bs.take h.size).drop (h.offset * 4)⟩, h.size) := by
  simp only [decode, hp, hl, bind, Except.bind]
  rfl

/-- Once a header is in and admitted, reading skips the extended header and reads the body. -/
theorem read_of_header (hp : FrameHeader.parse bs = .ok h) (hl : checkLimit h limit = .ok ()) :
    read bs limit = if bs.length < h.offset * 4 then .error .endOfInput else
      (readFull h.bodySize (bs.drop (h.offset * 4))).map fun p => (⟨h.kind, h.channel, p.1⟩, p.2) := by
  obtain ⟨h8, -, hoff, -⟩ := FrameHeader.parse_ok hp
  -- the eight header bytes and the extended header together are the offset's words
  have hext : FrameHeader.length + (h.offset * 4 - FrameHeader.length) = h.offset * 4 := by
    simp only [FrameHeader.length]; omega
  have hlt : bs.length - FrameHeader.length < h.offset * 4 - FrameHeader.length ↔
      bs.length < h.offset * 4 := by
    simp only [FrameHeader.length] at h8 ⊢; omega
  simp only [read, readFull_of_le h8, FrameHeader.parse_take h8, hp, hl, bind, Except.bind,
    List.length_drop, List.drop_drop, hext, hlt]
  rfl

/-- Once a header is in and admitted, decoding and reading give the same frame, the stream then
holding the bytes after the frame's size; or decoding finds the buffer incomplete where the stream
ends, inside the extended header or inside the body. -/
theorem decode_read_of_header (hp : FrameHeader.parse bs = .ok h)
    (hl : checkLimit h limit = .ok ()) :
    (∃ f n, decode bs limit = .ok (f, n) ∧ read bs limit = .ok (f, bs.drop n)) ∨
      (decode bs limit = .error .incomplete ∧
        (read bs limit = .error .endOfInput ∨ read bs limit = .error .cutShort)) := by
  obtain ⟨-, -, -, hfit⟩ := FrameHeader.parse_ok hp
  rw [decode_of_header hp hl, read_of_header hp hl]
  by_cases hext : bs.length < h.offset * 4
  · -- the stream ends inside the extended header
    exact .inr ⟨if_pos (by omega), .inl (if_pos hext)⟩
  rw [if_neg hext]
  by_cases hbody : bs.length < h.size
  · -- the stream ends inside the body
    have hlt : (bs.drop (h.offset * 4)).length < h.bodySize := by
      simp [FrameHeader.bodySize]; omega
    refine .inr ⟨if_pos hbody, ?_⟩
    rcases readFull_of_lt hlt with hr | hr <;> simp [hr, Except.map]
  · -- the whole frame is there: the body is the window after the offset
    have hle : h.bodySize ≤ (bs.drop (h.offset * 4)).length := by
      simp [FrameHeader.bodySize]; omega
    have hsize : h.offset * 4 + (h.size - h.offset * 4) = h.size := by omega
    refine .inl ⟨⟨h.kind, h.channel, (bs.take h.size).drop (h.offset * 4)⟩, h.size,
      if_neg hbody, ?_⟩
    rw [readFull_of_le hle]
    simp [Except.map, List.drop_take, List.drop_drop, hsize, FrameHeader.bodySize]

/-- What decoding a buffer and reading the same bytes from a stream can come to, side by side:
the same frame, the stream then holding the bytes after the size that decoding reports; the same
invalid header; the same size refused as too large; or an incomplete buffer where the stream
ends, before the frame or inside it. -/
theorem decode_read_outcomes (bs : List UInt8) (limit : Nat) :
    (∃ f n, decode bs limit = .ok (f, n) ∧ read bs limit = .ok (f, bs.drop n)) ∨
      (∃ fault, decode bs limit = .error (.invalid fault) ∧
        read bs limit = .error (.invalid fault)) ∨
      (∃ size, decode bs limit = .error (.tooLarge size limit) ∧
        read bs limit = .error (.tooLarge size limit)) ∨
      (decode bs limit = .error .incomplete ∧
        (read bs limit = .error .endOfInput ∨ read bs limit = .error .cutShort)) := by
  by_cases hshort : bs.length < FrameHeader.length
  · -- fewer than eight bytes: no header
    have hd : decode bs limit = .error .incomplete := by
      simp [decode, FrameHeader.parse, hshort, bind, Except.bind]
    refine .inr (.inr (.inr ⟨hd, ?_⟩))
    rcases readFull_of_lt hshort with hr | hr <;> simp [read, hr, bind, Except.bind]
  have h8 := Nat.le_of_not_lt hshort
  cases hp : FrameHeader.parse bs with
  | error e =>
    obtain ⟨fault, rfl⟩ : ∃ fault, e = .invalid fault := by
      rcases FrameHeader.parse_error hp with ⟨hlt, -⟩ | ⟨-, hf⟩
      · omega
      · exact hf
    refine .inr (.inl ⟨fault, ?_, ?_⟩)
    · simp [decode, hp, bind, Except.bind]
    · simp [read, readFull_of_le h8, FrameHeader.parse_take h8, hp, bind, Except.bind]
  | ok h =>
    cases hl : checkLimit h limit with
    | error e =>
      obtain rfl := checkLimit_error hl
      refine .inr (.inr (.inl ⟨h.size, ?_, ?_⟩))
      · simp [decode, hp, hl, bind, Except.bind]
      · simp [read, readFull_of_le h8, FrameHeader.parse_take h8, hp, hl, bind, Except.bind]
    | ok u =>
      rcases decode_read_of_header hp hl with hframe | hends
      · exact .inl hframe
      · exact .inr (.inr (.inr hends))

/-- Decoding a buffer and reading the same bytes from a stream agree on every input and under
every limit: both give the same type, channel and body, the stream then holding exactly the bytes
after the size decoding reports; or both refuse the same invalid header; or both refuse the same
size as too large; or decoding finds the buffer incomplete while the stream ends. The buffer is
found incomplete exactly when the stream ends, before the frame or inside it. -/
theorem read_agrees_with_decode (bs : List UInt8) (limit : Nat) :
    ((∃ f n, decode bs limit = .ok (f, n) ∧ read bs limit = .ok (f, bs.drop n)) ∨
      (∃ fault, decode bs limit = .error (.invalid fault) ∧
        read bs limit = .error (.invalid fault)) ∨
      (∃ size, decode bs limit = .error (.tooLarge size limit) ∧
        read bs limit = .error (.tooLarge size limit)) ∨
      (decode bs limit = .error .incomplete ∧
        (read bs limit = .error .endOfInput ∨ read bs limit = .error .cutShort))) ∧
    (decode bs limit = .error .incomplete ↔
      read bs limit = .error .endOfInput ∨ read bs limit = .error .cutShort) := by
  have outcomes := decode_read_outcomes bs limit
  refine ⟨outcomes, fun hd => ?_, fun hr => ?_⟩
  · rcases outcomes with ⟨f, n, h1, -⟩ | ⟨fault, h1, -⟩ | ⟨size, h1, -⟩ | ⟨-, h2⟩ <;>
      simp_all
  · rcases outcomes with ⟨f, n, -, h2⟩ | ⟨fault, -, h2⟩ | ⟨size, -, h2⟩ | ⟨h1, -⟩ <;>
      simp_all

end Frame

/-! ## Decoding a buffer as it fills -/

namespace FrameHeader

/-- Two buffers that agree on their first eight bytes hold the same header. -/
theorem parse_eq_of_take_eq {bs cs : List UInt8} (hb : length ≤ bs.length) (hc : length ≤ cs.length)
    (e : bs.take length = cs.take length) : parse bs = parse cs := by
  rw [← parse_take hb, ← parse_take hc, e]

end FrameHeader

namespace Frame

variable {bs : List UInt8} {limit n : Nat} {f : Frame}

/-- A buffer shorter than a header is incomplete. -/
theorem decode_of_lt_length (hs : bs.length < FrameHeader.length) :
    decode bs limit = .error .incomplete := by
  simp [decode, FrameHeader.parse, hs, bind, Except.bind]

/-- A decoded frame comes from an admitted header and a buffer that holds the whole frame: its
type and channel are the header's, its body the bytes between the offset and the size, and the
count of bytes taken is the size. -/
theorem decode_ok (e : decode bs limit = .ok (f, n)) :
    ∃ h, FrameHeader.parse bs = .ok h ∧ checkLimit h limit = .ok () ∧ h.size ≤ bs.length ∧
      f = ⟨h.kind, h.channel, (bs.take h.size).drop (h.offset * 4)⟩ ∧ n = h.size := by
  cases hp : FrameHeader.parse bs with
  | error err => simp [decode, hp, bind, Except.bind] at e
  | ok h =>
    cases hl : checkLimit h limit with
    | error err => simp [decode, hp, hl, bind, Except.bind] at e
    | ok u =>
      cases u
      rw [decode_of_header hp hl] at e
      split_ifs at e with hshort
      obtain ⟨rfl, rfl⟩ := Prod.mk.inj (Except.ok.inj e)
      exact ⟨h, rfl, hl, Nat.le_of_not_lt hshort, rfl, rfl⟩

/-- Decoding is a streaming parse. Once a buffer decodes to a frame and a count `n`, the same
buffer with any bytes appended decodes to the same frame and count, and a buffer holding only
its first `k` bytes is incomplete while `k < n` and decodes to that frame from `k = n` on. An
incomplete buffer carries no frame and no count: more bytes are needed, nothing is taken. -/
theorem decode_streaming (e : decode bs limit = .ok (f, n)) :
    (∀ s, decode (bs ++ s) limit = .ok (f, n)) ∧
      ∀ k, decode (bs.take k) limit = if k < n then .error .incomplete else .ok (f, n) := by
  obtain ⟨h, hp, hl, hfit, rfl, rfl⟩ := decode_ok e
  obtain ⟨h8, hsize, -, -⟩ := FrameHeader.parse_ok hp
  -- the header is read from the first eight bytes, which every longer prefix and every
  -- extension shares
  have header_of : ∀ cs : List UInt8, FrameHeader.length ≤ cs.length →
      cs.take FrameHeader.length = bs.take FrameHeader.length → FrameHeader.parse cs = .ok h :=
    fun cs hc e => (FrameHeader.parse_eq_of_take_eq hc h8 e).trans hp
  refine ⟨fun s => ?_, fun k => ?_⟩
  · have hp' := header_of (bs ++ s) (by simp; omega) (List.take_append_of_le_length h8)
    rw [decode_of_header hp' hl, if_neg (by simp; omega), List.take_append_of_le_length hfit]
  · by_cases hk8 : k < FrameHeader.length
    · rw [if_pos (by omega)]
      exact decode_of_lt_length (by simp; omega)
    have hp' := header_of (bs.take k) (by simp; omega) (by rw [List.take_take]; congr 1; omega)
    rw [decode_of_header hp' hl, List.length_take]
    by_cases hk : k < h.size
    · rw [if_pos hk, if_pos (by omega)]
    · rw [if_neg hk, if_neg (by omega), List.take_take, Nat.min_eq_left (by omega)]

/-- A one-byte frame on channel 1 is decoded from its nine bytes whatever follows, and is
incomplete in its first eight. -/
theorem one_byte_frame_streams :
    decode [0, 0, 0, 9, 2, 0, 0, 1, 0xab] 512 = .ok (⟨0, 1, [0xab]⟩, 9) ∧
      ((∀ s, decode ([0, 0, 0, 9, 2, 0, 0, 1, 0xab] ++ s) 512 = .ok (⟨0, 1, [0xab]⟩, 9)) ∧
        ∀ k, decode ([0, 0, 0, 9, 2, 0, 0, 1, 0xab].take k) 512 =
          if k < 9 then .error .incomplete else .ok (⟨0, 1, [0xab]⟩, 9)) :=
  have e : decode [0, 0, 0, 9, 2, 0, 0, 1, 0xab] 512 = .ok (⟨0, 1, [0xab]⟩, 9) := by
    simp [decode, FrameHeader.parse, FrameHeader.check, FrameHeader.length, checkLimit, ofBigEndian,
      bind, Except.bind, pure, Except.pure]
  ⟨e, decode_streaming e⟩

end Frame

end Courier.Amqp
