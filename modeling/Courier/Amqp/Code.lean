/-!
Constructor codes of the AMQP 1.0 type system: the byte that opens every encoded value and
says how its body is laid out. Codes of one type that differ only in width form a family;
`Code.family` gives the family and the rank of the width in it.
-/

set_option autoImplicit false

namespace Courier.Amqp

/-- A constructor code known to the codec. -/
inductive Code where
  | null | boolTrue | boolFalse | bool
  | ubyte | ushort | uint0 | smallUint | uint | ulong0 | smallUlong | ulong
  | byte | short | smallInt | int | smallLong | long
  | float | double | decimal32 | decimal64 | decimal128
  | char | timestamp | uuid
  | vbin8 | vbin32 | str8 | str32 | sym8 | sym32
  | list0 | list8 | list32 | map8 | map32 | array8 | array32
  | described
  deriving DecidableEq, Repr

namespace Code

/-- The byte that stands for the code on the wire. -/
def toByte : Code → UInt8
  | null => 0x40 | boolTrue => 0x41 | boolFalse => 0x42 | bool => 0x56
  | ubyte => 0x50 | ushort => 0x60 | uint0 => 0x43 | smallUint => 0x52 | uint => 0x70
  | ulong0 => 0x44 | smallUlong => 0x53 | ulong => 0x80
  | byte => 0x51 | short => 0x61 | smallInt => 0x54 | int => 0x71
  | smallLong => 0x55 | long => 0x81
  | float => 0x72 | double => 0x82
  | decimal32 => 0x74 | decimal64 => 0x84 | decimal128 => 0x94
  | char => 0x73 | timestamp => 0x83 | uuid => 0x98
  | vbin8 => 0xa0 | vbin32 => 0xb0 | str8 => 0xa1 | str32 => 0xb1 | sym8 => 0xa3 | sym32 => 0xb3
  | list0 => 0x45 | list8 => 0xc0 | list32 => 0xd0 | map8 => 0xc1 | map32 => 0xd1
  | array8 => 0xe0 | array32 => 0xf0
  | described => 0x00

/-- Every code, in the order of the type system's table. -/
def all : List Code :=
  [null, boolTrue, boolFalse, bool, ubyte, ushort, uint0, smallUint, uint, ulong0, smallUlong,
    ulong, byte, short, smallInt, int, smallLong, long, float, double, decimal32, decimal64,
    decimal128, char, timestamp, uuid, vbin8, vbin32, str8, str32, sym8, sym32, list0, list8,
    list32, map8, map32, array8, array32, described]

/-- The code a byte stands for, if any. -/
def ofByte? (b : UInt8) : Option Code :=
  all.find? (fun c => c.toByte == b)

/-- A family of codes for one type in several widths, and the rank of this code's width in it
(0 the narrowest). Codes outside every family have none. -/
def family : Code → Option (Nat × Nat)
  | smallUint => some (0, 0) | uint => some (0, 1)
  | smallUlong => some (1, 0) | ulong => some (1, 1)
  | smallInt => some (2, 0) | int => some (2, 1)
  | smallLong => some (3, 0) | long => some (3, 1)
  | vbin8 => some (4, 0) | vbin32 => some (4, 1)
  | str8 => some (5, 0) | str32 => some (5, 1)
  | sym8 => some (6, 0) | sym32 => some (6, 1)
  | list8 => some (7, 0) | list32 => some (7, 1)
  | map8 => some (8, 0) | map32 => some (8, 1)
  | array8 => some (9, 0) | array32 => some (9, 1)
  | _ => none

/-- The code an array uses for an element written alone under this code: the zero-width and
one-byte boolean forms carry no body, so an array widens them to the narrowest form with one. -/
def asElement : Code → Code
  | uint0 => smallUint
  | ulong0 => smallUlong
  | boolTrue | boolFalse => bool
  | list0 => list8
  | c => c

end Code

end Courier.Amqp
