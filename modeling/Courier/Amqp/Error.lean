import Courier.Amqp.Show
import Courier.Text.Hex

/-!
Why the codec refuses a value or a byte string. Each cause belongs to one of the codec's
classes of failure (an unknown code, a bad size, a value that does not fit its constructor,
input that ends too early, ...); `CodecError.message` gives its text.
-/

set_option autoImplicit false

namespace Courier.Amqp

/-- A size or count field that cannot be right. -/
inductive SizeFault where
  /-- A variable-width value declares more bytes than any buffer may hold. -/
  | tooLong (n : Nat)
  /-- A compound's size field is smaller than its count field or too large. -/
  | size (n : Nat)
  /-- A compound declares more items than the codec reads. -/
  | items (n : Nat)
  | oddMapCount (n : Nat)
  /-- An array body without its element constructor. -/
  | noElementCode
  /-- The items end past the compound's body. -/
  | overrun
  /-- Bytes of a compound's body are left after its items. -/
  | trailing (n : Nat)

/-- A descriptor that is neither an unsigned long nor a symbol. -/
inductive DescriptorFault where
  | kind (v : Value)
  /-- A second descriptor where an array's element constructor belongs. -/
  | nested

/-- A value that the chosen constructor cannot hold. -/
inductive FitFault where
  | mismatch (v : Value) (code : UInt8)
  /-- A variable-width value too long for a one-byte length. -/
  | tooLongForShort (n : Nat)
  /-- A compound body or count too large for one-byte fields. -/
  | compoundTooLarge (len count : Nat) (code : UInt8)

/-- Array items that cannot share one element constructor. -/
inductive MixFault where
  | describedItems
  | codes (first next : UInt8)

/-- Why the codec refuses. -/
inductive CodecError where
  | unknownType (code : UInt8)
  | unsupportedType (v : Value)
  /-- The input ended inside the value; the whole input's length. -/
  | shortBuffer (len : Nat)
  | invalidSize (f : SizeFault)
  | invalidDescriptor (f : DescriptorFault)
  | invalidValue (f : FitFault)
  | mixedArray (f : MixFault)
  /-- Nothing was left to read. -/
  | endOfInput
  /-- A read of a fixed count of bytes was cut short. -/
  | cutShort
  /-- A described value was expected. -/
  | notDescribed (v : Value)
  /-- A list was expected. -/
  | notList (v : Value)

namespace CodecError

/-- A byte as `0x` and two digits. -/
def codeText (b : UInt8) : String := "0x" ++ Text.Hex.ofByte b

/-- The text of the error. -/
def message : CodecError → String
  | unknownType b => "unknown AMQP type code: " ++ codeText b
  | unsupportedType v => "unsupported Go type: " ++ v.kindName
  | shortBuffer n => "buffer too short: " ++ toString n ++ " bytes"
  | invalidSize f => "invalid compound size: " ++ match f with
    | .tooLong n => toString n ++ " bytes"
    | .size n => "size " ++ toString n
    | .items n => toString n ++ " items"
    | .oddMapCount n => "odd map count " ++ toString n
    | .noElementCode => "array without constructor"
    | .overrun => "items overrun body"
    | .trailing n => toString n ++ " trailing bytes"
  | invalidDescriptor f => "descriptor must be ulong or symbol: " ++ match f with
    | .kind v => "got " ++ v.kindName
    | .nested => "nested descriptor in array"
  | invalidValue f => "value does not fit constructor: " ++ match f with
    | .mismatch v code => v.kindName ++ "(" ++ v.render ++ ") as " ++ codeText code
    | .tooLongForShort n => toString n ++ " bytes in 8-bit width"
    | .compoundTooLarge len count code =>
      toString len ++ " bytes, " ++ toString count ++ " items in " ++ codeText code
  | mixedArray f => "array items do not share a constructor: " ++ match f with
    | .describedItems => "described items need Array.Descriptor"
    | .codes a b => codeText a ++ " and " ++ codeText b
  | endOfInput => "EOF"
  | cutShort => "unexpected EOF"
  | notDescribed v => "expected described type, got " ++ v.kindName
  | notList v => "expected list value, got " ++ v.kindName

/-- Whether the error only says that the input ended too early. -/
def isEnd : CodecError → Bool
  | endOfInput | cutShort => true
  | _ => false

end CodecError

end Courier.Amqp
