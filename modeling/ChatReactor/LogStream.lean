import ChatReactor.Buffer
import ChatReactor.Lib.Decimal

/-!
# `LogStream` (`LogStream.h`, `LogStream.cc`)

| here | there |
| --- | --- |
| `FixedBuffer` | the class template (`LogStream.h:18-70`); `cur_` is an offset into `data_` |
| `FixedBuffer.write` | the stores into `data_`: `memcpy`, `*p++ = c`, `buf[0] = '0'` |
| `convert`, `convertHex` | the functions (`LogStream.cc:28-67`); `convertLoop` is the `do` loop that they share |
| `Item`, `shl` | the operands of the overloads of `operator<<`, and the overloads (`LogStream.h:80-149`, `LogStream.cc:98-179`) |
| `Printf` | the conversions of the C library that the stream uses |

`none` is a store outside of `data_`, a `cur_` behind its end, or a read outside of a table or of the operand. `data_` is
not initialised, so that a stream begins with any bytes in it.
-/

namespace ChatReactor

def kSmallBuffer : Nat := 4000
def kMaxNumericSize : Nat := 32

structure FixedBuffer (SIZE : Nat) where
  data : List UInt8
  cur : Nat
  size_eq : data.length = SIZE
  cur_le : cur ≤ SIZE

namespace FixedBuffer
variable {SIZE : Nat}

def length (b : FixedBuffer SIZE) : Nat := b.cur

def avail (b : FixedBuffer SIZE) : Nat := SIZE - b.cur

def toString (b : FixedBuffer SIZE) : List UInt8 := b.data.take b.length

theorem length_splice (b : FixedBuffer SIZE) {pos : Nat} {bytes : List UInt8} (h : pos + bytes.length ≤ SIZE) :
    (b.data.take pos ++ bytes ++ b.data.drop (pos + bytes.length)).length = SIZE := by
  have := b.size_eq
  simp only [List.length_append, List.length_take, List.length_drop]
  omega

def write (b : FixedBuffer SIZE) (pos : Nat) (bytes : List UInt8) : Option (FixedBuffer SIZE) :=
  if h : pos + bytes.length ≤ SIZE then
    some { b with data := b.data.take pos ++ bytes ++ b.data.drop (pos + bytes.length), size_eq := b.length_splice h }
  else none

def add (b : FixedBuffer SIZE) (len : Nat) : Option (FixedBuffer SIZE) :=
  if h : b.cur + len ≤ SIZE then some { b with cur := b.cur + len, cur_le := h } else none

/-- `buf` is the memory behind the pointer. -/
def append (b : FixedBuffer SIZE) (buf : List UInt8) (len : Nat) : Option (FixedBuffer SIZE) :=
  if b.avail > len then do
    check (len ≤ buf.length)
    let b ← b.write b.cur (buf.take len)
    b.add len
  else some b

/-- `std::reverse` of the bytes from `first` to `last`. -/
def reverse (b : FixedBuffer SIZE) (first last : Nat) : Option (FixedBuffer SIZE) := do
  check (last ≤ SIZE)
  b.write first ((b.data.take last).drop first).reverse

/-! ## Numbers, written where they stand -/

/-- `do { lsd = i % base; i /= base; *p++ = digit[lsd]; } while (i != 0);` with the pointer behind the last digit. -/
def convertLoop (base : Int) (digit : Int → Option UInt8) :
    Nat → FixedBuffer SIZE → (p : Nat) → (i : Int) → Option (Nat × FixedBuffer SIZE)
  | 0, _, _, _ => none
  | fuel + 1, b, p, i => do
    let lsd := i.tmod base
    let i := i.tdiv base
    let b ← b.write p [← digit lsd]
    if i ≠ 0 then convertLoop base digit fuel b (p + 1) i else some (p + 1, b)

end FixedBuffer

def digitTable : List UInt8 := bytesOf "9876543210123456789"

/-- `zero[lsd]`, where `zero` is `digits + 9` -/
def zero (lsd : Int) : Option UInt8 := do
  check (0 ≤ 9 + lsd)
  digitTable[(9 + lsd).toNat]?

def digitsHex (lsd : Int) : Option UInt8 := do
  check (0 ≤ lsd)
  (bytesOf "0123456789ABCDEF")[lsd.toNat]?

namespace FixedBuffer
variable {SIZE : Nat}

/-- `buf` is a pointer into `data_`. The loop has ended when it has run `|value|` times. -/
def convert (b : FixedBuffer SIZE) (buf : Nat) (value : Int) : Option (Nat × FixedBuffer SIZE) := do
  let (p, b) ← b.convertLoop 10 zero (value.natAbs + 1) buf value
  let (p, b) ← (if value < 0 then (b.write p [45]).map fun b => (p + 1, b) else some (p, b))
  let b ← b.write p [0]
  return (p - buf, ← b.reverse buf p)

def convertHex (b : FixedBuffer SIZE) (buf : Nat) (value : Int) : Option (Nat × FixedBuffer SIZE) := do
  let (p, b) ← b.convertLoop 16 digitsHex (value.natAbs + 1) buf value
  let b ← b.write p [0]
  return (p - buf, ← b.reverse buf p)

/-- `snprintf` of a text into `size` bytes at `buf`. -/
def snprintf (b : FixedBuffer SIZE) (buf size : Nat) (text : List UInt8) : Option (Nat × FixedBuffer SIZE) := do
  return (text.length, ← b.write buf (text.take (size - 1) ++ [0]))

end FixedBuffer

/-! ## The stream -/

/-- `float` to `double`, and `%.12g` of a `double`, which has fewer than 32 characters. -/
structure Printf (F D : Type) where
  toDouble : F → D
  g12 : D → List UInt8
  g12_lt : ∀ v, (g12 v).length < 32

structure StringPiece where
  /-- the memory behind `ptr_` -/
  ptr : List UInt8
  length : Int32
  length_le : length.toInt ≤ ptr.length

theorem FixedBuffer.toStringPiece_le (b : FixedBuffer kSmallBuffer) : (Int32.ofNat b.length).toInt ≤ b.data.length := by
  have hcur := b.cur_le
  have hsize := b.size_eq
  simp only [kSmallBuffer] at hcur hsize
  rw [Int32.toInt_ofNat_of_lt (by simp only [length]; omega), length]
  omega

def FixedBuffer.toStringPiece (b : FixedBuffer kSmallBuffer) : StringPiece :=
  ⟨b.data, Int32.ofNat b.length, b.toStringPiece_le⟩

/-- What can be inserted. A `const char*` is null or has a string behind it; `long` has 64 bits. -/
inductive Item (F D : Type)
  | bool (v : Bool)
  | short (v : Int16)
  | unsignedShort (v : UInt16)
  | int (v : Int32)
  | unsignedInt (v : UInt32)
  | long (v : Int64)
  | unsignedLong (v : UInt64)
  | longLong (v : Int64)
  | unsignedLongLong (v : UInt64)
  | pointer (p : UInt64)
  | float (v : F)
  | double (v : D)
  | char (v : UInt8)
  | charPtr (str : Option (List UInt8))
  | unsignedCharPtr (str : Option (List UInt8))
  | string (v : List UInt8)
  | piece (v : StringPiece)
  | buffer (v : FixedBuffer kSmallBuffer)

structure LogStream where
  buffer : FixedBuffer kSmallBuffer

namespace LogStream

def new (data : Fin kSmallBuffer → UInt8) : LogStream := ⟨List.ofFn data, 0, List.length_ofFn, Nat.zero_le _⟩

/-- `static_cast<size_t>` of an `int` -/
def toSize (x : Int32) : Nat := (x.toInt % 2 ^ 64).toNat

/-- `buffer_.append` -/
def bufferAppend (s : LogStream) (buf : List UInt8) (len : Nat) : Option LogStream :=
  (s.buffer.append buf len).map LogStream.mk

/-- `LogStream::append`, which `Fmt`, `T` and `SourceFile` are inserted with. -/
def append (s : LogStream) (data : List UInt8) (len : Int32) : Option LogStream := s.bufferAppend data (toSize len)

def formatInteger (s : LogStream) (v : Int) : Option LogStream :=
  if s.buffer.avail ≥ kMaxNumericSize then do
    let (len, b) ← s.buffer.convert s.buffer.cur v
    return ⟨← b.add len⟩
  else some s

def formatPointer (s : LogStream) (v : Int) : Option LogStream :=
  if s.buffer.avail ≥ kMaxNumericSize then do
    let buf := s.buffer.cur
    let b ← s.buffer.write buf [48]
    let b ← b.write (buf + 1) [120]
    let (len, b) ← b.convertHex (buf + 2) v
    return ⟨← b.add (len + 2)⟩
  else some s

def formatDouble (s : LogStream) (text : List UInt8) : Option LogStream :=
  if s.buffer.avail ≥ kMaxNumericSize then do
    let (len, b) ← s.buffer.snprintf s.buffer.cur kMaxNumericSize text
    return ⟨← b.add len⟩
  else some s

def insertPtr (s : LogStream) (str : Option (List UInt8)) : Option LogStream :=
  match str with
  | some str => s.bufferAppend str (cString str).length
  | none => s.bufferAppend (bytesOf "(null)") 6

def insertPiece (s : LogStream) (v : StringPiece) : Option LogStream := s.bufferAppend v.ptr (toSize v.length)

variable {F D : Type} (pf : Printf F D)

/-- `operator<<` -/
def shl (s : LogStream) : Item F D → Option LogStream
  | .bool v => s.bufferAppend (bytesOf (if v then "1" else "0")) 1
  | .short v => s.formatInteger v.toInt
  | .unsignedShort v => s.formatInteger v.toNat
  | .int v => s.formatInteger v.toInt
  | .unsignedInt v => s.formatInteger v.toNat
  | .long v => s.formatInteger v.toInt
  | .unsignedLong v => s.formatInteger v.toNat
  | .longLong v => s.formatInteger v.toInt
  | .unsignedLongLong v => s.formatInteger v.toNat
  | .pointer p => s.formatPointer p.toNat
  | .float v => s.formatDouble (pf.g12 (pf.toDouble v))
  | .double v => s.formatDouble (pf.g12 v)
  | .char v => s.bufferAppend [v] 1
  | .charPtr str => s.insertPtr str
  | .unsignedCharPtr str => s.insertPtr str
  | .string v => s.bufferAppend v v.length
  | .piece v => s.insertPiece v
  | .buffer v => s.insertPiece v.toStringPiece

/-- A sequence of insertions. -/
def insertAll (s : LogStream) (items : List (Item F D)) : Option LogStream := items.foldlM (shl pf) s

end LogStream
end ChatReactor
