import ChatReactor.Lib.NetOrder

/-!
# `Buffer` (`Buffer.h`, `Buffer.cc`)

| here | there |
| --- | --- |
| `Buffer` | `buffer_`, `readerIndex_`, `writerIndex_` (`Buffer.h:235-237`) |
| `check` | `assert`; the result `none` is the abort |
| `store` | `std::copy` into `buffer_`; out of bounds is `none` too |
| `copyForward` | `std::copy` inside `buffer_`, element by element, so that an overlapping copy does what the loop does |
| `makeSpace` … `shrink` | the members of the same name (`Buffer.h:79-232`) |
| `makeSpace64`, `ensureWritableBytes64` | `makeSpace` and `ensureWritableBytes` for any `size_t` |
| `readFd` | `Buffer::readFd` (`Buffer.cc:18-37`); what `readv` returned is an argument |
| `Op`, `step` | one call by a client of the class |
| `Op.push`, `Op.taken` | the byte queue the class is meant to be |

`size_t` is `Nat`: every length is the length of data in memory, but for the arguments that a client passes to `shrink` and
`ensureWritableBytes`. A pointer into `buffer_` is its offset from `begin()`.
-/

namespace ChatReactor

/-- `assert(c)`. -/
def check (c : Prop) [Decidable c] : Option Unit := if c then some () else none

@[simp] theorem check_of {c : Prop} [Decidable c] (h : c) : check c = some () := by simp [check, h]

theorem check_eq_some {c : Prop} [Decidable c] {u : Unit} : check c = some u ↔ c := by
  by_cases h : c <;> simp [check, h]

theorem bind_of_eq_some {α β : Type} {x : Option α} {a : α} {f : α → Option β} (h : x = some a) : (x >>= f) = f a := by
  rw [h]
  rfl

/-- The bytes of a string literal. -/
def bytesOf (s : String) : List UInt8 := s.toList.map fun c => UInt8.ofNat c.toNat

/-- The bytes in front of the first NUL. -/
def cString (s : List UInt8) : List UInt8 := s.takeWhile (· ≠ 0)

theorem cString_isPrefix (s : List UInt8) : cString s <+: s := List.takeWhile_prefix _

theorem length_cString_le (s : List UInt8) : (cString s).length ≤ s.length := (cString_isPrefix s).length_le

theorem cString_eq_take (s : List UInt8) : cString s = s.take (cString s).length :=
  List.prefix_iff_eq_take.1 (cString_isPrefix s)

theorem cString_append {s : List UInt8} (h : 0 ∉ s) (rest : List UInt8) : cString (s ++ rest) = s ++ cString rest :=
  List.takeWhile_append_of_pos fun c hc => decide_eq_true fun (hzero : c = 0) => h (hzero ▸ hc)

theorem cString_of_not_mem {s : List UInt8} (h : 0 ∉ s) : cString s = s := by
  simpa [cString] using cString_append h []

/-- A text in front of its NUL. -/
theorem cString_terminated {s : List UInt8} (h : 0 ∉ s) (rest : List UInt8) : cString (s ++ 0 :: rest) = s := by
  rw [cString_append h]
  exact List.append_nil s

/-! ## `std::vector` and `std::copy` -/

/-- `vector::resize(n)`: truncate, or append value-initialised bytes. -/
def resize (l : List UInt8) (n : Nat) : List UInt8 := l.take n ++ List.replicate (n - l.length) 0

/-- `std::copy(data, data + len, begin() + pos)`. -/
def store (l : List UInt8) (pos : Nat) (data : List UInt8) : Option (List UInt8) :=
  if pos + data.length ≤ l.length then some (l.take pos ++ data ++ l.drop (pos + data.length)) else none

/-- `std::copy(begin() + src, begin() + src + n, begin() + dst)`, front to back. -/
def copyForward (l : List UInt8) (src dst : Nat) : Nat → List UInt8
  | 0 => l
  | n + 1 => copyForward (l.set dst (l.getD src 0)) (src + 1) (dst + 1) n

/-- Copying towards the front never reads a cell the copy has already written. -/
theorem copyForward_eq : ∀ (n : Nat) (l : List UInt8) (src dst : Nat), dst ≤ src → src + n ≤ l.length →
    copyForward l src dst n = l.take dst ++ (l.drop src).take n ++ l.drop (dst + n)
  | 0, l, src, dst, _, _ => by simp [copyForward]
  | n + 1, l, src, dst, hds, hlen => by
    have hsrc : src < l.length := by omega
    rw [copyForward, copyForward_eq n _ _ _ (by omega) (by simp; omega)]
    have htake : (l.set dst (l.getD src 0)).take (dst + 1) = l.take dst ++ [l.getD src 0] := by
      rw [List.set_eq_take_append_cons_drop, if_pos (by omega), List.take_append,
        List.take_of_length_le (by simp)]
      simp [show dst + 1 - min dst l.length = 1 by omega]
    have hdrop : ∀ k, dst < k → (l.set dst (l.getD src 0)).drop k = l.drop k := fun k hk => by
      rw [List.drop_set, if_pos hk]
    have hcons : (l.drop src).take (n + 1) = l.getD src 0 :: (l.drop (src + 1)).take n := by
      rw [List.drop_eq_getElem_cons hsrc, List.take_succ_cons]
      simp [List.getElem?_eq_getElem hsrc]
    rw [htake, hdrop _ (by omega), hdrop _ (by omega), hcons, show dst + 1 + n = dst + (n + 1) by omega]
    simp

theorem store_append (pre mid post data : List UInt8) (h : data.length = mid.length) :
    store (pre ++ mid ++ post) pre.length data = some (pre ++ data ++ post) := by
  have hlen : pre.length + data.length ≤ (pre ++ mid ++ post).length := by simp; omega
  have htake : (pre ++ mid ++ post).take pre.length = pre := by simp [List.append_assoc]
  have hdrop : (pre ++ mid ++ post).drop (pre.length + data.length) = post := by
    rw [h, ← List.length_append, List.drop_left]
  rw [store, if_pos hlen, htake, hdrop]

/-! ## The class -/

/-- `Buffer::kCheapPrepend`. -/
def kCheapPrepend : Nat := 8
/-- `Buffer::kInitialSize`. -/
def kInitialSize : Nat := 1024
/-- `sizeof extrabuf` in `readFd`. -/
def kExtraBuf : Nat := 65536

structure Buffer where
  buffer : List UInt8
  readerIndex : Nat
  writerIndex : Nat
deriving DecidableEq, Repr

namespace Buffer

/-- The initialisers of `Buffer::Buffer()`. -/
def new : Buffer := ⟨List.replicate (kCheapPrepend + kInitialSize) 0, kCheapPrepend, kCheapPrepend⟩

def readableBytes (b : Buffer) : Nat := b.writerIndex - b.readerIndex
def writableBytes (b : Buffer) : Nat := b.buffer.length - b.writerIndex
def prependableBytes (b : Buffer) : Nat := b.readerIndex
def peek (b : Buffer) : Nat := b.readerIndex
def beginWrite (b : Buffer) : Nat := b.writerIndex

/-- The bytes `[peek(), beginWrite())`, CONTENT in the class comment. -/
def content (b : Buffer) : List UInt8 := (b.buffer.drop b.readerIndex).take b.readableBytes

/-- `Buffer::Buffer()` with its asserts (`Buffer.h:39-47`). -/
def construct : Option Buffer := do
  check (new.readableBytes = 0)
  check (new.writableBytes = kInitialSize)
  check (new.prependableBytes = kCheapPrepend)
  return new

def retrieve (b : Buffer) (len : Nat) : Option Buffer := do
  check (len ≤ b.readableBytes)
  return { b with readerIndex := b.readerIndex + len }

/-- `endp` is the pointer argument, as an offset from `begin()`. -/
def retrieveUntil (b : Buffer) (endp : Nat) : Option Buffer := do
  check (b.peek ≤ endp)
  check (endp ≤ b.beginWrite)
  b.retrieve (endp - b.peek)

def retrieveAll (b : Buffer) : Buffer :=
  { b with readerIndex := kCheapPrepend, writerIndex := kCheapPrepend }

def retrieveAsString (b : Buffer) (len : Nat) : Option (List UInt8 × Buffer) := do
  check (len ≤ b.readableBytes)
  let result := (b.buffer.drop b.peek).take len
  let b ← b.retrieve len
  return (result, b)

def retrieveAllAsString (b : Buffer) : Option (List UInt8 × Buffer) := b.retrieveAsString b.readableBytes

/-- The second branch of `makeSpace`: move readable data to the front, make space inside buffer. -/
def slide (b : Buffer) : Option Buffer := do
  check (kCheapPrepend < b.readerIndex)
  let readable := b.readableBytes
  let moved : Buffer :=
    { buffer := copyForward b.buffer b.readerIndex kCheapPrepend (b.writerIndex - b.readerIndex)
      readerIndex := kCheapPrepend
      writerIndex := kCheapPrepend + readable }
  check (readable = moved.readableBytes)
  return moved

def makeSpace (b : Buffer) (len : Nat) : Option Buffer :=
  if b.writableBytes + b.prependableBytes < len + kCheapPrepend then
    some { b with buffer := resize b.buffer (b.writerIndex + len) }
  else b.slide

def ensureWritableBytes (b : Buffer) (len : Nat) : Option Buffer := do
  let b ← if b.writableBytes < len then b.makeSpace len else some b
  check (len ≤ b.writableBytes)
  return b

/-- `std::vector<char>::max_size()`; a constructor or a `resize` that is asked for more throws `length_error`. -/
def kMaxSize : Nat := 9223372036854775807

/-- Both sums wrap around. -/
def makeSpace64 (b : Buffer) (len : UInt64) : Option Buffer :=
  if b.writableBytes + b.prependableBytes < (len.toNat + kCheapPrepend) % 18446744073709551616 then do
    let size := (b.writerIndex + len.toNat) % 18446744073709551616
    check (size ≤ kMaxSize)
    return { b with buffer := resize b.buffer size }
  else b.slide

/-- The assert at the end is on a `size_t` difference, which is great if the vector has become too small. -/
def ensureWritableBytes64 (b : Buffer) (len : UInt64) : Option Buffer := do
  let b ← if b.writableBytes < len.toNat then b.makeSpace64 len else some b
  check (b.writerIndex ≤ b.buffer.length → len.toNat ≤ b.writableBytes)
  check (b.buffer.length < b.writerIndex → len.toNat + b.writerIndex ≤ 18446744073709551616 + b.buffer.length)
  return b

def hasWritten (b : Buffer) (len : Nat) : Buffer := { b with writerIndex := b.writerIndex + len }

/-- The caller stores `data` through the pointer `beginWrite()`. -/
def fill (b : Buffer) (data : List UInt8) : Option Buffer := do
  let l ← store b.buffer b.beginWrite data
  return { b with buffer := l }

def append (b : Buffer) (data : List UInt8) : Option Buffer := do
  let b ← b.ensureWritableBytes data.length
  let b ← b.fill data
  return b.hasWritten data.length

def appendInt64 (b : Buffer) (x : Int) : Option Buffer :=
  b.append (NetOrder.netBytes 8 (x % 18446744073709551616).toNat)

def appendInt32 (b : Buffer) (x : Int) : Option Buffer :=
  b.append (NetOrder.netBytes 4 (x % 4294967296).toNat)

def peekInt32 (b : Buffer) : Option Int := do
  check (4 ≤ b.readableBytes)
  return NetOrder.int32 (NetOrder.netValue ((b.buffer.drop b.peek).take 4))

def prepend (b : Buffer) (data : List UInt8) : Option Buffer := do
  check (data.length ≤ b.prependableBytes)
  let readerIndex := b.readerIndex - data.length
  let l ← store b.buffer readerIndex data
  return { b with buffer := l, readerIndex := readerIndex }

/-- `shrink(reserve)`: the readable bytes are copied behind `kCheapPrepend` of a new vector, the indices stay as they are.
The size of the new vector is a `size_t` sum. `none` is the exception, or a copy out of bounds. -/
def shrink (b : Buffer) (reserve : UInt64) : Option Buffer := do
  let size := (kCheapPrepend + b.readableBytes + reserve.toNat) % 18446744073709551616
  check (size ≤ kMaxSize)
  let buf ← store (List.replicate size 0) kCheapPrepend b.content
  return { b with buffer := buf }

/-- `readv` into the writable space and `extrabuf`: `none` is a result of `-1`, `some data` the
bytes it delivered, the first `writableBytes()` of them in place and the others in `extrabuf`. -/
def readFd (b : Buffer) : Option (List UInt8) → Option (Int × Buffer)
  | none => some (-1, b)
  | some data => do
    let writable := b.writableBytes
    let b ← b.fill (data.take writable)
    if data.length ≤ writable then
      return (data.length, { b with writerIndex := b.writerIndex + data.length })
    else
      let b ← { b with writerIndex := b.buffer.length }.append (data.drop writable)
      return (data.length, b)

/-! ## Client calls -/

/-- One call on a `Buffer`. `retrieveUntil off` passes the pointer `peek() + off`; `hasWritten data`
is the call `hasWritten(len)` after the caller has put `data` at `beginWrite()` (a bare
`hasWritten(len)` commits the bytes that already lie there). -/
inductive Op
  | append (data : List UInt8)
  | appendInt64 (x : Int)
  | appendInt32 (x : Int)
  | prepend (data : List UInt8)
  | retrieve (len : Nat)
  | retrieveUntil (off : Nat)
  | retrieveAll
  | retrieveAsString (len : Nat)
  | retrieveAllAsString
  | ensureWritableBytes (len : UInt64)
  | hasWritten (data : List UInt8)
  | readFd (result : Option (List UInt8))
deriving DecidableEq, Repr

/-- The effect of a call, with the string it returns (empty where the member returns none). -/
def step (b : Buffer) : Op → Option (List UInt8 × Buffer)
  | .append data => (b.append data).map ([], ·)
  | .appendInt64 x => (b.appendInt64 x).map ([], ·)
  | .appendInt32 x => (b.appendInt32 x).map ([], ·)
  | .prepend data => (b.prepend data).map ([], ·)
  | .retrieve len => (b.retrieve len).map ([], ·)
  | .retrieveUntil off => (b.retrieveUntil (b.peek + off)).map ([], ·)
  | .retrieveAll => some ([], b.retrieveAll)
  | .retrieveAsString len => b.retrieveAsString len
  | .retrieveAllAsString => b.retrieveAllAsString
  | .ensureWritableBytes len => (b.ensureWritableBytes64 len).map ([], ·)
  | .hasWritten data => (b.fill data).map fun b' => ([], b'.hasWritten data.length)
  | .readFd result => (b.readFd result).map fun r => ([], r.2)

/-- What the caller owes: the lengths and pointers it passes lie in the part of the buffer the
member works on, `readv` fills at most the two vectors it was given, and a vector can have the room that is asked for. -/
def Op.Legal (b : Buffer) : Op → Prop
  | .prepend data => data.length ≤ b.prependableBytes
  | .retrieve len => len ≤ b.readableBytes
  | .retrieveUntil off => off ≤ b.readableBytes
  | .retrieveAsString len => len ≤ b.readableBytes
  | .ensureWritableBytes len => len.toNat ≤ b.writableBytes ∨ b.writerIndex + len.toNat ≤ kMaxSize
  | .hasWritten data => data.length ≤ b.writableBytes
  | .readFd (some data) => data.length ≤ b.writableBytes + kExtraBuf
  | _ => True

/-! ## The abstract queue -/

/-- The byte queue: appends and reads push at the back, `prepend` at the front, the `retrieve`
family drops from the front. -/
def Op.push : Op → List UInt8 → List UInt8
  | .append data, q => q ++ data
  | .appendInt64 x, q => q ++ NetOrder.netBytes 8 (x % 18446744073709551616).toNat
  | .appendInt32 x, q => q ++ NetOrder.netBytes 4 (x % 4294967296).toNat
  | .prepend data, q => data ++ q
  | .retrieve len, q => q.drop len
  | .retrieveUntil off, q => q.drop off
  | .retrieveAll, _ => []
  | .retrieveAsString len, q => q.drop len
  | .retrieveAllAsString, _ => []
  | .ensureWritableBytes _, q => q
  | .hasWritten data, q => q ++ data
  | .readFd none, q => q
  | .readFd (some data), q => q ++ data

/-- The string a call takes out of the queue. -/
def Op.taken : Op → List UInt8 → List UInt8
  | .retrieveAsString len, q => q.take len
  | .retrieveAllAsString, q => q
  | _, _ => []

/-- The states a client reaches from a fresh buffer by legal calls, each with the state of the queue
after the same calls. -/
inductive Reach : Buffer → List UInt8 → Prop
  | new : Reach new []
  | call {b b' : Buffer} {q out : List UInt8} (op : Op) :
      Reach b q → op.Legal b → b.step op = some (out, b') → Reach b' (op.push q)

end Buffer
end ChatReactor
