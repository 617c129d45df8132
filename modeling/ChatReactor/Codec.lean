import ChatReactor.Buffer
import ChatReactor.Lib.Framing

/-!
# `ProtobufCodec` (`excercises/chatServer/codec/codec.{h,cc}`)

| here | there |
| --- | --- |
| `Protobuf` | libprotobuf and zlib, not part of the repository: the message operations and `adler32` are parameters |
| `fillEmptyBuffer` | `ProtobufCodec::fillEmptyBuffer` (`codec.cc:20-52`) |
| `bytesAt`, `asInt32` | reads through a `const char*` (`codec.cc:106-111`); a read past the memory given is `none` |
| `parse` | `ProtobufCodec::parse` (`codec.cc:164-213`) |
| `onMessage` | `ProtobufCodec::onMessage` (`codec.cc:113-145`); the result lists the calls of `messageCallback_` and the call of `errorCallback_` |
| `receive` | `TcpConnection::handleRead` over and over: `readFd`, then `onMessage` |

`defaultErrorCallback` and the message callbacks leave the buffer alone. `GOOGLE_DCHECK` is compiled
out of a release build.
-/

namespace ChatReactor

/-- What the codec uses of a message library: `M` is the type of message objects. -/
structure Protobuf (M : Type) where
  getTypeName : M → List UInt8
  byteSize : M → Nat
  serializeWithCachedSizesToArray : M → List UInt8
  /-- `createMessage`: the prototype's `New()`, if the type is in the generated pool. -/
  createMessage : List UInt8 → Option M
  /-- `message->ParseFromArray(data)`: the return value and the object afterwards. -/
  parseFromArray : M → List UInt8 → Bool × M
  /-- `adler32(1, data, len)`. -/
  adler32 : List UInt8 → UInt32

/-- `ProtobufCodec::ErrorCode`. -/
inductive ErrorCode
  | kNoError | kInvalidLength | kCheckSumError | kInvalidNameLen | kUnknownMessageType | kParseError
deriving DecidableEq, Repr

def kHeaderLen : Nat := 4
def kMinMessageLen : Nat := 2 * kHeaderLen + 2
def kMaxMessageLen : Nat := 64 * 1024 * 1024

namespace Protobuf

variable {M : Type} (P : Protobuf M)

/-! ## The encoder -/

/-- The value of `readableBytes()` that the encoder writes into the length field: name length, name
with its NUL, payload, checksum. -/
def encodedLen (m : M) : Nat := kHeaderLen + ((P.getTypeName m).length + 1) + P.byteSize m + kHeaderLen

def fillEmptyBuffer (buf : Buffer) (message : M) : Option Buffer := do
  check (buf.readableBytes = 0)
  let typeName := P.getTypeName message
  let nameLen := NetOrder.int32 (typeName.length + 1)
  let buf ← buf.appendInt32 nameLen
  -- `append(typeName.c_str(), nameLen)`: a negative length has no such range
  check (0 ≤ nameLen)
  let buf ← buf.append ((typeName ++ [0]).take nameLen.toNat)
  let byteSize := P.byteSize message
  let buf ← buf.ensureWritableBytes byteSize
  let bytes := P.serializeWithCachedSizesToArray message
  let buf ← buf.fill bytes
  -- `ByteSizeConsistencyError` is fatal
  check (bytes.length = byteSize)
  let buf := buf.hasWritten byteSize
  let checkSum := NetOrder.int32 (P.adler32 buf.content).toNat
  let buf ← buf.appendInt32 checkSum
  check ((buf.readableBytes : Int) = kHeaderLen + nameLen + byteSize + kHeaderLen)
  let len := NetOrder.int32 buf.readableBytes
  buf.prepend (NetOrder.netBytes 4 (len % 4294967296).toNat)

/-! ## The decoder -/

/-- The `n` bytes at offset `off` of the memory behind a pointer. -/
def bytesAt (buf : List UInt8) (off n : Nat) : Option (List UInt8) :=
  if off + n ≤ buf.length then some ((buf.drop off).take n) else none

/-- `asInt32(buf + off)`. -/
def asInt32 (buf : List UInt8) (off : Nat) : Option Int :=
  (bytesAt buf off 4).map fun bs => NetOrder.int32 (NetOrder.netValue bs)

/-- The message pointer returned (null is `none`) and the value left in `*error`. -/
def parse (buf : List UInt8) (len : Nat) : Option (Option M × ErrorCode) := do
  let expectedCheckSum ← asInt32 buf (len - kHeaderLen)
  let checked ← bytesAt buf 0 (len - kHeaderLen)
  let checkSum := NetOrder.int32 (P.adler32 checked).toNat
  if checkSum = expectedCheckSum then
    let nameLen ← asInt32 buf 0
    if 2 ≤ nameLen ∧ nameLen ≤ (len : Int) - 2 * kHeaderLen then
      let typeName ← bytesAt buf kHeaderLen (nameLen - 1).toNat
      match P.createMessage typeName with
      | some message =>
        let dataLen := (len : Int) - nameLen - 2 * kHeaderLen
        let data ← bytesAt buf (kHeaderLen + nameLen.toNat) dataLen.toNat
        match P.parseFromArray message data with
        | (true, message) => return (some message, .kNoError)
        | (false, message) => return (some message, .kParseError)
      | none => return (none, .kUnknownMessageType)
    else return (none, .kInvalidNameLen)
  else return (none, .kCheckSumError)

/-- The result of one `onMessage`: the buffer, the messages handed to `messageCallback_` in order,
and the code handed to `errorCallback_` if it was called. -/
structure Received (M : Type) where
  buf : Buffer
  messages : List M
  error : Option ErrorCode

/-- The `while` loop. Every round that goes on retrieves a whole frame, so `readableBytes()` rounds
are enough; running out of fuel is `none`. -/
def onMessageLoop : Nat → Buffer → Option (Received M)
  | 0, _ => none
  | fuel + 1, buf =>
    if kMinMessageLen + kHeaderLen ≤ buf.readableBytes then do
      let len ← buf.peekInt32
      if len > kMaxMessageLen ∨ len < kMinMessageLen then
        return ⟨buf, [], some .kInvalidLength⟩
      else if (len + kHeaderLen).toNat ≤ buf.readableBytes then
        match ← P.parse (buf.buffer.drop (buf.peek + kHeaderLen)) len.toNat with
        | (some message, .kNoError) => do
          let buf ← buf.retrieve (kHeaderLen + len.toNat)
          let r ← onMessageLoop fuel buf
          return { r with messages := message :: r.messages }
        | (_, errorCode) => return ⟨buf, [], some errorCode⟩
      else
        return ⟨buf, [], none⟩
    else
      return ⟨buf, [], none⟩

def onMessage (buf : Buffer) : Option (Received M) := P.onMessageLoop (buf.readableBytes + 1) buf

/-- `onMessage` after each read of `chunks`, with all messages delivered and all error codes. -/
def receive : Buffer → List (List UInt8) → Option (Buffer × List M × List ErrorCode)
  | buf, [] => some (buf, [], [])
  | buf, chunk :: chunks => do
    let (_, buf) ← buf.readFd (some chunk)
    let r ← P.onMessage buf
    let (buf, messages, errors) ← receive r.buf chunks
    return (buf, r.messages ++ messages, r.error.toList ++ errors)

end Protobuf
end ChatReactor
