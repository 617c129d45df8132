import ChatReactor.Buffer
import ChatReactor.Lib.WireFormat

/-!
# The messages of `msg.proto`, as `msg.pb.cc` reads and writes them

| here | there |
| --- | --- |
| `FieldType`, `Field`, `MessageType.fields` | the field declarations of `msg.proto:5-49`; `tag` is what the generated code compares with |
| `GeneratedMessage` | a generated class: a has bit and a member for each field, and `unknown_fields()` |
| `set`, `addUnknown` | `set_uid`, `mutable_name`, `mutable_unknown_fields` and their like |
| `Runtime` | libprotobuf, not part of the repository: what the generated code calls is a parameter |
| `mergeLoop` | `MergePartialFromCodedStream` (`msg.pb.cc:415-478` for `SignUp`), with its `goto`s |
| `serialize` | `InternalSerializeWithCachedSizesToArray` (`msg.pb.cc:510-541`) |
| `byteSize` | `ByteSize` and `RequiredFieldsByteSizeFallback` (`msg.pb.cc:543-590`) |
| `mergeFrom` | `MergeFrom` (`msg.pb.cc:609-627`) |
| `isInitialized` | `IsInitialized` (`msg.pb.cc:643-647`) |
| `parseFromArray` | `MessageLite::ParseFromArray`: the loop, and what the two that it asks afterwards say |

The ten classes have the same code but for their fields, so there is one definition for all tables of fields. Strings are
bytes: `VerifyUTF8StringNamedField` only logs. What the proofs need of libprotobuf is `Runtime.Lawful`.
-/

namespace ChatReactor

open WireFormat

inductive FieldType
  | int64 | int32 | string
deriving DecidableEq, Repr

/-- The type of the member. -/
abbrev FieldType.Member : FieldType → Type
  | .int64 => Int64
  | .int32 => Int32
  | .string => List UInt8

structure Field where
  number : Nat
  type : FieldType
  required : Bool
deriving DecidableEq, Repr

def FieldType.wireType : FieldType → Nat
  | .int64 => 0
  | .int32 => 0
  | .string => 2

def Field.tag (f : Field) : Nat := f.number * 8 + f.type.wireType

/-! ## A generated class -/

/-- `Unknown` is what an `UnknownFieldSet` keeps of one field. -/
structure GeneratedMessage (Unknown : Type) (fields : List Field) where
  /-- The has bit and the member of a field. -/
  slot : (i : Fin fields.length) → Option (fields.get i).type.Member
  unknownFields : List Unknown

namespace GeneratedMessage

variable {Unknown : Type} {fields : List Field}

/-- The constructor, and `Clear`. -/
def new (fields : List Field) : GeneratedMessage Unknown fields := ⟨fun _ => none, []⟩

def set (m : GeneratedMessage Unknown fields) (i : Fin fields.length) (v : (fields.get i).type.Member) :
    GeneratedMessage Unknown fields :=
  { m with slot := Function.update m.slot i (some v) }

def addUnknown (m : GeneratedMessage Unknown fields) (u : Unknown) : GeneratedMessage Unknown fields :=
  { m with unknownFields := m.unknownFields ++ [u] }

def isInitialized (m : GeneratedMessage Unknown fields) : Bool :=
  (List.finRange fields.length).all fun i => !(fields.get i).required || (m.slot i).isSome

/-- Fields that `from` has replace those of `m`; its unknown fields are appended. -/
def mergeFrom (m source : GeneratedMessage Unknown fields) : GeneratedMessage Unknown fields :=
  { slot := fun i => source.slot i <|> m.slot i
    unknownFields := m.unknownFields ++ source.unknownFields }

end GeneratedMessage

/-! ## libprotobuf -/

/-- What the generated code uses of libprotobuf. An input is what is left of the array. -/
structure Runtime (Unknown : Type) where
  /-- `CodedInputStream::ReadTagWithCutoff`; `none` is the tag 0. -/
  readTag : Reader Nat
  /-- `ExpectTag`: the input behind this tag, if it comes next. -/
  expectTag : Nat → List UInt8 → Option (List UInt8)
  /-- `ExpectAtEnd`, and `ConsumedEntireMessage` where `ReadTagWithCutoff` has found no tag. -/
  atEnd : List UInt8 → Bool
  /-- `WireFormatLite::ReadPrimitive` and `ReadString`. -/
  readValue : (t : FieldType) → Reader t.Member
  /-- `WireFormat::SkipField` behind a tag: the field that it adds to the set. -/
  skipField : Nat → Reader Unknown
  /-- `WireFormatLite::WriteInt64ToArray`, `WriteInt32ToArray` and `WriteStringToArray`, with the number of the field. -/
  writeField : Nat → (t : FieldType) → t.Member → List UInt8
  /-- `WireFormatLite::Int64Size`, `Int32Size` and `StringSize`. -/
  valueSize : (t : FieldType) → t.Member → Nat
  /-- `WireFormat::SerializeUnknownFieldsToArray`, for each field of the set. -/
  serializeUnknown : Unknown → List UInt8
  /-- `WireFormat::ComputeUnknownFieldsSize`, for each field of the set. -/
  unknownSize : Unknown → Nat
  /-- The longest array that a `CodedInputStream` reads to its end. -/
  totalBytesLimit : Nat
  /-- What `ParseFromArray` returns for a longer one, and the object if that is `true`. -/
  parseBeyondLimit : (fields : List Field) → List UInt8 → Option (GeneratedMessage Unknown fields)

namespace GeneratedMessage

variable {Unknown : Type} {fields : List Field}

/-! ### Reading -/

/-- `ReadTagWithCutoff(127)` and the `switch`: the field with this very tag. -/
def fieldOf (fields : List Field) (t : Nat) : Option (Fin fields.length) :=
  if 1 ≤ t ∧ t ≤ 127 then (List.finRange fields.length).find? fun i => (fields.get i).tag = t else none

/-- The loop of `MergePartialFromCodedStream`. With `none` it reads a tag; with a field it is behind the tag of that field,
from the `switch` or by `ExpectTag` from the field in front of it. The result is the object and what
`ConsumedEntireMessage` says afterwards; `none` is `goto failure`, and lack of fuel. -/
def mergeLoop (R : Runtime Unknown) : Nat → Option (Fin fields.length) → GeneratedMessage Unknown fields → List UInt8 →
    Option (GeneratedMessage Unknown fields × Bool)
  | 0, _, _, _ => none
  | fuel + 1, none, m, bs =>
    match R.readTag bs with
    | none => some (m, R.atEnd bs)
    | some (t, rest) =>
      match fieldOf fields t with
      | some i => mergeLoop R fuel (some i) m rest
      | none =>
        -- handle_unusual
        if t % 8 = 4 then some (m, false)
        else (R.skipField t rest).bind fun x => mergeLoop R fuel none (m.addUnknown x.1) x.2
  | fuel + 1, some i, m, bs =>
    (R.readValue (fields.get i).type bs).bind fun x =>
      let m := m.set i x.1
      if h : i + 1 < fields.length then
        -- if (input->ExpectTag(..)) goto ..
        match R.expectTag (fields.get ⟨i + 1, h⟩).tag x.2 with
        | some rest => mergeLoop R fuel (some ⟨i + 1, h⟩) m rest
        | none => mergeLoop R fuel none m x.2
      else
        -- if (input->ExpectAtEnd()) goto success
        if R.atEnd x.2 then some (m, true) else mergeLoop R fuel none m x.2

def mergePartialFromCodedStream (R : Runtime Unknown) (m : GeneratedMessage Unknown fields) (bs : List UInt8) :
    Option (GeneratedMessage Unknown fields × Bool) := mergeLoop R (bs.length + 1) none m bs

/-- What it returns, and the object if that is `true`: the array has to end between fields, and no required field may be
missing. Nobody looks at an object that could not be parsed. -/
def parseFromArray (R : Runtime Unknown) (bs : List UInt8) : Option (GeneratedMessage Unknown fields) :=
  if R.totalBytesLimit < bs.length then R.parseBeyondLimit fields bs
  else match mergePartialFromCodedStream R (new fields) bs with
    | some (m, true) => if m.isInitialized then some m else none
    | _ => none

/-! ### Writing -/

/-- What is written for a field. -/
def fieldBytes (R : Runtime Unknown) (m : GeneratedMessage Unknown fields) (i : Fin fields.length) : List UInt8 :=
  match m.slot i with
  | some v => R.writeField (fields.get i).number _ v
  | none => []

def serialize (R : Runtime Unknown) (m : GeneratedMessage Unknown fields) : List UInt8 :=
  (List.finRange fields.length).flatMap (m.fieldBytes R) ++ m.unknownFields.flatMap R.serializeUnknown

/-- A field that is set, with one byte for its tag. -/
def slotSize (R : Runtime Unknown) {t : FieldType} : Option t.Member → Nat
  | some v => 1 + R.valueSize t v
  | none => 0

def byteSize (R : Runtime Unknown) (m : GeneratedMessage Unknown fields) : Nat :=
  ((List.finRange fields.length).map fun i => slotSize R (m.slot i)).sum + (m.unknownFields.map R.unknownSize).sum

end GeneratedMessage

/-! ## The ten classes -/

inductive MessageType
  | SignUp | Login | CreateGroup | AddGroup | GMessage | PMessage | Success | Quit | Failure | Empty
deriving DecidableEq, Repr

namespace MessageType

def all : List MessageType :=
  [.SignUp, .Login, .CreateGroup, .AddGroup, .GMessage, .PMessage, .Success, .Quit, .Failure, .Empty]

/-- `GetTypeName()`. -/
def fullName : MessageType → List UInt8
  | .SignUp => bytesOf "im.SignUp"
  | .Login => bytesOf "im.Login"
  | .CreateGroup => bytesOf "im.CreateGroup"
  | .AddGroup => bytesOf "im.AddGroup"
  | .GMessage => bytesOf "im.GMessage"
  | .PMessage => bytesOf "im.PMessage"
  | .Success => bytesOf "im.Success"
  | .Quit => bytesOf "im.Quit"
  | .Failure => bytesOf "im.Failure"
  | .Empty => bytesOf "im.Empty"

def fields : MessageType → List Field
  | .SignUp => [⟨1, .string, true⟩, ⟨2, .string, true⟩]
  | .Login => [⟨1, .int64, true⟩, ⟨2, .string, true⟩]
  | .CreateGroup => [⟨1, .int64, true⟩]
  | .AddGroup => [⟨1, .int64, true⟩]
  | .GMessage => [⟨1, .int64, true⟩, ⟨2, .string, true⟩]
  | .PMessage => [⟨1, .int64, true⟩, ⟨2, .int64, true⟩, ⟨3, .string, true⟩]
  | .Success => [⟨1, .int64, true⟩]
  | .Quit => [⟨1, .int64, true⟩]
  | .Failure => [⟨1, .int64, true⟩, ⟨2, .string, true⟩]
  | .Empty => [⟨1, .int32, false⟩]

end MessageType

/-- An object of one of the classes. -/
structure ImMessage (Unknown : Type) where
  type : MessageType
  object : GeneratedMessage Unknown type.fields

/-- `New()` of the prototype. -/
def MessageType.create {Unknown : Type} (t : MessageType) : ImMessage Unknown := ⟨t, .new t.fields⟩

end ChatReactor
