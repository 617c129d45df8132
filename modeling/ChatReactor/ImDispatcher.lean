import ChatReactor.ImCodec

/-!
# The chat messages through the dispatcher

| here | there |
| --- | --- |
| `CallbackT` | `CallbackT<T>` (`dispatcher.h:39-65`); `callback` is the member function that is bound |
| `ProtobufDispatcher` | `callbacks_` and `defaultCallback_` (`dispatcher.h:67-107`) |
| `ChatServer.dispatcher` | the registrations of the server (`server_threaded.cc:53-69`) |
| `ChatClient.dispatcher` | the registrations of the client (`client.cc:59-69`) |
| `ServerCall`, `ClientCall` | the member functions, with the object that each is called with |

A descriptor is the type it describes. The connection and the time are passed through.
-/

namespace ChatReactor

open Protobuf

variable {Unknown : Type}

/-- `CallbackT<T>`: what the function that is bound does with an object of the class `T`. -/
structure CallbackT (Unknown α : Type) where
  T : MessageType
  callback : GeneratedMessage Unknown T.fields → α

/-- `down_pointer_cast`, whose result must not be null. -/
def CallbackT.onMessage {α : Type} (c : CallbackT Unknown α) (message : ImMessage Unknown) : Option α :=
  if h : message.type = c.T then some (c.callback (h ▸ message.object)) else none

/-- `callbacks_` is only written by `registerMessageCallback`, so the callback found under a descriptor is one for its class. -/
structure ProtobufDispatcher (Unknown α : Type) where
  callbacks : MessageType → Option (CallbackT Unknown α)
  defaultCallback : ImMessage Unknown → α
  keyed : ∀ t c, callbacks t = some c → c.T = t

namespace ProtobufDispatcher

variable {α : Type}

def new (defaultCallback : ImMessage Unknown → α) : ProtobufDispatcher Unknown α := ⟨fun _ => none, defaultCallback, nofun⟩

/-- `callbacks_[T::descriptor()] = pd` -/
def registerMessageCallback (d : ProtobufDispatcher Unknown α) (T : MessageType)
    (callback : GeneratedMessage Unknown T.fields → α) : ProtobufDispatcher Unknown α where
  callbacks := Function.update d.callbacks T (some ⟨T, callback⟩)
  defaultCallback := d.defaultCallback
  keyed := by
    intro t c h
    by_cases ht : t = T
    · subst ht
      rw [Function.update_self] at h
      cases h
      rfl
    · rw [Function.update_of_ne ht] at h
      exact d.keyed t c h

def onProtobufMessage (d : ProtobufDispatcher Unknown α) (message : ImMessage Unknown) : Option α :=
  match d.callbacks message.type with
  | some c => c.onMessage message
  | none => some (d.defaultCallback message)

end ProtobufDispatcher

/-! ## The chat server and its client -/

inductive ServerCall (Unknown : Type)
  | onSignUp (message : GeneratedMessage Unknown MessageType.SignUp.fields)
  | onLogin (message : GeneratedMessage Unknown MessageType.Login.fields)
  | onPMessage (message : GeneratedMessage Unknown MessageType.PMessage.fields)
  | onGMessage (message : GeneratedMessage Unknown MessageType.GMessage.fields)
  | onQuit (message : GeneratedMessage Unknown MessageType.Quit.fields)
  | onCreateGroup (message : GeneratedMessage Unknown MessageType.CreateGroup.fields)
  | onAddGroup (message : GeneratedMessage Unknown MessageType.AddGroup.fields)
  | onUnknownMessage (message : ImMessage Unknown)

inductive ClientCall (Unknown : Type)
  | onPrivateChat (message : GeneratedMessage Unknown MessageType.PMessage.fields)
  | onGroupChat (message : GeneratedMessage Unknown MessageType.GMessage.fields)
  | onEmpty (message : GeneratedMessage Unknown MessageType.Empty.fields)
  | onSuccess (message : GeneratedMessage Unknown MessageType.Success.fields)
  | onUnknownMessage (message : ImMessage Unknown)

def ChatServer.dispatcher : ProtobufDispatcher Unknown (ServerCall Unknown) :=
  (((((((ProtobufDispatcher.new .onUnknownMessage
    ).registerMessageCallback .SignUp .onSignUp
    ).registerMessageCallback .Login .onLogin
    ).registerMessageCallback .PMessage .onPMessage
    ).registerMessageCallback .GMessage .onGMessage
    ).registerMessageCallback .Quit .onQuit
    ).registerMessageCallback .CreateGroup .onCreateGroup
    ).registerMessageCallback .AddGroup .onAddGroup

def ChatClient.dispatcher : ProtobufDispatcher Unknown (ClientCall Unknown) :=
  ((((ProtobufDispatcher.new .onUnknownMessage
    ).registerMessageCallback .PMessage .onPrivateChat
    ).registerMessageCallback .GMessage .onGroupChat
    ).registerMessageCallback .Empty .onEmpty
    ).registerMessageCallback .Success .onSuccess

/-- The handler that a message is for: the one with its class, and none for what only a server sends. -/
def ServerCall.of : ImMessage Unknown → ServerCall Unknown
  | ⟨.SignUp, message⟩ => .onSignUp message
  | ⟨.Login, message⟩ => .onLogin message
  | ⟨.PMessage, message⟩ => .onPMessage message
  | ⟨.GMessage, message⟩ => .onGMessage message
  | ⟨.Quit, message⟩ => .onQuit message
  | ⟨.CreateGroup, message⟩ => .onCreateGroup message
  | ⟨.AddGroup, message⟩ => .onAddGroup message
  | message => .onUnknownMessage message

def ClientCall.of : ImMessage Unknown → ClientCall Unknown
  | ⟨.PMessage, message⟩ => .onPrivateChat message
  | ⟨.GMessage, message⟩ => .onGroupChat message
  | ⟨.Empty, message⟩ => .onEmpty message
  | ⟨.Success, message⟩ => .onSuccess message
  | message => .onUnknownMessage message

theorem server_onProtobufMessage (m : ImMessage Unknown) : ChatServer.dispatcher.onProtobufMessage m = some (.of m) := by
  obtain ⟨t, object⟩ := m
  cases t <;> rfl

theorem client_onProtobufMessage (m : ImMessage Unknown) : ChatClient.dispatcher.onProtobufMessage m = some (.of m) := by
  obtain ⟨t, object⟩ := m
  cases t <;> rfl

theorem mapM_dispatch {α : Type} {d : ProtobufDispatcher Unknown α} {f : ImMessage Unknown → α}
    (h : ∀ m, d.onProtobufMessage m = some (f m)) (ms : List (ImMessage Unknown)) : ms.mapM d.onProtobufMessage = some (ms.map f) := by
  induction ms with
  | nil => rfl
  | cons m ms ih => simp [List.mapM_cons, h, ih]

/-- **From one end to the handlers at the other.** Any messages that can be sent: encoding them succeeds, and however the
bytes are cut on the way, codec and dispatcher of the server call the handler of each, with the object that was sent, once
and in order, and those of the client do as well. No cast fails, no error is reported, no byte is left. -/
theorem chat_messages_dispatched (P : Protobuf (ImMessage Unknown)) (ms : List (ImMessage Unknown))
    (h : ∀ m ∈ ms, P.Sendable m) :
    ∃ bufs, ms.mapM (P.fillEmptyBuffer Buffer.new) = some bufs ∧
      ∀ chunks : List (List UInt8), chunks.flatten = (bufs.map Buffer.content).flatten →
        ∃ b received, P.receive Buffer.new chunks = some (b, received, []) ∧ b.readableBytes = 0 ∧
          received.mapM ChatServer.dispatcher.onProtobufMessage = some (ms.map .of) ∧
          received.mapM ChatClient.dispatcher.onProtobufMessage = some (ms.map .of) := by
  obtain ⟨bufs, hbufs, hreceive⟩ := sendable_round_trip ms h
  refine ⟨bufs, hbufs, fun chunks hcut => ?_⟩
  obtain ⟨b, hb, hempty⟩ := hreceive chunks hcut
  exact ⟨b, ms, hb, hempty, mapM_dispatch server_onProtobufMessage ms, mapM_dispatch client_onProtobufMessage ms⟩

theorem greeting_dispatched : ∃ bufs, [greeting].mapM (im.fillEmptyBuffer Buffer.new) = some bufs ∧
    ∀ chunks : List (List UInt8), chunks.flatten = (bufs.map Buffer.content).flatten →
      ∃ b received, im.receive Buffer.new chunks = some (b, received, []) ∧ b.readableBytes = 0 ∧
        received.mapM ChatServer.dispatcher.onProtobufMessage = some ([greeting].map .of) ∧
        received.mapM ChatClient.dispatcher.onProtobufMessage = some ([greeting].map .of) :=
  chat_messages_dispatched im [greeting] (by simp [greeting_sendable])

end ChatReactor
