import ChatReactor.TcpConnection

/-!
# The file servers (`excercises/filetransfer/download.cc`, `download2.cc`, `download3.cc`)

| here | there |
| --- | --- |
| `File` | the `FILE` that `::fopen(g_file, "rb")` gives, with a record of the calls made on it |
| `Context` | `TcpConnection::context_`: empty, or a `FILE*` (`download2.cc`) or a `FilePtr` to it (`download3.cc`) |
| `readFile` | `readFile` (`download.cc:9-29`) |
| `Download`, `Download2`, `Download3` | the callbacks of `download.cc:36-52`, `download2.cc:15-72` and `download3.cc:18-61` |
| `Session` | a connection of such a server, its context, and its file |
| `connect` | `TcpServer::newConnection` up to the return of `onConnection` |
| `step` | an event of the loop; the functors of `connectDestroyed` and of `writeCompleteCallback_` call the program |

The servers have no thread pool and no thread of their own: the connection lives in the server's loop,
and only its callbacks use it. `g_file` is what the file holds, `none` if it cannot be opened. A second poll before the
swap of the pending functors is allowed here, although `EventLoop::loop` always comes to the swap first.

What a call on a closed `FILE` does is undefined in C. Here it is recorded, and otherwise does what it does on an
open one; nothing is claimed about a session after such a call. The `FilePtr` of `download3.cc` closes its file when
the connection object is destroyed, which is after its last callback.
-/

namespace ChatReactor
namespace FileServer

/-- `kBufSize` of `download2.cc` and `download3.cc`. -/
def kBufSize : Nat := 64 * 1024

inductive FileCall
  | fread | fclose
deriving DecidableEq, Repr

structure File where
  /-- What has not been read yet. -/
  rest : List UInt8
  /-- The calls so far. -/
  calls : List FileCall
deriving DecidableEq, Repr

def fopen (g_file : Option (List UInt8)) : Option File := g_file.map fun content => ⟨content, []⟩

namespace File

/-- `::fread(buf, 1, size, fp)`. -/
def fread (f : File) (size : Nat) : List UInt8 × File :=
  (f.rest.take size, { rest := f.rest.drop size, calls := f.calls ++ [.fread] })

def fclose (f : File) : File := { f with calls := f.calls ++ [.fclose] }

end File

/-- The `while` loop of `readFile`. Every round that goes on reads a byte or more; running out of fuel is `none`. -/
def readLoop (size : Nat) : Nat → File → Option (List UInt8)
  | 0, _ => none
  | fuel + 1, fp =>
    let (buf, fp) := fp.fread size
    if 0 < buf.length then do
      let content ← readLoop size fuel fp
      return buf ++ content
    else some []

def readFile (g_file : Option (List UInt8)) : Option (List UInt8) :=
  match fopen g_file with
  | some fp => readLoop (1024 * 1024) (fp.rest.length + 1) fp
  | none => some []

inductive Context
  | empty | null | file
deriving DecidableEq, Repr

structure Session where
  world : World
  context : Context
  /-- The file of the context. -/
  file : File

namespace Session

abbrev conn (s : Session) : TcpConnection := s.world.conn

def send (s : Session) (buf : List UInt8) (r : WriteResult) : Option Session :=
  (s.world.send s.world.threadId buf r).map fun w => { s with world := w }

def shutdown (s : Session) : Session := { s with world := s.world.shutdown s.world.threadId }

def setHighWaterMarkCallback (s : Session) (mark : Nat) : Session :=
  { s with world := { s.world with conn := { s.world.conn with hasHighWaterMarkCallback := true, highWaterMark := mark } } }

/-- What the next `fread` of a chunk returns. -/
def chunk (s : Session) : List UInt8 := (s.file.fread kBufSize).1

/-- What it leaves behind. -/
def readChunk (s : Session) : Session := { s with file := (s.file.fread kBufSize).2 }

end Session

/-! ## The programs -/

/-- The branch of `onConnection` for a new connection in `download2.cc` and `download3.cc`; they differ only in the
type of the pointer. -/
def sendFirst (g_file : Option (List UInt8)) (s : Session) (r : WriteResult) : Option Session :=
  let s := s.setHighWaterMarkCallback (kBufSize + 1)
  match fopen g_file with
  | some fp =>
    let s := { s with context := .file, file := fp }
    s.readChunk.send s.chunk r
  | none => some s.shutdown

/-- `onWriteComplete` of `download2.cc` and `download3.cc`, up to what is done at the end of the file. There `any_cast`
throws on an empty context, and a null pointer cannot be read from. -/
def sendNext (atEnd : Session → Session) (s : Session) (r : WriteResult) : Option Session :=
  match s.context with
  | .file => if 0 < s.chunk.length then s.readChunk.send s.chunk r else some (atEnd s.readChunk)
  | .null => none
  | .empty => none

namespace Download

def onConnection (g_file : Option (List UInt8)) (s : Session) (r : WriteResult) : Option Session :=
  if s.conn.state = .kConnected then do
    let s := s.setHighWaterMarkCallback (64 * 1024)
    let fileContent ← readFile g_file
    let s ← s.send fileContent r
    return s.shutdown
  else some s

end Download

namespace Download2

def onConnection (g_file : Option (List UInt8)) (s : Session) (r : WriteResult) : Option Session :=
  if s.conn.state = .kConnected then sendFirst g_file s r
  else match s.context with
    | .file => some { s with file := s.file.fclose }
    | .null => some s
    | .empty => some s

def onWriteComplete (s : Session) (r : WriteResult) : Option Session :=
  sendNext (fun s => ({ s with file := s.file.fclose, context := .null } : Session).shutdown) s r

end Download2

namespace Download3

def onConnection (g_file : Option (List UInt8)) (s : Session) (r : WriteResult) : Option Session :=
  if s.conn.state = .kConnected then sendFirst g_file s r else some s

def onWriteComplete (s : Session) (r : WriteResult) : Option Session := sendNext Session.shutdown s r

end Download3

inductive Program
  | download | download2 | download3
deriving DecidableEq, Repr

namespace Program

/-- `main` calls `setWriteCompleteCallback`. -/
def writeComplete : Program → Bool
  | .download => false
  | .download2 | .download3 => true

def onConnection : Program → Option (List UInt8) → Session → WriteResult → Option Session
  | .download => Download.onConnection
  | .download2 => Download2.onConnection
  | .download3 => Download3.onConnection

def onWriteComplete : Program → Session → WriteResult → Option Session
  | .download => fun s _ => some s
  | .download2 => Download2.onWriteComplete
  | .download3 => Download3.onWriteComplete

/-- The callback that a functor of the loop makes, after the connection's own part of it. `::write` returns `r` in it. -/
def called (p : Program) (g_file : Option (List UInt8)) (r : WriteResult) : LoopFunctor → Session → Option Session
  | .connectEstablished, s => p.onConnection g_file s r
  | .connectDestroyed, s => p.onConnection g_file s r
  | .writeCompleteCallback, s => p.onWriteComplete s r
  | _, s => some s

end Program

/-! ## A connection in the loop -/

inductive Event
  | poll (revents : BitVec 32)
  | callback (n : Int) (r : WriteResult)
  | swap
  | functor (r : WriteResult)
deriving DecidableEq, Repr

/-- What it is for the connection. -/
def Event.inWorld : Event → World.Event
  | .poll revents => .poll revents
  | .callback n r => .callback n r
  | .swap => .swap
  | .functor r => .functor r

namespace Session

/-- The program part of an event that the connection has dealt with. -/
def calledBack (p : Program) (g_file : Option (List UInt8)) (batch : List LoopFunctor) (s : Session) : Event → Option Session
  | .functor r => match batch with
    | f :: _ => p.called g_file r f s
    | [] => some s
  | _ => some s

def step (p : Program) (g_file : Option (List UInt8)) (s : Session) (e : Event) : Option Session := do
  let w ← s.world.step e.inWorld
  calledBack p g_file s.world.queue.batch { s with world := w } e

/-- What a functor hands to `::write`. -/
def message (s : Session) : LoopFunctor → List UInt8
  | .writeCompleteCallback => s.chunk
  | f => f.message

end Session

/-- What can happen. -/
def Event.Legal (s : Session) : Event → Prop
  | .functor r => s.world.todo = [] ∧ s.world.queue.batch ≠ [] ∧
    ∀ f ∈ s.world.queue.batch.head?, r.Legal (s.message f).length
  | e => e.inWorld.Legal s.world

instance (s : Session) : ∀ e : Event, Decidable (e.Legal s)
  | .poll revents => inferInstanceAs (Decidable ((World.Event.poll revents).Legal s.world))
  | .callback n r => inferInstanceAs (Decidable ((World.Event.callback n r).Legal s.world))
  | .swap => inferInstanceAs (Decidable (World.Event.swap.Legal s.world))
  | .functor r => inferInstanceAs (Decidable (_ ∧ _ ∧ ∀ f ∈ s.world.queue.batch.head?, r.Legal (s.message f).length))

/-- `newConnection`, with the mark of the constructor (`TcpConnection.cc:46`), and `onConnection`. -/
def connect (p : Program) (g_file : Option (List UInt8)) (threadId : Nat) (r : WriteResult) : Option Session := do
  let w ← World.newConnection true threadId p.writeComplete false (64 * 1024 * 1024)
  p.onConnection g_file ⟨w, .empty, ⟨[], []⟩⟩ r

end FileServer
end ChatReactor
