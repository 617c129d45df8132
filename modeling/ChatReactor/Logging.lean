import ChatReactor.LogStream
import ChatReactor.TimeZone

/-!
# `Logger` (`Logging.h`, `Logging.cc`)

| here | there |
| --- | --- |
| `SourceFile` | `Logger::SourceFile`: the name behind the last `/` |
| `insertT` | `operator<<` of the helper class `T`, whose constructor asserts the length |
| `LogThread` | the variables of a thread: `t_time`, `t_lastSecond`, `t_tidString`, `t_tidStringLength` |
| `LogEnv` | what a record reads: `g_logTimeZone`, `Timestamp::now()`, `strerror_tl`, and `data_` of its stream, not initialised |
| `dateTime` | the slow path of `formatTime` (`Logging.cc:132-145`) |
| `formatTime` | `Logger::Impl::formatTime` (`Logging.cc:124-160`) |
| `Impl.new`, `finish` | the members of `Logger::Impl` (`Logging.cc:107-122`, `:162-165`) |
| `Logger.new`, `output` | the four constructors, and what `~Logger` passes to `g_output` (`Logging.cc:167-198`) |

`none` is a failed assert, or one of the accesses that `LogStream` and `TimeZone` check. A time is in microseconds since
1970; `/` and `%` truncate.
-/

namespace ChatReactor

open CheckedInt Decimal

inductive LogLevel
  | trace | debug | info | warn | error | fatal
  deriving DecidableEq, Repr

/-- `LogLevelName` -/
def LogLevel.name : LogLevel → List UInt8
  | .trace => bytesOf "TRACE "
  | .debug => bytesOf "DEBUG "
  | .info => bytesOf "INFO  "
  | .warn => bytesOf "WARN  "
  | .error => bytesOf "ERROR "
  | .fatal => bytesOf "FATAL "

structure SourceFile where
  data : List UInt8
  size : Int32

/-- `strrchr(filename, '/')` -/
def SourceFile.new (filename : List UInt8) : SourceFile :=
  let data := ((cString filename).reverse.takeWhile (· ≠ 47)).reverse
  ⟨data, Int32.ofNat data.length⟩

/-- `stream << T(str, len)` -/
def insertT (s : LogStream) (str : List UInt8) (len : Nat) : Option LogStream := do
  check ((cString str).length = len)
  s.append str (Int32.ofNat len)

structure LogThread where
  tTime : List UInt8
  tLastSecond : Int
  tidString : List UInt8
  tidStringLength : Nat
  deriving DecidableEq, Repr

/-- A thread that has not logged yet. -/
def LogThread.start (tidString : List UInt8) (tidStringLength : Nat) : LogThread :=
  ⟨List.replicate 32 0, 0, tidString, tidStringLength⟩

def kMicroSecondsPerSecond : Int := 1000 * 1000

section
variable (utc : Utc)

/-- The text that is cached. -/
def dateTime (zone : TimeZone) (seconds : Int) : Option (List UInt8) := do
  let tm ← (if zone.valid then zone.toLocalTime utc seconds else some (utc.gmtimeR seconds))
  let text := padded 4 (← add tm.tmYear 1900) ++ zeroPadded 2 (← add tm.tmMon 1) ++ zeroPadded 2 tm.tmMday ++ 32 ::
    zeroPadded 2 tm.tmHour ++ 58 :: zeroPadded 2 tm.tmMin ++ 58 :: zeroPadded 2 tm.tmSec
  check (text.length = 17)
  return text

/-- `Fmt us(".%06d ", microseconds)`, or with a `Z` for UTC, and the assertions about its length. -/
def usText (valid : Bool) (microseconds : Int) : Option (List UInt8) := do
  let text := 46 :: zeroPadded 6 microseconds ++ (if valid then [32] else [90, 32])
  check (text.length < 32)
  check (text.length = if valid then 8 else 9)
  return text

def secondsOf (time : Int) : Int := time.tdiv kMicroSecondsPerSecond
def microsecondsOf (time : Int) : Int := toInt (time.tmod kMicroSecondsPerSecond)

/-- `t_time` and `t_lastSecond` after the first `if` of `formatTime`. -/
def cacheTime (zone : TimeZone) (th : LogThread) (seconds : Int) : Option LogThread :=
  if seconds ≠ th.tLastSecond then do
    let text ← dateTime utc zone seconds
    return { th with tLastSecond := seconds, tTime := text ++ 0 :: th.tTime.drop 18 }
  else some th

def formatTime (zone : TimeZone) (th : LogThread) (time : Int) (s : LogStream) : Option (LogThread × LogStream) := do
  let th ← cacheTime utc zone th (secondsOf time)
  let us ← usText zone.valid (microsecondsOf time)
  let s ← insertT s th.tTime 17
  let s ← insertT s us us.length
  return (th, s)

end

structure LogEnv where
  zone : TimeZone
  thread : LogThread
  now : Int
  strerror : Int32 → List UInt8
  data : Fin kSmallBuffer → UInt8

structure Impl where
  stream : LogStream
  level : LogLevel
  line : Int32
  basename : SourceFile

section
variable {F D : Type} (pf : Printf F D) (utc : Utc)

def Impl.new (env : LogEnv) (level : LogLevel) (savedErrno : Int32) (file : SourceFile) (line : Int32) : Option Impl := do
  let (th, s) ← formatTime utc env.zone env.thread env.now (LogStream.new env.data)
  let s ← insertT s th.tidString th.tidStringLength
  let s ← insertT s level.name 6
  let s ← (if savedErrno ≠ 0 then
      s.insertAll pf [.charPtr (some (env.strerror savedErrno)), .charPtr (some (bytesOf " (errno=")), .int savedErrno,
        .charPtr (some (bytesOf ") "))]
    else some s)
  return ⟨s, level, line, file⟩

/-- The arguments behind the file and the line; `errno` is read by the constructor. -/
inductive LoggerArgs
  | plain
  | level (level : LogLevel)
  | func (level : LogLevel) (func : Option (List UInt8))
  | sys (toAbort : Bool) (errno : Int32)

def Logger.new (env : LogEnv) (file : SourceFile) (line : Int32) : LoggerArgs → Option Impl
  | .plain => Impl.new pf utc env .info 0 file line
  | .level level => Impl.new pf utc env level 0 file line
  | .func level func => do
    let impl ← Impl.new pf utc env level 0 file line
    return { impl with stream := ← impl.stream.insertAll pf [.charPtr func, .char 32] }
  | .sys toAbort errno => Impl.new pf utc env (if toAbort then .fatal else .error) errno file line

namespace Impl

/-- `finish`, as far as the name of the file. -/
def named (impl : Impl) (s : LogStream) : Option LogStream := do
  let s ← s.shl pf (.charPtr (some (bytesOf " - ")))
  s.append impl.basename.data impl.basename.size

def finish (impl : Impl) (s : LogStream) : Option LogStream := do
  let s ← impl.named pf s
  s.insertAll pf [.char 58, .int impl.line, .char 10]

/-- The bytes for `g_output`, after some insertions by the program, and whether `~Logger` aborts. -/
def output (impl : Impl) (items : List (Item F D)) : Option (List UInt8 × Bool) := do
  let s ← impl.stream.insertAll pf items
  let s ← impl.finish pf s
  return (s.buffer.toString, impl.level = .fatal)

end Impl

/-- A logger is what one of the constructors has made. -/
structure Logger where
  impl : Impl
  made : ∃ env file line args, Logger.new pf utc env (SourceFile.new file) line args = some impl

end
end ChatReactor
