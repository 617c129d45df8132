import ChatReactor.BufferShrink
import ChatReactor.CodecStream
import ChatReactor.CodecFrame
import ChatReactor.LengthCodec
import ChatReactor.Hub
import ChatReactor.HubThreaded
import ChatReactor.PollerProofs
import ChatReactor.EventLoopProofs
import ChatReactor.EventLoopThread
import ChatReactor.TimerCancel
import ChatReactor.TimerArmed
import ChatReactor.LoopTimers
import ChatReactor.ConnectorRuns
import ChatReactor.TcpClientProofs
import ChatReactor.TcpShutdown
import ChatReactor.TcpClose
import ChatReactor.FileHandle
import ChatReactor.FileStream
import ChatReactor.ChatReplay
import ChatReactor.ChatLogin
import ChatReactor.ChatGroup
import ChatReactor.ChatReachable
import ChatReactor.ChatLoginFailure
import ChatReactor.ChatSignUp
import ChatReactor.ChatBounds
import ChatReactor.ChatDelivery
import ChatReactor.ChatBroadcast
import ChatReactor.ChatLocal
import ChatReactor.SudokuProofs
import ChatReactor.SudokuWindow
import ChatReactor.SudokuThreadPool
import ChatReactor.SudokuRest
import ChatReactor.SudokuClients
import ChatReactor.TimeZoneProofs
import ChatReactor.ZoneFile
import ChatReactor.SqlText
import ChatReactor.DancingUndo
import ChatReactor.SudokuMatrix
import ChatReactor.LogConvert
import ChatReactor.LogTime
import ChatReactor.FileUtil
import ChatReactor.PercentileSave
import ChatReactor.Permutation
import ChatReactor.ChatClientProofs
import ChatReactor.ImMessage
import ChatReactor.ImRuntime
import ChatReactor.ImMessageProofs
import ChatReactor.ImCodec
import ChatReactor.ImDispatcher
import ChatReactor.CodecChecksum
import ChatReactor.HubBroker
