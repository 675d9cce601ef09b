import Pallette.Reasoning.Run
import Pallette.Reasoning.Search
import Pallette.Reasoning.Lines
import Pallette.Reasoning.Consumer
import Pallette.Reasoning.OrdMap
import Pallette.Reasoning.Window
import Pallette.Reasoning.Warranted
import Pallette.Reasoning.CondVar
import Pallette.Reasoning.Bisect
import Pallette.Reasoning.Reader
import Pallette.Reasoning.Digits
import Pallette.Reasoning.Calendar
import Pallette.Reasoning.Words
import Pallette.Reasoning.Wrapping
import Pallette.Basic
import Pallette.Numerals
import Pallette.Strings
import Pallette.Buffer
import Pallette.Buffer.Growth
import Pallette.Buffer.Fifo
import Pallette.Buffer.Integers
import Pallette.Http.HttpRequest
import Pallette.Http.HttpContext
import Pallette.Http.HttpResponse
import Pallette.Http.HttpServer
import Pallette.Http.Parsing
import Pallette.Http.Resumption
import Pallette.Http.RequestLine
import Pallette.Http.Message
import Pallette.Http.Framing
import Pallette.Http.ContentLength
import Pallette.Http.Pipelining
import Pallette.Http.Refusal
import Pallette.Http.AfterClose
import Pallette.Http.RoundTrip
import Pallette.Http.FieldCase
import Pallette.Http.ResponseStream
import Pallette.Http.ResponseHead
import Pallette.Http.Termination
import Pallette.Net.Channel
import Pallette.Net.EpollPoller
import Pallette.Net.ActiveChannels
import Pallette.Net.Disabling
import Pallette.Net.TcpConnection
import Pallette.Net.Closing
import Pallette.Net.Sending
import Pallette.Net.Effects
import Pallette.Net.Offers
import Pallette.Net.InOrder
import Pallette.Net.Writes
import Pallette.Net.Counters
import Pallette.Net.BackPressure
import Pallette.Net.Lifecycle
import Pallette.Net.Shutdown
import Pallette.Net.Disconnected
import Pallette.Net.Unregistered
import Pallette.Net.Teardown
import Pallette.Net.TcpServer
import Pallette.Net.Accepting
import Pallette.Net.Connector
import Pallette.Net.TcpClient
import Pallette.Net.Attempts
import Pallette.Net.Descriptors
import Pallette.Net.Settled
import Pallette.Net.Reconnecting
import Pallette.Net.Stopping
import Pallette.Timer.TimerQueue
import Pallette.Timer.Steps
import Pallette.Timer.Places
import Pallette.Timer.Cancel
import Pallette.Timer.Containers
import Pallette.Timer.Destructor
import Pallette.Timer.Arming
import Pallette.Timer.Expiry
import Pallette.Timer.Addresses
import Pallette.Loop.EventLoop
import Pallette.Loop.Functors
import Pallette.Loop.Wakeup
import Pallette.Loop.EventLoopThread
import Pallette.Log.LogStream
import Pallette.Log.Integers
import Pallette.Log.Insertions
import Pallette.Log.AsyncLogging
import Pallette.Log.Rotation
import Pallette.Log.Drain
import Pallette.Threads.ThreadPool
import Pallette.Threads.Queueing
import Pallette.Threads.Stranded
import Pallette.Signal.SignalSlot
import Pallette.Signal.Snapshot
import Pallette.Time.Date
import Pallette.Time.TimeZone
import Pallette.Time.UtcTime
import Pallette.Time.TimestampText
import Pallette.Time.Periods
import Pallette.Time.LocalTime
import Pallette.Time.ZoneFile
import Pallette.Inspect.ProcessInfo
import Pallette.Inspect.ProcessInspector
import Pallette.Inspect.Inspector
import Pallette.Log.LogTime
import Pallette.Log.Logger
import Pallette.Log.AppendFile
import Pallette.Log.FileName
import Pallette.Log.LogFile
import Pallette.Log.FileSize
import Pallette.ObjectPool
import Pallette.Base64
import Pallette.Base64.RoundTrip
import Pallette.Base64.Linebreaks
import Pallette.Chat.ChatCodec
import Pallette.Chat.Messages
import Pallette.Chat.ChatServer
import Pallette.CircularBuffer
import Pallette.IdleConnection.EchoServer
import Pallette.IdleConnection.Wheel
import Pallette.Net.Handing
import Pallette.Net.LoopPool
import Pallette.Net.ServerGone
import Pallette.Log.Pipeline
import Pallette.Any.Ownership
import Pallette.Http.Conversation
import Pallette.Net.Acceptor
import Pallette.Threads.Thread
import Pallette.Net.Backoff
