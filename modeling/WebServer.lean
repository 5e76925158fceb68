import WebServer.Core.Buf
import WebServer.Core.CString
import WebServer.Core.Loop
import WebServer.Core.Monitor
import WebServer.Core.Path
import WebServer.Core.Run
import WebServer.Core.RwLock
import WebServer.HttpConn.Layout
import WebServer.HttpConn.ReadSide
import WebServer.HttpConn.Lines
import WebServer.HttpConn.Stream
import WebServer.HttpConn.Refine
import WebServer.HttpConn.RequestLine
import WebServer.HttpConn.Rounds
import WebServer.HttpConn.Reading
import WebServer.HttpConn.Spins
import WebServer.HttpConn.HeadEnd
import WebServer.HttpConn.Session
import WebServer.HttpConn.Cuts
import WebServer.HttpConn.Conn
import WebServer.HttpConn.Response
import WebServer.HttpConn.Chunks
import WebServer.HttpConn.Send
import WebServer.HttpConn.WriteReturns
import WebServer.HttpConn.Complete
import WebServer.HttpConn.Sound
import WebServer.HttpConn.Body
import WebServer.HttpConn.Waiting
import WebServer.HttpConn.DocRoot
import WebServer.HttpConn.Effects
import WebServer.HttpConn.ResponseText
import WebServer.HttpConn.FileSize
import WebServer.HttpConn.Isolation
import WebServer.HttpConn.KeepAlive
import WebServer.ThreadPool
import WebServer.Server.Model
import WebServer.Server.Slots
import WebServer.Server.Refine
import WebServer.Server.Owner
import WebServer.Server.Phase
import WebServer.Server.Mappings
import WebServer.Server.Requests
import WebServer.Server.Alone
import WebServer.Server.Answer
import WebServer.Server.Conversation
import WebServer.Server.Progress
import WebServer.Server.Replies
import WebServer.Server.Descriptors
import WebServer.Lesson38.BlockQueue
import WebServer.Lesson30.Nodes
import WebServer.Lesson30.Semaphore
import WebServer.Lesson30.Cond
import WebServer.Lesson30.Produst
import WebServer.Lesson30.Tickets
import WebServer.Lesson30.Rwlock
import WebServer.Lesson30.Deadlock
import WebServer.Lesson35.Dispatch
import WebServer.Lesson35.Select
import WebServer.Lesson35.Poll
import WebServer.ThreadPool2
import WebServer.Core.Exchange
import WebServer.Core.PriorityQueue
import WebServer.HttpConn.WriteBuffer
import WebServer.HttpConn.Indices
import WebServer.Lesson08.Sort
import WebServer.Lesson38.MiddleNumber
import WebServer.Lesson33.Echo
import WebServer.Lesson33.Server
import WebServer.Core.Scan
import WebServer.Webbench.Request
import WebServer.Webbench.Served
import WebServer.Webbench.Child
import WebServer.Webbench.Bench
import WebServer.Core.Epoll
import WebServer.Lesson36.EchoServer
import WebServer.Lesson36.Programs
import WebServer.Lesson33.ForkServer
import WebServer.Lesson24.Chat
import WebServer.Lesson24.Duplex
import WebServer.Lesson15.FileNum
import WebServer.Lesson25.Copy
import WebServer.Lesson38.Cancel
