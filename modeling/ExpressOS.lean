import ExpressOS.Binder.Acceptance
import ExpressOS.Binder.Safety
import ExpressOS.Binder.Lossless
import ExpressOS.Venus.Dispatcher
import ExpressOS.Venus.Downcall
import ExpressOS.Venus.Handlers
import ExpressOS.Venus.BinderReply
import ExpressOS.Venus.Confinement
import ExpressOS.Systems.Machine
import ExpressOS.Systems.Mailbox
import ExpressOS.Systems.Monitor
import ExpressOS.Venus.Workers
import ExpressOS.Venus.Delivery
import ExpressOS.Venus.Clients
import ExpressOS.Venus.ExactlyOnce
import ExpressOS.Venus.Failure
import ExpressOS.Systems.Patches
import ExpressOS.Venus.Batches
import ExpressOS.Venus.Relocation
import ExpressOS.Venus.Sizes
import ExpressOS.Binder.Causes
import ExpressOS.Venus.Results
import ExpressOS.Venus.Wire
import ExpressOS.Venus.Glue
import ExpressOS.Venus.Surroundings
import ExpressOS.Presenter.Slides
import ExpressOS.Presenter.Keys
import ExpressOS.Presenter.ActionQueue
import ExpressOS.Presenter.HandOver
import ExpressOS.Presenter.Deadlock
import ExpressOS.Systems.Numerals
import ExpressOS.Systems.Strings
import ExpressOS.BenchSqlite.NumToStr
import ExpressOS.BrowserBench.EvalRecorder
import ExpressOS.BrowserBench.Progress
import ExpressOS.BrowserBench.LoadTimes
import ExpressOS.Binder.Tracer
import ExpressOS.Systems.WideStrings
import ExpressOS.BenchBinder.BinderIo
import ExpressOS.BenchBinder.BinderCall
import ExpressOS.BenchBinder.PingPong
import ExpressOS.Systems.Budget
import ExpressOS.Systems.WordTables
import ExpressOS.BenchBinder.Items
import ExpressOS.BenchBinder.Puts
import ExpressOS.BenchBinder.Gets
import ExpressOS.BenchBinder.Messages
import ExpressOS.BenchBinder.ServiceManager
import ExpressOS.BenchBinder.BinderLoop
import ExpressOS.Systems.Refinement
import ExpressOS.Venus.Allocation
import ExpressOS.Venus.Answers
import ExpressOS.Systems.WordFields
import ExpressOS.Venus.Received
import ExpressOS.Binder.Interceptor
import ExpressOS.Systems.DecimalText
import ExpressOS.BenchSqlite.TestInsert
import ExpressOS.Systems.Assembly
import ExpressOS.Venus.SysFutex
import ExpressOS.BenchVbinder.SysVbinder
import ExpressOS.Systems.Descriptors
import ExpressOS.OwnTty.Terminal
import ExpressOS.Systems.Scanner
import ExpressOS.Presenter.Description
import ExpressOS.BenchBinder.Bctest
import ExpressOS.BenchBinder.CallLedger
