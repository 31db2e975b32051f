import DecodingDesk.Text.Blank
import DecodingDesk.Text.Bytes
import DecodingDesk.Decimal.Binary
import DecodingDesk.Decimal.Shortest
import DecodingDesk.Json.Value
import DecodingDesk.Json.Quoted
import DecodingDesk.Json.Printer
import DecodingDesk.Json.Reader
import DecodingDesk.Json.Scalar
import DecodingDesk.Json.Record
import DecodingDesk.Device
import DecodingDesk.Error
import DecodingDesk.Options
import DecodingDesk.Options.Json
import DecodingDesk.Batch
import DecodingDesk.Model.Output
import DecodingDesk.Model
import DecodingDesk.Model.Echo
import DecodingDesk.Result
import DecodingDesk.Result.Json
import DecodingDesk.Files
import DecodingDesk.Config.Setting
import DecodingDesk.Config.Environment
import DecodingDesk.Config
import DecodingDesk.Gate
import DecodingDesk.Gate.House
import DecodingDesk.Gate.Session
import DecodingDesk.Pool.Verdict
import DecodingDesk.Pool
import DecodingDesk.Pool.Schedule
import DecodingDesk.Pool.Making
import DecodingDesk.Model.Scripted
import DecodingDesk.Document.Line
import DecodingDesk.Document.Writer
import DecodingDesk.Document.Task
import DecodingDesk.Document.Run
import DecodingDesk.Document.Site
import DecodingDesk.Document.Sequential
import DecodingDesk.Pool.Log
import DecodingDesk.Pool.Session
import DecodingDesk.Model.Loader
import DecodingDesk.Service
import DecodingDesk.Service.Alone
import DecodingDesk.Service.Create
import DecodingDesk.Service.Schedule
import DecodingDesk.Service.Session
import DecodingDesk.CommandLine.Arguments
import DecodingDesk.CommandLine.Help
import DecodingDesk.CommandLine.Output
import DecodingDesk.CommandLine.Run
import DecodingDesk.Main
import DecodingDesk.Proofs.Entries
import DecodingDesk.Proofs.Pool.Step
import DecodingDesk.Proofs.Pool.Accounting
import DecodingDesk.Proofs.Pool.Answers
import DecodingDesk.Proofs.Pool.Wakeup
import DecodingDesk.Proofs.Document.Chunks
import DecodingDesk.Proofs.Document.Output
import DecodingDesk.Proofs.Document.Course
import DecodingDesk.Proofs.Pool.Closing
import DecodingDesk.Proofs.Pool.Delay
import DecodingDesk.Proofs.Pool.Scheduling
import DecodingDesk.Proofs.Gate.Waiting
import DecodingDesk.Proofs.Document.Progress
import DecodingDesk.Proofs.Document.Refinement
import DecodingDesk.Proofs.Document.Step
import DecodingDesk.Proofs.Document.Overflow
import DecodingDesk.Proofs.Document.Window
import DecodingDesk.Proofs.Document.Ending
import DecodingDesk.Proofs.Document.Delivery
import DecodingDesk.Proofs.Document.Capacity
import DecodingDesk.Proofs.Document.ChunkSize
import DecodingDesk.Proofs.Document.Frame
import DecodingDesk.Proofs.Text.Trim
import DecodingDesk.Proofs.Device
import DecodingDesk.Proofs.Pool.Making
import DecodingDesk.Proofs.Service.Create
import DecodingDesk.Proofs.Service.Step
import DecodingDesk.Proofs.Service.Ownership
import DecodingDesk.Proofs.Result
import DecodingDesk.Proofs.Service.Isolation
import DecodingDesk.Proofs.Service.Visits
import DecodingDesk.Proofs.Service.Shutdown
import DecodingDesk.Proofs.Pool.Stranded
import DecodingDesk.Proofs.Service.Drop
import DecodingDesk.Proofs.Pool.Contract
import DecodingDesk.Proofs.Service.Routing
import DecodingDesk.Proofs.Service.Marshalling
import DecodingDesk.Proofs.Service.Attention
import DecodingDesk.Proofs.Service.Assembly
import DecodingDesk.Proofs.Service.Run
import DecodingDesk.Proofs.Service.Document
import DecodingDesk.Proofs.Service.Progress
import DecodingDesk.Proofs.Service.Agreement
import DecodingDesk.Proofs.Service.Errand
import DecodingDesk.Proofs.Service.Rejection
import DecodingDesk.Proofs.Service.Source
import DecodingDesk.Proofs.Gate.Visits
import DecodingDesk.Proofs.Gate.History
import DecodingDesk.Proofs.Decimal.Numeral
import DecodingDesk.Proofs.Gate.Account
import DecodingDesk.Proofs.Json.Quoted
import DecodingDesk.Proofs.Json.Record
import DecodingDesk.Proofs.Json.RoundTrip
import DecodingDesk.Proofs.Result.RoundTrip
import DecodingDesk.Proofs.CommandLine.Arguments
import DecodingDesk.Proofs.CommandLine.Output
import DecodingDesk.Proofs.Json.Lines
import DecodingDesk.Proofs.Model.Echo
import DecodingDesk.Proofs.Model.ItemByItem
import DecodingDesk.Proofs.Model.Alignment
import DecodingDesk.Proofs.Pool.Work
import DecodingDesk.Proofs.Service.Completion
import DecodingDesk.Proofs.Service.Schedule
import DecodingDesk.Proofs.Model.Loader
import DecodingDesk.Proofs.Pool.Shut
import DecodingDesk.Proofs.Service.Admission
import DecodingDesk.Proofs.Service.Together
import DecodingDesk.Proofs.CommandLine.Sentences
import DecodingDesk.Proofs.Config.Layers
import DecodingDesk.Proofs.Options.Fields
import DecodingDesk.Proofs.Text.Words
import DecodingDesk.Proofs.Text.Lines
import DecodingDesk.Proofs.Document.Rendering
import DecodingDesk.Proofs.Document.Echo
