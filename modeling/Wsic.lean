import Wsic.Lib.CMemory
import Wsic.Lib.Crc
import Wsic.Lib.Descriptors
import Wsic.Lib.Effects
import Wsic.Lib.Greedy
import Wsic.Lib.Interaction
import Wsic.Lib.KeyedList
import Wsic.Lib.LineText
import Wsic.Lib.ProcessTable
import Wsic.Lib.Rewriting
import Wsic.Lib.Traced
import Wsic.Lib.Transition
import Wsic.DataStructures.ListT
import Wsic.DataStructures.Ring
import Wsic.DataStructures.RingOps
import Wsic.DataStructures.ListRuns
import Wsic.DataStructures.HashTableT
import Wsic.DataStructures.HashTableMap
import Wsic.DataStructures.HashTableRuns
import Wsic.DataStructures.HashTableCounted
import Wsic.DataStructures.HashTableCrc
import Wsic.DataStructures.SetT
import Wsic.DataStructures.QueueT
import Wsic.DataStructures.MessageQueueT
import Wsic.DataStructures.MessageQueueRuns
import Wsic.String.StringT
import Wsic.String.Content
import Wsic.String.Cursor
import Wsic.String.NextLine
import Wsic.String.Decimal
import Wsic.String.Numerals
import Wsic.String.Runs
import Wsic.String.ByteRuns
import Wsic.Http.UrlT
import Wsic.Http.HttpT
import Wsic.Http.Url
import Wsic.Http.RequestLine
import Wsic.Http.RequestGrammar
import Wsic.Http.Query
import Wsic.Http.Headers
import Wsic.Http.Host
import Wsic.Http.Response
import Wsic.Http.HeaderBlock
import Wsic.Www.PageT
import Wsic.Www.Scanner
import Wsic.Www.Expansion
import Wsic.Www.Templates
import Wsic.Www.Recognition
import Wsic.Www.KeyBuffer
import Wsic.Www.NotFound
import Wsic.Www.ErrorPages
import Wsic.Path.Path
import Wsic.Resources.Resources
import Wsic.Resources.FileTypes
import Wsic.Worker.Substrings
import Wsic.Connection.ConnectionT
import Wsic.Connection.Detection
import Wsic.Connection.Lines
import Wsic.Connection.Arrivals
import Wsic.Connection.Segments
import Wsic.Connection.Network
import Wsic.Config.Toml
import Wsic.Config.ConfigT
import Wsic.Config.Servers
import Wsic.Config.Overlooked
import Wsic.Config.Lookup
import Wsic.Config.Ports
import Wsic.Config.Settings
import Wsic.Worker.Resolution
import Wsic.Worker.Location
import Wsic.Worker.WorkerT
import Wsic.Worker.Request
import Wsic.Worker.HeaderLimit
import Wsic.Worker.HeaderBudget
import Wsic.Worker.Answers
import Wsic.Worker.Redirect
import Wsic.Worker.Sending
import Wsic.Worker.HeadRequests
import Wsic.Worker.Scripts
import Wsic.Worker.Transport
import Wsic.Config.Usable
import Wsic.Config.Sites
import Wsic.Worker.Environment
import Wsic.Worker.ScriptAnswer
import Wsic.Worker.ScriptBody
import Wsic.Worker.BodyLimit
import Wsic.Worker.Shutdown
import Wsic.Cgi.CgiT
import Wsic.Cgi.Exchange
import Wsic.Server.Instance
import Wsic.Server.Ownership
import Wsic.Server.OwnershipSteps
import Wsic.Server.InstanceRuns
import Wsic.Server.Processes
import Wsic.Server.Children
import Wsic.Server.Signals
import Wsic.Server.Certificates
import Wsic.Server.Listening
import Wsic.Time.Time
import Wsic.Main.Daemon
import Wsic.Main.Supervisor
