import ProbeStuffing.Lib.CString
import ProbeStuffing.Lib.Tlv
import ProbeStuffing.Lib.Trace
import ProbeStuffing.Lib.Mailbox
import ProbeStuffing.Lib.Register
import ProbeStuffing.Lib.Shell
import ProbeStuffing.Lib.Strtok
import ProbeStuffing.Lib.Lexer
import ProbeStuffing.Lib.Sql
import ProbeStuffing.Lib.KeyedTable
import ProbeStuffing.Client.Encoder
import ProbeStuffing.Client.GetAck
import ProbeStuffing.Client.AckStores
import ProbeStuffing.Client.SendLoop
import ProbeStuffing.Client.Fragmentation
import ProbeStuffing.Client.OwnRound
import ProbeStuffing.Ap.Elems
import ProbeStuffing.Ap.OrdinaryFields
import ProbeStuffing.Ap.Stuffing
import ProbeStuffing.Ap.ProbeReq
import ProbeStuffing.Ap.AckSlot
import ProbeStuffing.Ap.StuffingBounds
import ProbeStuffing.Ap.AckOwner
import ProbeStuffing.Ap.ShellCommand
import ProbeStuffing.RoundTrip
import ProbeStuffing.AckNumeral
import ProbeStuffing.Controller.Command
import ProbeStuffing.Controller.Stream
import ProbeStuffing.Controller.Record
import ProbeStuffing.Controller.SqlStatement
import ProbeStuffing.Controller.Storage
import ProbeStuffing.System.Network
import ProbeStuffing.System.Acknowledged
import ProbeStuffing.System.Forwarded
import ProbeStuffing.System.Stored
import ProbeStuffing.Controller.Columns
import ProbeStuffing.Controller.Limits
import ProbeStuffing.Controller.Decoder
import ProbeStuffing.Controller.Connections
import ProbeStuffing.Client.Retries
import ProbeStuffing.Client.Budget
import ProbeStuffing.Client.TriggerScan
import ProbeStuffing.Client.Input
import ProbeStuffing.Client.WalkBounds
import ProbeStuffing.Client.Arithmetic
import ProbeStuffing.Controller.Copies
import ProbeStuffing.DataGen.CommandLine
import ProbeStuffing.Client.Terminal
import ProbeStuffing.Controller.Server
import ProbeStuffing.Controller.TcpClient
import ProbeStuffing.System.Collected
import ProbeStuffing.System.Typed
import ProbeStuffing.Ap.StaTrack
import ProbeStuffing.Client.Log
import ProbeStuffing.Lib.Reassembly
import ProbeStuffing.System.Reassembled
import ProbeStuffing.System.OpenNetwork
import ProbeStuffing.Controller.Rounds
import ProbeStuffing.Controller.Malformed
import ProbeStuffing.Controller.Start
import ProbeStuffing.System.Completed
import ProbeStuffing.System.Setup
import ProbeStuffing.System.Deliverable
import ProbeStuffing.Ap.Interfaces
import ProbeStuffing.Ap.SeenOn
import ProbeStuffing.DataGen.Generated
