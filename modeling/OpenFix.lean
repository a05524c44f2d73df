import OpenFix.FixParse.WireFormat
import OpenFix.FixParse.RoundTrip
import OpenFix.FixParse.Confine
import OpenFix.FixParse.Language
import OpenFix.FixClient.Entries
import OpenFix.FixClient.Tail
import OpenFix.FixClient.Progress
import OpenFix.LmaxRoom
import OpenFix.Client.Conservation
import OpenFix.Client.Turns
import OpenFix.Client.Sequence
import OpenFix.Client.Deadlock
import OpenFix.Client.Connect
import OpenFix.Client.Consume
import OpenFix.Client.Program
import OpenFix.Client.InBuffers
import OpenFix.Client.Progress
import OpenFix.Server.Isolation
import OpenFix.Server.Bind
import OpenFix.Server.Relay
import OpenFix.Server.Progress
import OpenFix.Server.Broadcast
import OpenFix.Server.IpcHandler
import OpenFix.Order
import OpenFix.Itoa
import OpenFix.Config
import OpenFix.SpecParse
import OpenFix.Tscns
