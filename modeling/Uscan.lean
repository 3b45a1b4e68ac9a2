import Uscan.Lib.Res
import Uscan.Lib.Bytes
import Uscan.Lib.Utf8
import Uscan.Lib.Regex
import Uscan.Lib.Scan
import Uscan.Lib.Str
import Uscan.Lib.Capture
import Uscan.Lib.Runs
import Uscan.Lib.Attempts
import Uscan.Lib.Reader
import Uscan.Lib.Csv
import Uscan.Lib.Split
import Uscan.Lib.Records
import Uscan.Lib.Lines
import Uscan.Lib.LastWins
import Uscan.Lib.Bootstring
import Uscan.Lib.Cursor
import Uscan.Lib.Itemized
import Uscan.Lib.Interleave
import Uscan.Lib.Buffer
import Uscan.Lib.Base64
import Uscan.Lib.Traced
import Uscan.Lib.Group
import Uscan.Lib.Fifo
import Uscan.Lib.Producers
import Uscan.Lib.Supersede
import Uscan.Lib.Replace
import Uscan.Lib.Markup
import Uscan.Errors
import Uscan.Config
import Uscan.Ports
import Uscan.Net.Addr
import Uscan.Net.AddrText
import Uscan.Net.Iface
import Uscan.Net.Sockets
import Uscan.Mdns.Wire
import Uscan.Mdns.Total
import Uscan.Mdns.Encoding
import Uscan.Mdns.Compression
import Uscan.Mdns.Layout
import Uscan.Mdns.RoundTrip
import Uscan.Mdns.Truncation
import Uscan.Mdns.Punycode
import Uscan.Devices
import Uscan.Rows
import Uscan.Pcap
import Uscan.Protocols.Vision360
import Uscan.Protocols.Common
import Uscan.Mdns.Idn
import Uscan.Protocols.Fixed
import Uscan.Protocols.Stream
import Uscan.Protocols.Wsd
import Uscan.Protocols.Dahua
import Uscan.Protocols.DahuaSections
import Uscan.Protocols.JsonMatch
import Uscan.Protocols.DahuaTotal
import Uscan.Protocols.Xml
import Uscan.Protocols.XmlMatch
import Uscan.Protocols.Documents
import Uscan.Protocols.Text
import Uscan.Protocols.SsdpTokens
import Uscan.Protocols.MssqlInstances
import Uscan.Protocols.EatonMatch
import Uscan.Protocols.Registry
import Uscan.Protocols.Probes
import Uscan.Protocols.Requests
import Uscan.Protocols.Ciphers
import Uscan.Protocols.Items
import Uscan.Protocols.Sony
import Uscan.Protocols.Panasonic
import Uscan.Protocols.Structs
import Uscan.Mdns.Report
import Uscan.Mdns.Convert
import Uscan.Cli.Output
import Uscan.Cli.Delimited
import Uscan.Cli.RunLoop
import Uscan.Scanner
import Uscan.Lifecycle
import Uscan.Net.Sending
import Uscan.Mdns.Broker
import Uscan.Capture
import Uscan.Oui.File
import Uscan.Oui.Database
import Uscan.Oui.Download
import Uscan.Ports.Runs
import Uscan.Mdns.Txt
import Uscan.Devices.Mac
import Uscan.Protocols.Namespaces
import Uscan.Scanner.Events
import Uscan.Scanner.FixedPorts
import Uscan.Ports.Proc
import Uscan.Scanner.FreePorts
import Uscan.Cli.Setup
import Uscan.Net.Interfaces
import Uscan.Arp.Frame
import Uscan.Arp.Sweep
import Uscan.Arp.Listen
import Uscan.Protocols.Parse
import Uscan.Pipeline
import Uscan.Sweeps
import Uscan.SelfTest
import Uscan.TvtProvision
import Uscan.TvtProvision.HexDump
import Uscan.TvtProvision.Command
import Uscan.Cli.Commands
