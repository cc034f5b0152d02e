import TamagoUefi.Lib.Ask
import TamagoUefi.Lib.Buffer
import TamagoUefi.Lib.FlatJson
import TamagoUefi.Lib.Loop
import TamagoUefi.Lib.Locks
import TamagoUefi.Lib.Memory
import TamagoUefi.Lib.Metered
import TamagoUefi.Lib.Objects
import TamagoUefi.Lib.OnesComplement
import TamagoUefi.Lib.PrefixCode
import TamagoUefi.Lib.Reader
import TamagoUefi.Lib.RequestHead
import TamagoUefi.Lib.Retry
import TamagoUefi.Lib.Ring
import TamagoUefi.Lib.Run
import TamagoUefi.Lib.Serial
import TamagoUefi.Lib.Slots
import TamagoUefi.Lib.TwoRuns
import TamagoUefi.Lib.Urlencoded
import TamagoUefi.Lib.Within
import TamagoUefi.Lib.Xorshift
import TamagoUefi.Go.Strings
import TamagoUefi.Go.Utf8
import TamagoUefi.Net.BufferedReader
import TamagoUefi.Net.CallSteps
import TamagoUefi.Net.ChunkedAccept
import TamagoUefi.Net.ChunkedCode
import TamagoUefi.Net.Corruption
import TamagoUefi.Net.Dhcp4
import TamagoUefi.Net.Dhcp4Exchange
import TamagoUefi.Net.DialRetry
import TamagoUefi.Net.FailedReads
import TamagoUefi.Net.Dns
import TamagoUefi.Net.DnsAnswers
import TamagoUefi.Net.DnsBounds
import TamagoUefi.Net.DnsNames
import TamagoUefi.Net.Foreign
import TamagoUefi.Net.Fragments
import TamagoUefi.Net.HeaderLines
import TamagoUefi.Net.Http
import TamagoUefi.Net.HttpAgree
import TamagoUefi.Net.HttpResponse
import TamagoUefi.Net.HttpUrl
import TamagoUefi.Net.Ipv4
import TamagoUefi.Net.Ipv4Grammar
import TamagoUefi.Net.LineReader
import TamagoUefi.Net.Mutexes
import TamagoUefi.Net.MutexOrder
import TamagoUefi.Net.OwnAddress
import TamagoUefi.Net.Padding
import TamagoUefi.Net.Pumps
import TamagoUefi.Net.Receipts
import TamagoUefi.Net.Sources
import TamagoUefi.Net.Stack
import TamagoUefi.Net.StreamBodies
import TamagoUefi.Net.Tcp4
import TamagoUefi.Net.Tcp4Demux
import TamagoUefi.Net.Tcp4Dial
import TamagoUefi.Net.Tcp4Eof
import TamagoUefi.Net.Tcp4Handshake
import TamagoUefi.Net.DialPorts
import TamagoUefi.Net.Tcp4Recv
import TamagoUefi.Net.Tcp4Reassembly
import TamagoUefi.Net.Tcp4Send
import TamagoUefi.Net.Tcp4Stream
import TamagoUefi.Net.Tcp4Threads
import TamagoUefi.Net.Tcp4Windows
import TamagoUefi.Net.UdpClose
import TamagoUefi.Net.Wire
import TamagoUefi.Oci.Base
import TamagoUefi.Oci.Registry
import TamagoUefi.Oci.Blob
import TamagoUefi.Oci.Fetch
import TamagoUefi.Oci.Calls
import TamagoUefi.Oci.Confine
import TamagoUefi.Oci.ContentType
import TamagoUefi.Oci.Cosign
import TamagoUefi.Oci.Encodings
import TamagoUefi.Oci.Fetchers
import TamagoUefi.Oci.Inject
import TamagoUefi.Oci.Origin
import TamagoUefi.Oci.RefText
import TamagoUefi.Oci.SigLayers
import TamagoUefi.Oci.TokenBody
import TamagoUefi.Oci.TokenRequest
import TamagoUefi.Orasoci.Framing
import TamagoUefi.Orasoci.HeaderValues
import TamagoUefi.Boot.DiskFetch
import TamagoUefi.Boot.Handoff
import TamagoUefi.Boot.Menu
import TamagoUefi.Board.Blkprintk
import TamagoUefi.Board.BlockIo
import TamagoUefi.Board.DevicePath
import TamagoUefi.Board.EventLog
import TamagoUefi.Board.FilePath
import TamagoUefi.Board.Rng
import TamagoUefi.Cmd.ArMember
import TamagoUefi.Cmd.PackStub
import TamagoUefi.Disk.EspImage
import TamagoUefi.Disk.Gpt
import TamagoUefi.Disk.GptTables
import TamagoUefi.Disk.WindowsImage
import TamagoUefi.Disk.WindowsLayout
import TamagoUefi.Sfs.Handlers
import TamagoUefi.Sfs.Independence
import TamagoUefi.Sfs.Listed
import TamagoUefi.Sfs.Names
import TamagoUefi.Sfs.OpenVolume
import TamagoUefi.Sfs.Paths
import TamagoUefi.Sfs.ReadLaw
