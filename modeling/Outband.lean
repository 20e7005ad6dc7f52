import Outband.Foundation.Bytes
import Outband.Foundation.Checked
import Outband.Foundation.Loop
import Outband.Foundation.Transition
import Outband.Foundation.MoveToFront
import Outband.Foundation.Segments
import Outband.Foundation.Digits
import Outband.Foundation.BitString
import Outband.Foundation.StreamCipher
import Outband.Foundation.Rc4
import Outband.Foundation.Base64
import Outband.Foundation.BigEndian
import Outband.Foundation.Outbox
import Outband.Foundation.KeyedTable
import Outband.Foundation.Raster
import Outband.Foundation.Utf8
import Outband.Foundation.Scale
import Outband.Foundation.Trim
import Outband.Foundation.Substring
import Outband.Foundation.UrlPath
import Outband.Foundation.History
import Outband.Foundation.Markup
import Outband.Foundation.Ledger
import Outband.Foundation.Decimal
import Outband.Foundation.Dialogue
import Outband.Foundation.Calendar
import Outband.Kvm.Bridge
import Outband.Kvm.BridgeSafety
import Outband.Ilo.Dvc.Tables
import Outband.Ilo.Dvc.Cache
import Outband.Ilo.Dvc.CacheRefinement
import Outband.Ilo.Dvc.Decoder
import Outband.Ilo.Dvc.Invariant
import Outband.Ilo.Dvc.Dispatch
import Outband.Ilo.Dvc.Stream
import Outband.Ilo.Dvc.ZeroRun
import Outband.Ilo.Dvc.Resync
import Outband.Ilo.Dvc.Untouched
import Outband.Ilo.Dvc.ScreenSize
import Outband.Ilo.Dvc.Blocks
import Outband.Ilo.Dvc.Drawing
import Outband.Ilo.Dvc.Colors
import Outband.Ilo.Client
import Outband.Ilo.Crypto
import Outband.Ilo.Rc4
import Outband.Ilo.Console
import Outband.Ilo.Session
import Outband.Ilo.Connect
import Outband.Ilo.Decryption
import Outband.Ilo.InputStream
import Outband.Kvm.Codec.Tables
import Outband.Kvm.Codec.Reader
import Outband.Kvm.Codec.BitStream
import Outband.Kvm.Codec.Block
import Outband.Kvm.Codec.HuffmanCode
import Outband.Kvm.Codec.HuffmanRoundTrip
import Outband.Kvm.Codec.RangeLimit
import Outband.Kvm.Codec.Decoder
import Outband.Kvm.Codec.Frame
import Outband.Kvm.Codec.Rc4
import Outband.Kvm.Codec.Tile
import Outband.Kvm.Codec.MacroBlock
import Outband.Kvm.Codec.FrameInvariant
import Outband.Kvm.Codec.Termination
import Outband.Kvm.Codec.Totality
import Outband.Kvm.Codec.Placement
import Outband.Kvm.Codec.VectorTile
import Outband.Kvm.Ivtp
import Outband.Kvm.Reassembly
import Outband.Amiweb.LaunchArgs
import Outband.Amiweb.Client
import Outband.Kvm.Connect
import Outband.Amt.Digest
import Outband.Amt.Wsman
import Outband.Amt.Kvm
import Outband.Amt.DigestTransport
import Outband.Amt.Credentials
import Outband.Amt.Redir.Session
import Outband.Amt.Redir.Framing
import Outband.Amt.Redir.Authentication
import Outband.Amt.Redir.DigestMessages
import Outband.Amt.Redir.RfbClient
import Outband.Amt.Redir.LreTile
import Outband.Amt.Redir.LreRoundTrip
import Outband.Amt.Redir.RfbSafety
import Outband.Amt.Redir.LreTruncation
import Outband.Amt.Redir.RawTile
import Outband.Amt.Redir.TileFraming
import Outband.Amt.Redir.RfbInput
import Outband.Amt.Redir.CutText
import Outband.Amt.Redir.RfbFrames
import Outband.Rfb.Messages
import Outband.Rfb.Server
import Outband.Rfb.Requests
import Outband.Rfb.Geometry
import Outband.Rfb.Output
import Outband.Hid.Keysyms
import Outband.Hid.Sink
import Outband.Hid.ReportOrder
import Outband.Hid.HeldKeys
import Outband.Hid.PasteText
import Outband.Hid.Pointer
import Outband.Bmc.PowerCache
import Outband.Bmc.Timestamps
import Outband.Bmc.EventLog
import Outband.Bmc.ConsoleSessions
import Outband.Telemetry.Snapshot
import Outband.Telemetry.Store
import Outband.Inventory.Config
import Outband.Inventory.Normal
import Outband.Inventory.Registry
import Outband.Idrac.Sessions
import Outband.Idrac.Web
import Outband.Idrac.Detection
import Outband.Ipmi.Sol
import Outband.Httpapi.Gate
import Outband.Httpapi.Routes
import Outband.Httpapi.Links
import Outband.Httpapi.Login
import Outband.Httpapi.LoginRuns
import Outband.Httpapi.LoginStates
import Outband.Wsman.Reply
import Outband.Kvm.Codec.DeltaFrames
import Outband.Foundation.Pool
import Outband.Telemetry.History
import Outband.Httpapi.Pages
import Outband.Httpapi.PageRules
import Outband.Telemetry.Collector
import Outband.Server.Calls
import Outband.Httpapi.Metrics
