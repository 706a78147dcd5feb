import Binkleyforce.Library.Runs
import Binkleyforce.Library.Frames
import Binkleyforce.Library.Program
import Binkleyforce.Library.Cipher
import Binkleyforce.Library.Checksum
import Binkleyforce.Library.Peers
import Binkleyforce.Library.Segments
import Binkleyforce.Util.Text
import Binkleyforce.Util.Words
import Binkleyforce.Util.Crc
import Binkleyforce.Util.FileNames
import Binkleyforce.Util.CheckSums
import Binkleyforce.Util.Md5
import Binkleyforce.Util.Address
import Binkleyforce.Util.Masks
import Binkleyforce.Util.Scan
import Binkleyforce.Session.Passwords
import Binkleyforce.Session.GoodAddresses
import Binkleyforce.Binkp.Crypt
import Binkleyforce.Binkp.KeyWidth
import Binkleyforce.Binkp.Sysinfo
import Binkleyforce.Binkp.State
import Binkleyforce.Binkp.Send
import Binkleyforce.Binkp.Receive
import Binkleyforce.Binkp.Loop
import Binkleyforce.Binkp.Invariants
import Binkleyforce.Binkp.Framing
import Binkleyforce.Binkp.Output
import Binkleyforce.Binkp.Fatal
import Binkleyforce.Binkp.Sides
import Binkleyforce.Binkp.Pending
import Binkleyforce.Binkp.Finality
import Binkleyforce.Binkp.SentStream
import Binkleyforce.Binkp.Completion
import Binkleyforce.Binkp.ParseBounds
import Binkleyforce.Binkp.Bounds
import Binkleyforce.Binkp.Handshake
import Binkleyforce.Binkp.FileInfo
import Binkleyforce.Binkp.Presence
import Binkleyforce.Binkp.Challenge
import Binkleyforce.Binkp.Authentication
import Binkleyforce.Binkp.Progress
import Binkleyforce.Binkp.Line
import Binkleyforce.Binkp.Counts
import Binkleyforce.Binkp.Batches
import Binkleyforce.Outbound.Names
import Binkleyforce.Outbound.Plock
import Binkleyforce.Outbound.PlockExclusion
import Binkleyforce.Outbound.Disk
import Binkleyforce.Outbound.Busy
import Binkleyforce.Outbound.AllOrNothing
import Binkleyforce.Transfer.Queue
import Binkleyforce.Transfer.Netspool
import Binkleyforce.Transfer.Files
import Binkleyforce.Transfer.Tracked
import Binkleyforce.Transfer.Closings
import Binkleyforce.Transfer.Streams
import Binkleyforce.Transfer.Inbound
import Binkleyforce.Transfer.Confinement
import Binkleyforce.Transfer.Sharing
import Binkleyforce.Hydra.Refusal
import Binkleyforce.Hydra.Offsets
import Binkleyforce.Hydra.Turns
import Binkleyforce.Hydra.Requests
import Binkleyforce.Hydra.Encoding
import Binkleyforce.Hydra.Formats
import Binkleyforce.Hydra.RoundTrip
import Binkleyforce.Hydra.Outgoing
import Binkleyforce.Session.SendOptions
import Binkleyforce.Session.HeldMail
import Binkleyforce.Session.Status
import Binkleyforce.Session.StatusFile
import Binkleyforce.Library.Cursors
import Binkleyforce.Daemon.Systems
import Binkleyforce.Daemon.Queues
import Binkleyforce.Daemon.Current
import Binkleyforce.Daemon.Children
import Binkleyforce.Daemon.Retries
import Binkleyforce.Expression.Lexer
import Binkleyforce.Expression.Grammar
import Binkleyforce.Expression.Evaluator
import Binkleyforce.Expression.Writing
import Binkleyforce.Session.Calling
import Binkleyforce.Daemon.Placing
import Binkleyforce.Expression.Tables
import Binkleyforce.Expression.History
import Binkleyforce.Emsi.Fields
import Binkleyforce.Emsi.Escapes
import Binkleyforce.Emsi.Packet
import Binkleyforce.Emsi.Reading
import Binkleyforce.Emsi.RoundTrip
import Binkleyforce.Library.Distinct
import Binkleyforce.Emsi.Flags
import Binkleyforce.Emsi.Framing
import Binkleyforce.Zmodem.Files
import Binkleyforce.Yoohoo.Hello
import Binkleyforce.Hydra.Options
import Binkleyforce.Library.Digests
import Binkleyforce.Util.Digest
import Binkleyforce.Hydra.FileInfo
import Binkleyforce.Library.Selections
import Binkleyforce.Transfer.SendOrder
import Binkleyforce.Library.Traces
import Binkleyforce.Hydra.Moves
import Binkleyforce.Hydra.Window
import Binkleyforce.Library.Globs
import Binkleyforce.Util.Globbing
import Binkleyforce.Nodelist.Flags
import Binkleyforce.Util.Times
import Binkleyforce.Util.Intervals
import Binkleyforce.Daemon.Purge
import Binkleyforce.Daemon.Lines
import Binkleyforce.Daemon.Next
import Binkleyforce.Util.AddressText
import Binkleyforce.Util.AddressGrammar
import Binkleyforce.Library.Resets
import Binkleyforce.Daemon.StatusStore
import Binkleyforce.Transfer.SpoolLines
import Binkleyforce.Library.SelectionSort
import Binkleyforce.Daemon.Sorting
import Binkleyforce.Util.DosNames
import Binkleyforce.Library.Replacements
import Binkleyforce.Util.Translation
import Binkleyforce.Outbound.Translation
import Binkleyforce.Outbound.FloFiles
import Binkleyforce.Util.Dequoting
import Binkleyforce.Outbound.FileTypes
import Binkleyforce.Transfer.UniqueNames
import Binkleyforce.Library.Scanner
import Binkleyforce.Emsi.Sequences
import Binkleyforce.Transfer.SpoolFiles
import Binkleyforce.Binkp.Spool
import Binkleyforce.Binkp.HexTexts
import Binkleyforce.Util.Residues
import Binkleyforce.Util.Packets
import Binkleyforce.Transfer.Resuming
import Binkleyforce.Freq.Selection
