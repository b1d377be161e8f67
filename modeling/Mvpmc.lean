import Mvpmc.Lib.Circular
import Mvpmc.Lib.CString
import Mvpmc.Lib.Double
import Mvpmc.Lib.Fifo
import Mvpmc.Lib.Reach
import Mvpmc.Lib.Transducer
import Mvpmc.Lib.ByteOrder
import Mvpmc.Lib.Lines
import Mvpmc.Lib.Linked
import Mvpmc.Demux.Handle
import Mvpmc.Demux.Video
import Mvpmc.Demux.StreamAdd
import Mvpmc.Demux.Spu
import Mvpmc.Demux.Frame
import Mvpmc.Demux.Put
import Mvpmc.Demux.Ring
import Mvpmc.Demux.RingFifo
import Mvpmc.Demux.Untouched
import Mvpmc.Demux.Parser
import Mvpmc.Demux.Consumed
import Mvpmc.Demux.Reach
import Mvpmc.Demux.Progress
import Mvpmc.Demux.ProgramStream
import Mvpmc.Demux.Adds
import Mvpmc.Demux.Lossless
import Mvpmc.Demux.Steps
import Mvpmc.Demux.VideoAdd
import Mvpmc.Demux.Counted
import Mvpmc.Demux.Indices
import Mvpmc.Demux.Announced
import Mvpmc.Demux.StreamTable
import Mvpmc.Lib.Roster
import Mvpmc.Lib.Template
import Mvpmc.Lib.Ledger
import Mvpmc.Lib.Pairing
import Mvpmc.Lib.Cursor
import Mvpmc.Demux.FillLevel
import Mvpmc.Cmyth.Conn
import Mvpmc.Cmyth.Framing
import Mvpmc.Cmyth.Token
import Mvpmc.Cmyth.File
import Mvpmc.Cmyth.Transfer
import Mvpmc.Av.VidEvents
import Mvpmc.Av.VidOrder
import Mvpmc.Av.VidKept
import Mvpmc.Av.VidDue
import Mvpmc.TsDemux.Transform
import Mvpmc.TsDemux.ProgramMap
import Mvpmc.TsDemux.Packet
import Mvpmc.TsDemux.Lengths
import Mvpmc.ConfigFile.Compressed
import Mvpmc.ConfigFile.Precedence
import Mvpmc.ConfigFile.LoadFile
import Mvpmc.ConfigFile.FailedLoad
import Mvpmc.ConfigFile.FileBounds
import Mvpmc.ConfigFile.WriteFile
import Mvpmc.RefMem.Alloc
import Mvpmc.RefMem.Balance
import Mvpmc.Mclient.OutBuf
import Mvpmc.Mclient.Display
import Mvpmc.Mclient.PlaylistWindow
import Mvpmc.Mclient.TitleHistory
import Mvpmc.Mclient.CoverCache
import Mvpmc.Mclient.AlbumBrowser
import Mvpmc.Mclient.OutFifo
import Mvpmc.Mclient.AudioPackets
import Mvpmc.Mclient.Shoutcast
import Mvpmc.Mclient.CliDecode
import Mvpmc.Mclient.CliLines
import Mvpmc.Replaytv.Crypt
import Mvpmc.Replaytv.Netclient
import Mvpmc.Replaytv.Httpclient
import Mvpmc.Replaytv.HttpBody
import Mvpmc.Cmyth.Mutex
import Mvpmc.Cmyth.Livetv
import Mvpmc.Cmyth.Discipline
import Mvpmc.Cmyth.LivetvDiscipline
import Mvpmc.Cmyth.Reply
import Mvpmc.Cmyth.Leftover
import Mvpmc.Cmyth.Closed
import Mvpmc.Cmyth.EndOfFile
import Mvpmc.Cmyth.Malformed
import Mvpmc.Lib.Decimal
import Mvpmc.Lib.Numeral
import Mvpmc.Lib.Tokens
import Mvpmc.Cmyth.Number
import Mvpmc.Cmyth.NumBuffer
import Mvpmc.Cmyth.TwoNumbers
import Mvpmc.Cmyth.ProginfoRcv
import Mvpmc.Cmyth.NumberTokens
import Mvpmc.Cmyth.SignedTokens
import Mvpmc.Cmyth.TimestampText
import Mvpmc.Cmyth.CommandLength
import Mvpmc.Cmyth.ProginfoDetail
import Mvpmc.Cmyth.Commbreaks
import Mvpmc.Cmyth.CommbreakReply
import Mvpmc.Cmyth.ProginfoRefs
import Mvpmc.Cmyth.ProginfoBalance
import Mvpmc.Cmyth.ProginfoOutcome
import Mvpmc.Cmyth.Proglist
import Mvpmc.Cmyth.EventGet
import Mvpmc.Cmyth.EventStream
import Mvpmc.Cmyth.ChainState
import Mvpmc.Cmyth.ChainSeek
import Mvpmc.Cmyth.ChainLanding
import Mvpmc.Cmyth.MysqlQuery
import Mvpmc.Cmyth.MysqlFill
import Mvpmc.Cmyth.MysqlCommbreaks
import Mvpmc.Cmyth.DatabaseStrings
import Mvpmc.Cmyth.Hilites
import Mvpmc.Lib.Runs
import Mvpmc.Cmyth.ChannelList
import Mvpmc.Cmyth.GuideWindow
import Mvpmc.Cmyth.GuidePage
import Mvpmc.Demux.Offsets
import Mvpmc.Demux.StartCodes
import Mvpmc.Demux.Restart
import Mvpmc.Demux.HeaderReader
import Mvpmc.Demux.Rechunk
import Mvpmc.Lib.Loop
import Mvpmc.Demux.Decompress
import Mvpmc.Demux.RunLength
import Mvpmc.Demux.DecompressBounds
import Mvpmc.Demux.SpuQueue
import Mvpmc.Demux.SpuSelect
import Mvpmc.Demux.SpuCases
import Mvpmc.Demux.SpuPieces
import Mvpmc.Demux.Jit
import Mvpmc.Demux.TimeStamps
import Mvpmc.Demux.JitAtomic
import Mvpmc.Demux.JitWindows
import Mvpmc.Playlist.Nodes
import Mvpmc.Playlist.ReadChr
import Mvpmc.Playlist.FileList
import Mvpmc.Playlist.LineRun
import Mvpmc.Playlist.LineByLine
import Mvpmc.Playlist.OnePerLine
import Mvpmc.Playlist.Played
import Mvpmc.Playlist.Pls
import Mvpmc.Web.Request
import Mvpmc.Web.Radio
import Mvpmc.Web.FormInput
import Mvpmc.HttpStream.Connect
import Mvpmc.HttpStream.Response
import Mvpmc.HttpStream.Follow
import Mvpmc.HttpStream.Entries
import Mvpmc.HttpStream.Retry
import Mvpmc.Lib.Sweep
import Mvpmc.Replaytv.EvtFile
import Mvpmc.Replaytv.EvtMarks
import Mvpmc.Replaytv.EvtSane
import Mvpmc.Replaytv.EvtOrder
import Mvpmc.Mclient.CliTouches
import Mvpmc.Mclient.CliBounds
import Mvpmc.Lib.InPlace
import Mvpmc.Replaytv.Guide
import Mvpmc.Replaytv.GuideBounds
import Mvpmc.Demux.ScanEnds
import Mvpmc.Demux.FullTest
import Mvpmc.Demux.DecompressEnds
import Mvpmc.Emulate.Offsets
import Mvpmc.Emulate.Seek
import Mvpmc.Emulate.QueueData
import Mvpmc.Emulate.Rdc
import Mvpmc.Emulate.RdcBounds
import Mvpmc.Replaytv.Ndx
import Mvpmc.Replaytv.Ndx30
import Mvpmc.Replaytv.Ndx22
import Mvpmc.Widget.MenuRuns
import Mvpmc.TsDemux.Repack
import Mvpmc.TsDemux.Interleave
import Mvpmc.Vnc.VncAuth
import Mvpmc.Cmyth.Handshake
import Mvpmc.Replaytv.Md5Pieces
import Mvpmc.Web.Files
