import Hprd.Core.Bytes
import Hprd.Core.Ring
import Hprd.Core.Machine
import Hprd.Core.Framing
import Hprd.Core.Fifo
import Hprd.Core.Block
import Hprd.Common.DataQueue
import Hprd.Common.DataQueueSpec
import Hprd.Common.DataQueueFifo
import Hprd.Common.DataQueueSteps
import Hprd.Common.DataQueueSpsc
import Hprd.Net.TcpRecv
import Hprd.Net.TcpClient
import Hprd.Net.TcpUpstream
import Hprd.Net.SendPath
import Hprd.Net.SendFrames
import Hprd.Net.SendRefused
import Hprd.Net.SendWake
import Hprd.Net.TcpDownstream
import Hprd.Net.ServerThreads
import Hprd.Net.SendDeadlock
import Hprd.Common.FrameBuffer
import Hprd.Common.BufferPool
import Hprd.Common.BufferPoolRun
import Hprd.Common.DevIdQueue
import Hprd.Common.DevIdQueueIds
import Hprd.Display.GlRender
import Hprd.Display.SdlEvents
import Hprd.Codec.Openh264Dec
import Hprd.Codec.FfmpegEnc
import Hprd.Codec.ForceKey
import Hprd.Clients.RequestTable
import Hprd.Net.Kcp.Ikcp
import Hprd.Net.Kcp.IkcpInput
import Hprd.Net.Kcp.IkcpFlush
import Hprd.Net.Kcp.Datagram
import Hprd.Common.IntQueue
import Hprd.Common.IntQueueFifo
import Hprd.Common.Protocol
import Hprd.Input.XlibInput
import Hprd.Input.XlibKeys
import Hprd.Server.Requests
import Hprd.Server.PktHandler
import Hprd.Clients.ClipEvent
import Hprd.Clients.RenderWidget
import Hprd.Clients.FrameTasks
import Hprd.Clients.FrameTasksRun
import Hprd.Clients.WidgetInput
import Hprd.Server.CaptureLoop
import Hprd.Net.TransportSwitch
import Hprd.Net.KcpServer
import Hprd.Net.SessionLife
import Hprd.Net.VideoPath
import Hprd.Clients.VideoQueue
import Hprd.Clients.VideoQueueOrder
import Hprd.Clients.VideoQueueAligned
import Hprd.Server.DeviceLife
import Hprd.Server.Settings
import Hprd.Server.CapturePacing
import Hprd.Core.Purge
import Hprd.Net.NetServer
import Hprd.Core.Bits
import Hprd.Core.CInt
import Hprd.Core.Reorder
import Hprd.Codec.Hevc.Bitstream
import Hprd.Codec.Hevc.FrameOrder
import Hprd.Codec.Hevc.RefPicList
import Hprd.Codec.Hevc.ParamSets
import Hprd.Codec.Hevc.EncodeFrames
import Hprd.Codec.Hevc.FrameRun
import Hprd.Codec.Hevc.PocRun
import Hprd.Codec.Hevc.RefPicSet
import Hprd.Codec.Hevc.SliceHeader
import Hprd.Codec.Hevc.SliceSyntax
import Hprd.Core.HoareSort
import Hprd.Core.BitSyntax
import Hprd.Codec.Hevc.ExpGolomb
import Hprd.Codec.Hevc.SortOne
import Hprd.Codec.Hevc.Surfaces
import Hprd.Codec.Hevc.PackedParamSets
import Hprd.Codec.Hevc.ParamSetSyntax
import Hprd.Codec.Hevc.ParamSetRead
import Hprd.Codec.Hevc.Stream
import Hprd.Core.Serial
import Hprd.Core.Arq
import Hprd.Core.PictureBuffer
import Hprd.Codec.Hevc.Playback
import Hprd.Net.Kcp.Numbers
import Hprd.Net.Kcp.Window
import Hprd.Net.Kcp.WindowSteps
import Hprd.Net.Kcp.WindowBounds
import Hprd.Net.Kcp.Message
import Hprd.Net.Kcp.LinkSteps
import Hprd.Net.Kcp.Conversation
import Hprd.Net.Kcp.Delivery
import Hprd.Net.Kcp.Emission
import Hprd.Net.Kcp.Timers
import Hprd.Net.Kcp.Reading
import Hprd.Net.Kcp.Drain
import Hprd.Net.KcpSessions
import Hprd.Clients.EventPackets
import Hprd.Server.Seat
import Hprd.Server.RemoteControl
