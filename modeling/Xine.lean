import Xine.NetBuf.Levels
import Xine.AudioOut.Conservation
import Xine.AudioOut.Gaps
import Xine.VideoOut.Expiry
import Xine.Timing.Drift
import Xine.Timing.Audio
import Xine.Timing.Clock
import Xine.Demux.Balance
import Xine.Overlay.Showing
import Xine.Overlay.Custody
import Xine.Config.RoundTrip
import Xine.Config.Links
import Xine.Config.Enums
import Xine.DemuxTs.Custody
import Xine.DemuxTs.Bounds
import Xine.DemuxTs.Collection
import Xine.DemuxTs.Checksums
import Xine.DemuxTs.Synchronise
import Xine.Rip.Failures
import Xine.Cue.Next
import Xine.Mcd.PositionAdvise
import Xine.Mrl.PercentEncoding
import Xine.Mrl.Opening
import Xine.Xml.Overruns
import Xine.Xml.RoundTrip
import Xine.Avi.Termination
import Xine.Avi.SeekLands
import Xine.Asm.Rules
import Xine.Asf.Assembly
import Xine.Http.Seeking
import Xine.Lists.Priorities
import Xine.Buffer.Types
import Xine.Event.Delivery
import Xine.Rmff.Survival
import Xine.Rtp.Conservation
import Xine.Post.Interception
import Xine.Codecs.DialogicCuts
import Xine.Codecs.IdCinCodes
import Xine.Codecs.InterplayBlocks
import Xine.Codecs.Separation
import Xine.Cc.Channels
import Xine.Spu.Chain
import Xine.Spu.Reference
import Xine.Osd.Allocation
import Xine.Osd.Lossless
import Xine.Resample.Channels
import Xine.Resample.Chain
import Xine.Filters.Equalizer
import Xine.Filters.Compressor
import Xine.Tracks.Loops
import Xine.Qt.SampleTimes
import Xine.Avi.Playback
import Xine.Qt.Durations
import Xine.Qt.RejectedTraks
import Xine.Cc.Times
import Xine.MpegBlock.Stamps
import Xine.MpegBlock.Disposal
import Xine.Ogg.Chapters
import Xine.Ogg.Times
import Xine.Ogg.Transport
import Xine.Rtp.Encapsulation
