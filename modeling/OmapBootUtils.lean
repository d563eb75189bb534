import OmapBootUtils.BoardTags
import OmapBootUtils.CheckedSender
import OmapBootUtils.CompleteImage
import OmapBootUtils.ConcatenatedImage
import OmapBootUtils.ConfigErrors
import OmapBootUtils.DocumentBoot
import OmapBootUtils.DocumentHeader
import OmapBootUtils.DocumentTags
import OmapBootUtils.DownloadReleases
import OmapBootUtils.DownloadStatus
import OmapBootUtils.DownloadStreams
import OmapBootUtils.FileBackends
import OmapBootUtils.KermitAcks
import OmapBootUtils.KermitCheck
import OmapBootUtils.KermitControl
import OmapBootUtils.KermitFrame
import OmapBootUtils.KermitLarge
import OmapBootUtils.KermitLargeTransfer
import OmapBootUtils.KermitReceiver
import OmapBootUtils.LcfgTree
import OmapBootUtils.LoopEnds
import OmapBootUtils.PagedImage
import OmapBootUtils.PortHandBack
import OmapBootUtils.PortState
import OmapBootUtils.RejectedConfig
import OmapBootUtils.ReportTexts
import OmapBootUtils.ResponseMatch
import OmapBootUtils.RetriedReads
import OmapBootUtils.SerialGetc
import OmapBootUtils.SettingFrames
import OmapBootUtils.SettingOrder
import OmapBootUtils.SizeAccounting
import OmapBootUtils.SplitReads
import OmapBootUtils.StrayByte
import OmapBootUtils.StringSettings
import OmapBootUtils.StyLoader
import OmapBootUtils.UsbSession
import OmapBootUtils.Win32Handles
import OmapBootUtils.Win32Read
