import AksFirmware.ByteMemory
import AksFirmware.CText
import AksFirmware.WordBytes
import AksFirmware.ImageHeader
import AksFirmware.ProfileImage
import AksFirmware.TaggedText
import AksFirmware.Runs
import AksFirmware.WebConfig
import AksFirmware.ConfigLens
import AksFirmware.ConfigFlash
import AksFirmware.Gaffer
import AksFirmware.ArtNet
import AksFirmware.ArtNetDispatch
import AksFirmware.E131
import AksFirmware.PacketBuffer
import AksFirmware.UniverseIsolation
import AksFirmware.SacnFrames
import AksFirmware.Leases
import AksFirmware.PeerTable
import AksFirmware.PeerMemory
import AksFirmware.PeerRefinement
import AksFirmware.PeerPresence
import AksFirmware.OwnAddress
import AksFirmware.AddressAnswer
import AksFirmware.PeerExpiry
import AksFirmware.Announcement
import AksFirmware.Constellation
import AksFirmware.ConfigCommands
import AksFirmware.ConfigRequests
import AksFirmware.TurnLoop
import AksFirmware.SettingsRequest
import AksFirmware.SettingsReport
import AksFirmware.CommandDispatch
import AksFirmware.ConfigReboot
import AksFirmware.FlashCorruption
import AksFirmware.SamdLength
import AksFirmware.SamdVerdict
import AksFirmware.SamdCommands
import AksFirmware.ExchangeSort
import AksFirmware.ConstellationSort
import AksFirmware.Binary64
import AksFirmware.AutoNumber
import AksFirmware.ScriptText
import AksFirmware.DisplayLine
import AksFirmware.AdvancePage
import AksFirmware.PollReply
import AksFirmware.RenamePage
import AksFirmware.UpgradeUploads
import AksFirmware.SamdLink
import AksFirmware.SamdBuffers
import AksFirmware.SamdDownload
import AksFirmware.SamdSender
import AksFirmware.BatteryCommand
import AksFirmware.ScanChannel
import AksFirmware.WebComp
import AksFirmware.PageExpansion
import AksFirmware.PageOutput
import AksFirmware.InlineC
import AksFirmware.PageBuild
import AksFirmware.OptionNames
import AksFirmware.SiteSurvey
import AksFirmware.SurveyScan
import AksFirmware.SurveyTable
import AksFirmware.SurveyReadBack
import AksFirmware.SeparatedText
import AksFirmware.StringEscape
import AksFirmware.FlashRead
import AksFirmware.ConfigEscape
import AksFirmware.NatBrief
import AksFirmware.StaticRoutes
import AksFirmware.PageNames
import AksFirmware.SsidSettings
import AksFirmware.SsidReadBack
