import MoonFlare.Binary
import MoonFlare.CJson
import MoonFlare.CJsonDepth
import MoonFlare.CJsonNumbers
import MoonFlare.CJsonRoundTrip
import MoonFlare.CJsonText
import MoonFlare.CString
import MoonFlare.ChannelScheduler
import MoonFlare.CheckedReads
import MoonFlare.CircularList
import MoonFlare.ClassicCharger
import MoonFlare.ClassicFailover
import MoonFlare.ClassicProbe
import MoonFlare.ClassicReplies
import MoonFlare.ConfigGenerations
import MoonFlare.ConfigReapply
import MoonFlare.ConfigRoundTrip
import MoonFlare.ConfigRules
import MoonFlare.DaemonConfig
import MoonFlare.DecimalText
import MoonFlare.DeviceSettings
import MoonFlare.DeviceSlots
import MoonFlare.DoubleOrder
import MoonFlare.Drains
import MoonFlare.FlatModules
import MoonFlare.FrameScan
import MoonFlare.GattDiscovery
import MoonFlare.GattHelper
import MoonFlare.History
import MoonFlare.HistoryMarks
import MoonFlare.HistoryMigrate
import MoonFlare.HistoryPruning
import MoonFlare.HistoryQueue
import MoonFlare.HistoryRetention
import MoonFlare.HistorySpec
import MoonFlare.HttpBodies
import MoonFlare.HttpBounds
import MoonFlare.HttpConnection
import MoonFlare.HttpFraming
import MoonFlare.HttpPipelining
import MoonFlare.Interruptible
import MoonFlare.JkAssembly
import MoonFlare.JkBattery
import MoonFlare.JkCellSlots
import MoonFlare.JkChargeLimits
import MoonFlare.JkFrames
import MoonFlare.JkHelper
import MoonFlare.JkHelperCount
import MoonFlare.JkLayouts
import MoonFlare.JkWriteQueue
import MoonFlare.JkWrites
import MoonFlare.KeyedTable
import MoonFlare.LiveMarkRuns
import MoonFlare.LiveMarks
import MoonFlare.MagBounds
import MoonFlare.MagChunks
import MoonFlare.MagFrame
import MoonFlare.MagIdentity
import MoonFlare.MagOrder
import MoonFlare.MagRounds
import MoonFlare.MagTap
import MoonFlare.MigrationRows
import MoonFlare.NestedKeys
import MoonFlare.NumberEnds
import MoonFlare.OnlineState
import MoonFlare.Phantom
import MoonFlare.PhantomAverage
import MoonFlare.PhantomMean
import MoonFlare.PhantomShape
import MoonFlare.Plugin
import MoonFlare.ProbeRuns
import MoonFlare.Protothread
import MoonFlare.ProtothreadLists
import MoonFlare.ProtothreadQueues
import MoonFlare.ProtothreadTick
import MoonFlare.ReadingPublication
import MoonFlare.RecentTimes
import MoonFlare.RestExactId
import MoonFlare.RestHandlers
import MoonFlare.RestRoutes
import MoonFlare.RingBuffer
import MoonFlare.Runs
import MoonFlare.SecretCleaning
import MoonFlare.Secrets
import MoonFlare.SettingsAtomicity
import MoonFlare.SlotConvergence
import MoonFlare.SlotOperations
import MoonFlare.SlotRecording
import MoonFlare.SlotUniqueness
import MoonFlare.SpecRoundTrip
import MoonFlare.StrictJson
import MoonFlare.StrictJsonTexts
import MoonFlare.SystemOrder
import MoonFlare.SystemTotals
import MoonFlare.TextSearch
import MoonFlare.Textbelt
import MoonFlare.TextbeltCap
import MoonFlare.TextbeltForm
import MoonFlare.TextbeltMessage
import MoonFlare.TextbeltRecipients
import MoonFlare.TextbeltTest
import MoonFlare.Transactions
import MoonFlare.TuiHttp
import MoonFlare.TuiWrites
import MoonFlare.UrlEncoded
import MoonFlare.UsbIdentity
import MoonFlare.Utf8
import MoonFlare.WeatherFetch
import MoonFlare.WeatherGov
import MoonFlare.WeatherMixing
import MoonFlare.XdAdapter
import MoonFlare.XdBattery
import MoonFlare.XdCommands
import MoonFlare.XdDelivery
import MoonFlare.XdReadingJson
import MoonFlare.XdReadingText
import MoonFlare.XdReads
import MoonFlare.XdTransactions
import MoonFlare.XdTransport
import MoonFlare.Zcta
import MoonFlare.ZctaConversion
import MoonFlare.ZctaLookup
import MoonFlare.CJsonPrefixes
import MoonFlare.CliHttp
import MoonFlare.CliHttpReplies
import MoonFlare.HttpOneShot
import MoonFlare.CliDaemon
import MoonFlare.CJsonLines
import MoonFlare.Logging
import MoonFlare.Mcp
import MoonFlare.McpDaemon
