import WireProbe.Transducer
import WireProbe.CyclicOrder
import WireProbe.Framing
import WireProbe.Text
import WireProbe.LineProtocol
import WireProbe.Floats
import WireProbe.Effect
import WireProbe.FirstSeen
import WireProbe.Growable
import WireProbe.Statistics
import WireProbe.AddressRotation
import WireProbe.RotationProgress
import WireProbe.Collectd
import WireProbe.UdsFraming
import WireProbe.GetAddrInfo
import WireProbe.PluginRotation
import WireProbe.PluginRotationRuns
import WireProbe.EarnedRotation
import WireProbe.PluginConfig
import WireProbe.PythonCasts
import WireProbe.ConfigIsolation
import WireProbe.ConfiguredState
import WireProbe.KernelRtt
import WireProbe.PluginRead
import WireProbe.ReadTrace
import WireProbe.ReadAccounting
import WireProbe.UsableConfig
import WireProbe.TargetEntries
import WireProbe.HostSplitting
import WireProbe.SeriesLabels
import WireProbe.ProbeRtt
import WireProbe.Telegraf
import WireProbe.Sanitize
import WireProbe.LineDecoding
import WireProbe.Transitions
import WireProbe.AcceptRing
import WireProbe.AcceptParity
import WireProbe.ProbeLoop
import WireProbe.Durations
import WireProbe.Cli
import WireProbe.InfluxLines
import WireProbe.SendBuffers
import WireProbe.ProbeReporting
import WireProbe.ProbeRotation
import WireProbe.RotationParity
import WireProbe.StarvedVisits
import WireProbe.BudgetedRead
import WireProbe.ReadRounds
import WireProbe.ReadReplay
import WireProbe.ReadShortfalls
import WireProbe.ReadRobustness
import WireProbe.SocketUse
import WireProbe.ConfigReload
import WireProbe.LineStream
import WireProbe.DeliveredPoints
import WireProbe.ProbeLog
import WireProbe.AcceptProgress
import WireProbe.Utf8Lossy
import WireProbe.ProbeStartup
import WireProbe.PicoArgs
import WireProbe.CommandLine
import WireProbe.Process
import WireProbe.MeasureRtt
import WireProbe.Outage
import WireProbe.PluginOutage
