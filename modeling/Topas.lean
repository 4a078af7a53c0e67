import Topas.Core.LTS
import Topas.Core.Proc
import Topas.Core.SampleMoments
import Topas.Core.Bytes
import Topas.Core.Linked
import Topas.Core.Tables
import Topas.Core.Machine
import Topas.Core.Calls
import Topas.Core.Semaphores
import Topas.Core.Window
import Topas.Core.Ledger
import Topas.Core.Text
import Topas.Core.Xml
import Topas.Core.XmlPointer
import Topas.L1Template.Types
import Topas.L1Template.TemplateBuffer
import Topas.L1Template.BufferHeap
import Topas.L1Template.BufferMap
import Topas.L2Parser.RcvIpfix
import Topas.L2Parser.Layout
import Topas.L2Parser.TemplateSets
import Topas.L2Parser.Known
import Topas.L2Parser.DataSets
import Topas.L2Parser.Packets
import Topas.L2Parser.Termination
import Topas.L2Parser.Bounds
import Topas.L2Parser.Offsets
import Topas.L2Parser.InForce
import Topas.L2Parser.Encode
import Topas.L2Parser.Decode
import Topas.L2Parser.RoundTrip
import Topas.L2Parser.FieldArrays
import Topas.L2Parser.Deliveries
import Topas.L2Parser.OptionsRecords
import Topas.L2Parser.DataTemplates
import Topas.L2Parser.IpfixReceiver
import Topas.L2Parser.Receiving
import Topas.L3Ring.IpfixShm
import Topas.L3Ring.Ring
import Topas.L3Ring.Sharing
import Topas.L3Ring.Rejected
import Topas.L3Ring.FileCounter
import Topas.L3Ring.CounterArithmetic
import Topas.L3Ring.Attach
import Topas.L4Module.Callbacks
import Topas.L4Module.Unbuffered
import Topas.L4Module.Buffered
import Topas.L4Module.AcceptedIds
import Topas.L4Module.StopRequests
import Topas.L4Module.SourceIds
import Topas.L5Collector.Collector
import Topas.L5Collector.Rounds
import Topas.L5Collector.Handshake
import Topas.L5Collector.Store
import Topas.L5Collector.Wakeup
import Topas.L5Collector.FileExchange
import Topas.L5Collector.Recorder
import Topas.L5Collector.Children
import Topas.L5Collector.SlowModules
import Topas.L5Collector.ModuleSemaphores
import Topas.L5Collector.XmlConfObj
import Topas.L5Collector.XmlIteration
import Topas.L5Collector.Control
import Topas.L6Count.BloomFilter
import Topas.L6Count.Insertions
import Topas.L6Count.AgeBloomFilter
import Topas.L6Count.CountStore
import Topas.L6Count.Totals
import Topas.L6Count.Flows
import Topas.L6Count.IdmefMessage
import Topas.L6Count.EndNodes
import Topas.L6Count.Reports
import Topas.L7Stat.Metrics
import Topas.L7Stat.Stat
import Topas.L7Stat.View
import Topas.L7Stat.Independence
import Topas.L7Stat.Samples
import Topas.L7Stat.Differences
import Topas.L7Stat.Learning
import Topas.L7Stat.Recursion
import Topas.L7Stat.TestRounds
import Topas.L7Stat.Alarms
import Topas.L7Stat.CusumRange
import Topas.L7Stat.Pca
import Topas.L7Stat.PcaLearning
import Topas.L7Stat.StatStore
import Topas.L7Stat.SkippedRecords
import Topas.L7Stat.AddressText
import Topas.L7Stat.PrintStore
import Topas.L7Stat.PrintTest
import Topas.L7Stat.OfflineFile
import Topas.L7Stat.EndpointKey
import Topas.L7Stat.OfflineInput
import Topas.L7Stat.FilterEndpoints
import Topas.L7Stat.FrequentEndpoints
import Topas.L7Stat.Settings
import Topas.L7Stat.SettingTags
import Topas.L7Stat.WmwTest
import Topas.L7Stat.Kolmogorov
import Topas.L7Stat.KsTest
import Topas.L7Stat.KsMerge
import Topas.L7Stat.KsStatistic
import Topas.L7Stat.PcsTest
import Topas.L7Stat.OrderOnly
import Topas.L8Snort.SnortStore
import Topas.L8Snort.PacketMemory
import Topas.L8Snort.PacketObject
import Topas.L8Snort.PcapWriter
import Topas.L8Snort.Capture
import Topas.L8Snort.Checksums
import Topas.L8Snort.IdmefRewrite
import Topas.L8Snort.IdmefWrapper
import Topas.L8Snort.CommandLine
import Topas.L8Snort.TimeStamps
