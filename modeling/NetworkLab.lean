import NetworkLab.Lib.Limbs
import NetworkLab.Kbench.Ipv6.Bench
import NetworkLab.Kbench.Ipv6.ScanLemmas
import NetworkLab.Kbench.Ipv6.ScanRange
import NetworkLab.Kbench.Ipv6.Buffers
import NetworkLab.Kbench.Ipv4.Bench
import NetworkLab.Kbench.Ipv4.ScanRange
import NetworkLab.Exabgp.Fsm
import NetworkLab.Exabgp.Announce
import NetworkLab.Lib.PyText
import NetworkLab.Routes.Cache
import NetworkLab.Gnmi.Launch
import NetworkLab.Gnmi.Handshake
import NetworkLab.Iou.Plug
import NetworkLab.Iou.Netmap
import NetworkLab.Iou.Header
import NetworkLab.Iou.Reader
import NetworkLab.Iou.Wiring
import NetworkLab.Iou.Hub
import NetworkLab.Kbench.Devices
import NetworkLab.Kbench.Percentile
import NetworkLab.Kbench.Ipv6.ScanStep
import NetworkLab.Kbench.Ipv6.ScanIncrement
import NetworkLab.Kbench.Ipv6.Fib6
import NetworkLab.Kbench.Ipv6.Fib6Walk
import NetworkLab.Kbench.Ipv6.Fib6Depth
import NetworkLab.Kbench.Ipv4.Locals
import NetworkLab.Lib.Chunks
import NetworkLab.Kbench.Ipv4.Batching
import NetworkLab.Kbench.Ipv6.BatchMode
import NetworkLab.Kbench.Histogram
import NetworkLab.Kbench.Output
import NetworkLab.Kbench.HistogramPage
import NetworkLab.Kbench.Sysfs
import NetworkLab.Lib.Double
import NetworkLab.Lib.Iterator
import NetworkLab.Routes.FromBgp
import NetworkLab.Routes.FromBgpSample
import NetworkLab.Routes.RoundRobin
import NetworkLab.Lib.Lcg
import NetworkLab.Routes.Many128
import NetworkLab.Routes.Many32
import NetworkLab.Exabgp.Loopback
import NetworkLab.Iou.Failure
import NetworkLab.Timewait.NfQueue
import NetworkLab.Lib.Tty
import NetworkLab.Kbench.PageCut
import NetworkLab.Kbench.Report
import NetworkLab.Kbench.Plot
import NetworkLab.Kbench.ReadBack
import NetworkLab.Kbench.Average
import NetworkLab.Latency.Smooth
import NetworkLab.Lib.Reading
import NetworkLab.Lib.Shell
import NetworkLab.LabSetup.Netargs
import NetworkLab.LabSetup.Start
import NetworkLab.LabSetup.Spawn
import NetworkLab.LabSetup.Switches
import NetworkLab.Iou.Lab
import NetworkLab.Iou.Cabling
import NetworkLab.LabSetup.Options
import NetworkLab.Lib.Supply
import NetworkLab.LabSetup.Addresses
import NetworkLab.LabSetup.CommandLine
import NetworkLab.Kbench.Ipv6.Resources
import NetworkLab.Routes.Many48
import NetworkLab.Kbench.BenchAll
import NetworkLab.Kbench.Chart
import NetworkLab.Latency.Statistics
import NetworkLab.Kbench.Ipv6.Bounds
import NetworkLab.LabSetup.Forwards
