import ZenohPicoPerf.Foundation.Run
import ZenohPicoPerf.Foundation.Blocks
import ZenohPicoPerf.Foundation.Memory
import ZenohPicoPerf.Foundation.Signed
import ZenohPicoPerf.Foundation.Atoi
import ZenohPicoPerf.Common.Clock
import ZenohPicoPerf.Throughput.Window
import ZenohPicoPerf.Throughput.Receivers
import ZenohPicoPerf.Foundation.Ledger
import ZenohPicoPerf.Throughput.TcpSub
import ZenohPicoPerf.Throughput.TcpSubWindows
import ZenohPicoPerf.Throughput.TcpSubConnections
import ZenohPicoPerf.Throughput.ZenohSub
import ZenohPicoPerf.Throughput.ZenohSubReports
import ZenohPicoPerf.Throughput.ZenohSubSizes
import ZenohPicoPerf.Throughput.ZenohSubWindows
import ZenohPicoPerf.Latency.Stamp
import ZenohPicoPerf.Latency.Tcp
import ZenohPicoPerf.Latency.ZenohGet
import ZenohPicoPerf.Latency.OpcUa
import ZenohPicoPerf.Foundation.Register
import ZenohPicoPerf.Latency.OpcUaWatch
import ZenohPicoPerf.Latency.OpcUaServer
import ZenohPicoPerf.Foundation.Channel
import ZenohPicoPerf.Latency.PingPong
import ZenohPicoPerf.Latency.PongStartup
import ZenohPicoPerf.Foundation.Reading
import ZenohPicoPerf.Latency.OneWay
import ZenohPicoPerf.Latency.RoundTrip
import ZenohPicoPerf.Latency.MqttSub
import ZenohPicoPerf.Mqtt.TopicGuard
import ZenohPicoPerf.Tcp.PeerClose
import ZenohPicoPerf.Foundation.Schedule
import ZenohPicoPerf.Overhead.ZenohSub
import ZenohPicoPerf.Common.MicroCdr
import ZenohPicoPerf.Throughput.DdsxrcePub
import ZenohPicoPerf.Throughput.ZenohSubElapsed
import ZenohPicoPerf.Latency.ZenohGetElapsed
import ZenohPicoPerf.Latency.Pacing
import ZenohPicoPerf.Latency.ProbeBounds
import ZenohPicoPerf.DdsXrce.ArrayTopics
import ZenohPicoPerf.Foundation.Pipe
import ZenohPicoPerf.Throughput.TcpSystem
import ZenohPicoPerf.Latency.TcpSystem
import ZenohPicoPerf.Foundation.PubSub
import ZenohPicoPerf.Mqtt.Session
import ZenohPicoPerf.Latency.MqttSystem
import ZenohPicoPerf.Throughput.MqttSystem
import ZenohPicoPerf.DdsXrce.LatencySystem
import ZenohPicoPerf.Throughput.DdsxrceSystem
import ZenohPicoPerf.Throughput.ZenohSystem
import ZenohPicoPerf.Foundation.QueryReply
import ZenohPicoPerf.Zenoh.QuerySystem
import ZenohPicoPerf.Foundation.Getopt
import ZenohPicoPerf.Zenoh.Options
import ZenohPicoPerf.OpcUa.Server
import ZenohPicoPerf.Throughput.OpcUaSystem
import ZenohPicoPerf.Overhead.OpcUaSystem
import ZenohPicoPerf.Foundation.Ownership
import ZenohPicoPerf.Common.Lifetimes
