import MQTTv1.CLib.CString
import MQTTv1.CLib.Strtok
import MQTTv1.CLib.TokenPositions
import MQTTv1.CLib.Binary32
import MQTTv1.CLib.Grep
import MQTTv1.CLib.Accesses
import MQTTv1.CLib.Runs
import MQTTv1.CLib.Gate
import MQTTv1.CLib.Relay
import MQTTv1.Csapp.Rio
import MQTTv1.Csapp.Lines
import MQTTv1.Csapp.Stream
import MQTTv1.TopicFilter
import MQTTv1.Broker.Tables
import MQTTv1.Broker.Subscription
import MQTTv1.Broker.Rows
import MQTTv1.Broker.Forwarding
import MQTTv1.Broker.StreamIntegrity
import MQTTv1.Broker.FanOut
import MQTTv1.Broker.Routing
import MQTTv1.Broker.Lookups
import MQTTv1.Broker.Parsing
import MQTTv1.Broker.MessageBuffers
import MQTTv1.Broker.LogBuffers
import MQTTv1.Broker.Tokenising
import MQTTv1.Broker.Threads
import MQTTv1.Broker.Registering
import MQTTv1.Broker.RowView
import MQTTv1.Broker.Completeness
import MQTTv1.Broker.Atomicity
import MQTTv1.Broker.Stray
import MQTTv1.Broker.Admission
import MQTTv1.Broker.Alignment
import MQTTv1.Broker.Capacity
import MQTTv1.Broker.OnePass
import MQTTv1.Broker.Blocking
import MQTTv1.Broker.Stalls
import MQTTv1.Broker.Faults
import MQTTv1.Publisher.Report
import MQTTv1.Publisher.InfoFile
import MQTTv1.Publisher.RoundTrip
import MQTTv1.Publisher.TopFile
import MQTTv1.Publisher.Joining
import MQTTv1.Publisher.Reading
import MQTTv1.Publisher.Columns
import MQTTv1.Subscriber.Handshake
import MQTTv1.Broker.Schedule
import MQTTv1.Broker.ServedLines
import MQTTv1.CLib.Overlay
import MQTTv1.Csapp.Buffered
import MQTTv1.EndToEnd
import MQTTv1.Broker.Provenance
import MQTTv1.Broker.Shutdown
import MQTTv1.CLib.Rounding
import MQTTv1.Interleaved
import MQTTv1.Publisher.Percentage
import MQTTv1.Broker.Progress
import MQTTv1.Csapp.Sockets
import MQTTv1.Broker.Sessions
import MQTTv1.Composition
import MQTTv1.Concurrent
import MQTTv1.Publisher.ColumnFile
