import Fishnet.Net.BufferDeque
import Fishnet.Net.BufferReadFd
import Fishnet.Net.BufferShrink
import Fishnet.Net.IntHeader
import Fishnet.Net.InetAddress
import Fishnet.Net.CloseOnce
import Fishnet.Net.Disconnected
import Fishnet.Net.Notifications
import Fishnet.Net.SendOrder
import Fishnet.Timer.TimerRaces
import Fishnet.Timer.TimerArming
import Fishnet.Json.DumpGrammar
import Fishnet.Json.PrintReads
import Fishnet.Json.ParseView
import Fishnet.Json.CopyValue
import Fishnet.Json.TagPayload
import Fishnet.Net.EPollRegistration
import Fishnet.Net.PollPollerRelease
import Fishnet.Net.PollerAgreement
import Fishnet.Net.Teardown
import Fishnet.Net.EventLoopThread
import Fishnet.Base.LogStream
import Fishnet.Base.FormatUnits
import Fishnet.Base.AsyncLoggingPointers
import Fishnet.Base.AsyncLoggingStop
import Fishnet.Base.ZoneFile
import Fishnet.Base.LogTime
import Fishnet.Net.ConnectorAssertions
import Fishnet.Net.ClientStop
import Fishnet.Net.ServerDestroyed
import Fishnet.Base.ThreadPool
import Fishnet.Hlib.ZfishPool
import Fishnet.Hlib.StrandedProducer
import Fishnet.Hlib.ThreadPoolShutdown
import Fishnet.Hlib.ThreadPoolElastic
