import GreenTurtle.TimerRefinement
import GreenTurtle.MessageQueue
import GreenTurtle.ConnManager
import GreenTurtle.ConnNotifications
import GreenTurtle.Buffer
import GreenTurtle.BufferedSocketWrite
import GreenTurtle.BufferedSocketRead
import GreenTurtle.FormatModel
import GreenTurtle.FormatAllOrNothing
import GreenTurtle.EventLoopModel
import GreenTurtle.Tally
import GreenTurtle.EventLoopAccounts
import GreenTurtle.ConnRelease
import GreenTurtle.ConnectionLifecycle
import GreenTurtle.AcceptorIdle
import GreenTurtle.UnorderedListHandles
import GreenTurtle.TimerMove
import GreenTurtle.SortedSearch
import GreenTurtle.VectorMap
import GreenTurtle.PollPoller
import GreenTurtle.PollArrangement
import GreenTurtle.FormatFootprint
import GreenTurtle.FormatBounds
import GreenTurtle.Logger
import GreenTurtle.KvProtocol
import GreenTurtle.KvResponse
import GreenTurtle.Framing
import GreenTurtle.OnReadCall
import GreenTurtle.KvFraming
import GreenTurtle.KvMessageLoop
import GreenTurtle.AlignText
import GreenTurtle.Numeral
import GreenTurtle.HexText
import GreenTurtle.Num2aModel
import GreenTurtle.IntegerText
import GreenTurtle.AlignRadix
import GreenTurtle.FloatText
import GreenTurtle.XmlDocCache
import GreenTurtle.TimerRounds
import GreenTurtle.TimerTermination
import GreenTurtle.TimerWatch
import GreenTurtle.TimerOverdue
import GreenTurtle.TimerAccuracy
import GreenTurtle.Iteration
import GreenTurtle.KvDecoding
import GreenTurtle.KvParsing
import GreenTurtle.BufferGrowth
import GreenTurtle.TimerConstruction
import GreenTurtle.LocalDays
import GreenTurtle.LogTimestamps
import GreenTurtle.LogFiles
import GreenTurtle.IdleSweep
import GreenTurtle.UpperCaseLoop
import GreenTurtle.UnorderedListTraversal
import GreenTurtle.TimerTraversal
import GreenTurtle.BinaryFormat
import GreenTurtle.GrisuModel
import GreenTurtle.CachedPowers
import GreenTurtle.DigitGeneration
import GreenTurtle.Grisu2
import GreenTurtle.DecimalText
import GreenTurtle.PrintedDouble
import GreenTurtle.EpollPoller
import GreenTurtle.PollerAgreement
import GreenTurtle.EchoServer
import GreenTurtle.FramedLink
import GreenTurtle.BroadcastProtocol
import GreenTurtle.LogLines
import GreenTurtle.AcceptorBalance
import GreenTurtle.Descriptors
import GreenTurtle.XmlQueries
