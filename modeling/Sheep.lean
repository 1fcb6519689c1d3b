import Sheep.Bytes
import Sheep.ScanLoop
import Sheep.HeaderLines
import Sheep.RequestParser
import Sheep.RequestGrammar
import Sheep.RequestMultipart
import Sheep.RequestRoundTrip
import Sheep.RequestBody
import Sheep.RequestStreaming
import Sheep.RequestTrail
import Sheep.RequestAcceptance
import Sheep.RequestLength
import Sheep.RequestMemory
import Sheep.ResponseParser
import Sheep.ResponseGrammar
import Sheep.ResponseChunks
import Sheep.ResponseFraming
import Sheep.ResponseTrail
import Sheep.ResponseDecoding
import Sheep.ResponseRoundTrip
import Sheep.ResponseAcceptance
import Sheep.HeaderAgreement
import Sheep.ResponseMemory
import Sheep.MessageReuse
import Sheep.UriParser
import Sheep.UriRoundTrip
import Sheep.UriQueries
import Sheep.UriSoundness
import Sheep.UriEnds
import Sheep.UriPorts
import Sheep.UriGrammar
import Sheep.UriNames
import Sheep.UriReuse
import Sheep.Transitions
import Sheep.Connection
import Sheep.ConnectionDescriptors
import Sheep.ConnectionBuffer
import Sheep.BufferBounds
import Sheep.EchoServer
import Sheep.EchoIsolation
import Sheep.Ownership
import Sheep.Handles
import Sheep.Turnstile
import Sheep.Fairness
import Sheep.TurnstileCourse
import Sheep.TurnstileLedger
import Sheep.Queue
import Sheep.QueueTurns
import Sheep.QueueWrap
import Sheep.QueueNumbering
import Sheep.QueueHandover
import Sheep.QueueMoves
import Sheep.QueueStory
import Sheep.QueueDelivery
import Sheep.QueueLifeCycle
import Sheep.QueueProgress
import Sheep.QueueLiveness
import Sheep.QueueCalls
import Sheep.QueueAttempts
import Sheep.QueueRefusals
import Sheep.QueueDrain
import Sheep.QueueContents
import Sheep.QueueThrows
import Sheep.QueueFailures
import Sheep.QueueSurvival
import Sheep.QueueOutput
import Sheep.QueueSize
import Sheep.AtomicQueue
import Sheep.QueueValues
import Sheep.QueueRefinement
import Sheep.BitSmear
import Sheep.QueueCapacity
import Sheep.ThreadPool
import Sheep.ThreadPoolWakeups
import Sheep.Logger
import Sheep.LogRecords
import Sheep.LoggerLife
import Sheep.LoggerOrder
import Sheep.LoggerShutdown
import Sheep.LoggerCalls
import Sheep.LoggerFlush
import Sheep.LoggerFiles
import Sheep.Loggers
import Sheep.LoggerIsolation
import Sheep.LoggerQueue
import Sheep.IoService
import Sheep.IoRouting
import Sheep.DirectStyle
import Sheep.Monitor
import Sheep.SyncWait
import Sheep.SyncWaitOutcome
import Sheep.Task
import Sheep.TaskRefinement
import Sheep.Sessions
import Sheep.SessionLife
import Sheep.SessionPlaces
import Sheep.SessionRefinement
import Sheep.SessionRelease
import Sheep.SessionAffinity
import Sheep.SessionStranding
import Sheep.ServerAccept
import Sheep.Handles
