import SynapseMcp.Transition
import SynapseMcp.SharedOwnership
import SynapseMcp.Json
import SynapseMcp.Protocol
import SynapseMcp.MessageDecoder
import SynapseMcp.OwnedExecutor
import SynapseMcp.ExecutorRuns
import SynapseMcp.ExecutorWakeups
import SynapseMcp.Server
import SynapseMcp.ServerRuns
import SynapseMcp.ServerCustody
import SynapseMcp.Delimited
import SynapseMcp.ServerClosing
import SynapseMcp.ServerDelivery
import SynapseMcp.ServerHandshake
import SynapseMcp.StdioClosing
import SynapseMcp.StdioReading
import SynapseMcp.StdioWriting
import SynapseMcp.OrderedMap
import SynapseMcp.Places
import SynapseMcp.Client
import SynapseMcp.ClientRuns
import SynapseMcp.MessageGrammar
import SynapseMcp.MessageCodec
import SynapseMcp.ServerPolicy
import SynapseMcp.ResourceUri
import SynapseMcp.Application
import SynapseMcp.ApplicationGate
import SynapseMcp.ServerFailures
import SynapseMcp.ServerRegistry
import SynapseMcp.ServerLifecycle
import SynapseMcp.ServerStart
import SynapseMcp.ServerViews
import SynapseMcp.ServerStdio
import SynapseMcp.ServerQuiescence
import SynapseMcp.Traversal
import SynapseMcp.SchemaRegistration
import SynapseMcp.RegistrationTables
import SynapseMcp.RegistrationSound
import SynapseMcp.RegistrationFinishes
import SynapseMcp.RegistrationOnce
import SynapseMcp.StreamBuffers
import SynapseMcp.StdioAccounting
import SynapseMcp.FrameLimit
import SynapseMcp.ApplicationTexts
import SynapseMcp.ApplicationSecrecy
import SynapseMcp.Abnf
import SynapseMcp.UriGrammar
import SynapseMcp.ResourceUriSyntax
import SynapseMcp.JsonText
import SynapseMcp.StdioDepth
import SynapseMcp.RegistrationDialects
import SynapseMcp.RegistrationRoutes
import SynapseMcp.ExecutorOwners
import SynapseMcp.ExecutorCaptures
import SynapseMcp.ExecutorReentry
import SynapseMcp.PosixStdio
import SynapseMcp.PosixWakeups
import SynapseMcp.Procedures
import SynapseMcp.PosixDescriptors
import SynapseMcp.Mutex
import SynapseMcp.WindowsStdio
import SynapseMcp.WindowsCancellation
import SynapseMcp.SseTransport
import SynapseMcp.Deadlines
import SynapseMcp.TimedWait
import SynapseMcp.Progress
import SynapseMcp.ServerProgress
import SynapseMcp.StdioProgress
import SynapseMcp.ShutdownSteps
import SynapseMcp.ShutdownWaits
import SynapseMcp.ServerShutdown
import SynapseMcp.ProcessTransport
import SynapseMcp.ProcessLifetime
import SynapseMcp.StdioInterrupted
import SynapseMcp.Pipes
import SynapseMcp.StdioSession
import SynapseMcp.ServerEcho
import SynapseMcp.ServerReplies
import SynapseMcp.ClientCalls
import SynapseMcp.Pairing
