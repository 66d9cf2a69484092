import TermLinks.Exec
import TermLinks.CoordinatorStore
import TermLinks.CoordinatorCompile
import TermLinks.CoordinatorManager
import TermLinks.CoordinatorProgress
import TermLinks.CoordinatorStranding
import TermLinks.CoordinatorCancellation
import TermLinks.HistoryStore
import TermLinks.HistoryReconcile
import TermLinks.Mailbox
import TermLinks.SessionStream
import TermLinks.TerminalHandler
import TermLinks.HistoryLinks
import TermLinks.HistoryOpen
import TermLinks.HistoryReopen
import TermLinks.Aead
import TermLinks.Base64
import TermLinks.Utf16
import TermLinks.CloudPacket
import TermLinks.E2EPacket
import TermLinks.PacketInterop
import TermLinks.CoordinatorListing
import TermLinks.HistoryListing
import TermLinks.StoredOrder
import TermLinks.CoordinatorBookkeeping
import TermLinks.CoordinatorRows
import TermLinks.CoordinatorGrowth
import TermLinks.CoordinatorOrder
import TermLinks.HistoryRemoval
import TermLinks.ViewerController
import TermLinks.ViewerExclusion
import TermLinks.ViewerWindows
import TermLinks.Connector
import TermLinks.ConnectorResources
import TermLinks.ConnectorTasks
import TermLinks.ConnectorLeaks
import TermLinks.ConnectorAcceptance
import TermLinks.ConnectorMediation
import TermLinks.Json
import TermLinks.JsonRender
import TermLinks.Relay
import TermLinks.RelaySteps
import TermLinks.RelayIsolation
import TermLinks.RelayWire
import TermLinks.RelayAgreement
import TermLinks.HistoryBounds
import TermLinks.HistorySessions
import TermLinks.Double
import TermLinks.TerminalReconnect
import TermLinks.TerminalFraming
import TermLinks.CoordinatorFloor
import TermLinks.CoordinatorWorkspaces
import TermLinks.ConnectorLimits
import TermLinks.FilePath
import TermLinks.Files
import TermLinks.UploadPaths
import TermLinks.UploadExactness
import TermLinks.UploadAcceptance
import TermLinks.ConnectorRoutes
import TermLinks.TimestampParse
import TermLinks.HistoryWire
import TermLinks.HistoryAgreement
import TermLinks.CoordinatorPrompt
import TermLinks.CoordinatorDelivery
import TermLinks.ConnectorHTTP
import TermLinks.SessionRetention
import TermLinks.SessionScrollback
import TermLinks.SessionEviction
import TermLinks.Auth
import TermLinks.AuthHistory
import TermLinks.AuthSessions
import TermLinks.CoordinatorMentions
import TermLinks.CoordinatorRequest
import TermLinks.TerminalInput
import TermLinks.HistoryDuplicate
import TermLinks.ShellLexer
import TermLinks.TerminalAttachments
import TermLinks.ConnectorSending
import TermLinks.E2EBridge
import TermLinks.BridgeLog
import TermLinks.BridgeRuns
import TermLinks.BridgeReplay
import TermLinks.BridgeStreams
import TermLinks.TerminalReply
import TermLinks.PrefixCode
import TermLinks.Runes
import TermLinks.TextCuts
import TermLinks.FileTree
import TermLinks.ReleaseVersion
import TermLinks.SelfUpdate
import TermLinks.SelfUpdateInstall
import TermLinks.SelfUpdateSafety
