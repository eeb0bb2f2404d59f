import TermMux.ByteOrder
import TermMux.Outcome
import TermMux.Utf8Text
import TermMux.Utf16Text
import TermMux.Machine
import TermMux.Interrupted
import TermMux.Gregorian
import TermMux.FrameModel
import TermMux.FrameWire
import TermMux.FrameCodec
import TermMux.FrameNames
import TermMux.FrameParse
import TermMux.HubLink
import TermMux.HubLinkFrames
import TermMux.RpcCalls
import TermMux.Semaphore
import TermMux.ByteBudget
import TermMux.PriorityChannel
import TermMux.PrioLink
import TermMux.StreamDemux
import TermMux.HubStreams
import TermMux.StreamEnds
import TermMux.AgentStreams
import TermMux.StreamTasks
import TermMux.Base64
import TermMux.AsciiText
import TermMux.AgentAuth
import TermMux.ReplayCache
import TermMux.ClientVerifier
import TermMux.AgentDial
import TermMux.TokenCache
import TermMux.OscStream
import TermMux.DownloadGate
import TermMux.SessionState
import TermMux.ControlLease
import TermMux.Broadcast
import TermMux.SessionFanout
import TermMux.SessionReplay
import TermMux.SessionObservers
import TermMux.Reconnects
import TermMux.SessionManager
import TermMux.SessionSweep
import TermMux.ShellExit
import TermMux.SessionLimit
import TermMux.PasteNames
import TermMux.PasteFileNames
import TermMux.PasteSweep
import TermMux.PasteUpload
import TermMux.PasteGroups
import TermMux.PasteRegistry
import TermMux.PasteFate
import TermMux.PasteDisk
import TermMux.PasteContent
import TermMux.PasteLimits
import TermMux.PastePaths
import TermMux.PasteHistory
import TermMux.PasteClient
import TermMux.PasteAgreement
import TermMux.WebFrames
import TermMux.DownloadStream
import TermMux.AgentFrames
import TermMux.StreamClose
import TermMux.SessionInput
import TermMux.InputLease
import TermMux.AgentWrites
import TermMux.CredStore
import TermMux.LockedFile
import TermMux.CredFile
import TermMux.ExpiringMap
import TermMux.Webauthn
import TermMux.Logins
import TermMux.BearerTokens
import TermMux.SignCounters
import TermMux.CborItem
import TermMux.Cbor
import TermMux.CoseKey
import TermMux.Registration
import TermMux.StreamIsolation
import TermMux.ProxyFrames
import TermMux.WebDownloads
import TermMux.DownloadPath
import TermMux.SavedDownloads
import TermMux.DownloadEvents
import TermMux.DownloadReconnects
import TermMux.OscSegments
import TermMux.FrameStream
import TermMux.TermDl
import TermMux.OscEnds
import TermMux.OscLeaks
import TermMux.DsrFilter
import TermMux.KillSession
import TermMux.StreamCap
import TermMux.NotifyLoop
import TermMux.LinkRegistry
import TermMux.UtcText
import TermMux.CaInit
import TermMux.CertAdmission
import TermMux.AddPasskey
import TermMux.WebBase64
import TermMux.HttpEdge
import TermMux.WebTabs
import TermMux.HonestLogin
