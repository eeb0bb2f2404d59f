import TermMux.Outcome
import TermMux.Utf8Text

/-!
# The frame protocol: types, limits and errors

Header of nine bytes: stream id, type byte, payload length. Stream 0 carries
connection control and the session admin requests; every other id is a data
stream allocated by the hub. Error values keep the fields the source reports.
-/

set_option autoImplicit false

namespace Term.FrameModel
open Term.ByteOrder Term.Utf8Text

def headerLen : ℕ := 9
def maxDataLen : ℕ := 64*1024
def maxSessionIdLen : ℕ := 64
def maxHelloLen : ℕ := 1024
def maxPingLen : ℕ := 64
def maxPasteTotalBytes : ℕ := 4*1024*1024*1024-1
def maxPasteChunkBytes : ℕ := 1024*1024
def maxPasteNameLen : ℕ := 255
def maxPasteBeginLen : ℕ := 4+8+4+4+1+maxPasteNameLen
def maxPasteChunkLen : ℕ := 4+maxPasteChunkBytes
def pasteEndLen : ℕ := 4+1
def pasteRejectLen : ℕ := 4+1
def pasteStatusOk : UInt8 := 0
def pasteStatusCancel : UInt8 := 1
def pasteRejectRegistryFull : UInt8 := 0
def pasteRejectOpenFailed : UInt8 := 1
def pasteRejectSizeMismatch : UInt8 := 2
def pasteRejectWriteFailed : UInt8 := 3
def pasteRejectDuplicatePaste : UInt8 := 4
def pasteRejectGroupOversize : UInt8 := 5
def pasteRejectNotController : UInt8 := 6
def pasteRejectMaxReason : UInt8 := pasteRejectNotController
def maxDownloadBeginLen : ℕ := 4+8+1+maxPasteNameLen
def maxDownloadChunkLen : ℕ := 4+maxPasteChunkBytes
def downloadEndLen : ℕ := 4+1
def downloadStatusOk : UInt8 := 0
def downloadStatusCancel : UInt8 := 1
def maxOpenLen : ℕ := maxSessionIdLen+4
def controllerChangedLen : ℕ := 1
def controllerStatusNone : UInt8 := 0
def controllerStatusSelf : UInt8 := 1
def controllerStatusOther : UInt8 := 2
def controllerNoneStreamId : UInt32 := 0
def listSessionsLen : ℕ := 4
def maxSessionListJsonLen : ℕ := 256*1024
def maxSessionListLen : ℕ := 4+4+maxSessionListJsonLen
def maxKillSessionLen : ℕ := 4+1+maxSessionIdLen
def killSessionAckLen : ℕ := 4+1
def killStatusOk : UInt8 := 0
def killStatusNotFound : UInt8 := 1
def killStatusMax : UInt8 := killStatusNotFound
def controlStream : UInt32 := 0

inductive FrameType where
  | data | resize | open_ | close | ping | pong | hello
  | pasteBegin | pasteChunk | pasteEnd | pasteReject
  | downloadBegin | downloadChunk | downloadEnd
  | acquireControl | releaseControl | takeControl | controllerChanged
  | listSessions | sessionList | killSession | killSessionAck
  deriving DecidableEq, Repr

/-- The `repr(u8)` discriminant, as in the cast `ty as u8`. -/
def FrameType.code : FrameType → UInt8
  | .data => 0
  | .resize => 1
  | .open_ => 2
  | .close => 3
  | .ping => 4
  | .pong => 5
  | .hello => 6
  | .pasteBegin => 7
  | .pasteChunk => 8
  | .pasteEnd => 9
  | .pasteReject => 10
  | .downloadBegin => 11
  | .downloadChunk => 12
  | .downloadEnd => 13
  | .acquireControl => 14
  | .releaseControl => 15
  | .takeControl => 16
  | .controllerChanged => 17
  | .listSessions => 18
  | .sessionList => 19
  | .killSession => 20
  | .killSessionAck => 21

def FrameType.fromU8 (b : UInt8) : Option FrameType :=
  match b with
  | 0 => some .data
  | 1 => some .resize
  | 2 => some .open_
  | 3 => some .close
  | 4 => some .ping
  | 5 => some .pong
  | 6 => some .hello
  | 7 => some .pasteBegin
  | 8 => some .pasteChunk
  | 9 => some .pasteEnd
  | 10 => some .pasteReject
  | 11 => some .downloadBegin
  | 12 => some .downloadChunk
  | 13 => some .downloadEnd
  | 14 => some .acquireControl
  | 15 => some .releaseControl
  | 16 => some .takeControl
  | 17 => some .controllerChanged
  | 18 => some .listSessions
  | 19 => some .sessionList
  | 20 => some .killSession
  | 21 => some .killSessionAck
  | _ => none

@[simp] theorem fromU8_code (ty : FrameType) : FrameType.fromU8 ty.code = some ty := by
  cases ty <;> rfl

theorem fromU8_eq_some {b : UInt8} {ty : FrameType} :
    FrameType.fromU8 b = some ty ↔ b = ty.code := by
  constructor
  · intro h
    unfold FrameType.fromU8 at h
    split at h <;> cases h <;> rfl
  · rintro rfl
    exact fromU8_code ty

inductive IoErrorKind where
  | invalidData
  | unexpectedEof
  | other
  deriving DecidableEq, Repr

inductive FrameError where
  | io (kind : IoErrorKind) (message : String)
  | unknownType (b : UInt8)
  | payloadTooLarge (ty : FrameType) (len : UInt32) (max : ℕ)
  | invalidResizeLen (len : UInt32)
  | invalidCloseLen (len : UInt32)
  | invalidSessionId
  | sessionIdNotUtf8
  | controlOnDataStream (id : UInt32)
  | dataOnControlStream
  | pasteBeginTruncated (len : UInt32)
  | pasteBeginNameNotUtf8
  | pasteBeginTotalSize (size : UInt64)
  | pasteBeginGroupSizeZero (size : UInt32)
  | pasteChunkTruncated (len : UInt32)
  | pasteEndLen (len : UInt32)
  | pasteEndStatus (status : UInt8)
  | pasteRejectLen (len : UInt32)
  | pasteRejectReason (reason : UInt8)
  | downloadBeginTruncated (len : UInt32)
  | downloadBeginNameNotUtf8
  | downloadBeginTotalSize (size : UInt64)
  | downloadChunkTruncated (len : UInt32)
  | downloadEndLen (len : UInt32)
  | downloadEndStatus (status : UInt8)
  | controllerChangedLen (len : UInt32)
  | controllerChangedStatus (status : UInt8)
  | listSessionsLen (len : UInt32)
  | sessionListTruncated (len : UInt32)
  | sessionListJsonLen (len payload expected : UInt32)
  | sessionListOverflow (len : UInt32)
  | killSessionTruncated (len : UInt32)
  | killSessionIdLen (idLen : UInt8) (payload : UInt32)
  | killSessionAckLen (len : UInt32)
  | killSessionAckStatus (status : UInt8)
  | controlFrameNonEmpty (ty : FrameType) (len : UInt32)
  deriving DecidableEq, Repr

inductive Body where
  | data (bytes : Bytes)
  | resize (rows cols : UInt16)
  | open_ (sessionId : String) (initialSize : UInt16 × UInt16)
  | close
  | ping (payload : Bytes)
  | pong (payload : Bytes)
  | hello (payload : Bytes)
  | pasteBegin (pasteId : UInt32) (totalSize : UInt64) (groupId groupSize : UInt32) (name : String)
  | pasteChunk (pasteId : UInt32) (bytes : Bytes)
  | pasteEnd (pasteId : UInt32) (status : UInt8)
  | pasteReject (pasteId : UInt32) (reason : UInt8)
  | downloadBegin (downloadId : UInt32) (totalSize : UInt64) (name : String)
  | downloadChunk (downloadId : UInt32) (bytes : Bytes)
  | downloadEnd (downloadId : UInt32) (status : UInt8)
  | acquireControl
  | releaseControl
  | takeControl
  | controllerChanged (status : UInt8)
  | listSessions (requestId : UInt32)
  | sessionList (requestId : UInt32) (json : Bytes)
  | killSession (requestId : UInt32) (sessionId : String)
  | killSessionAck (requestId : UInt32) (status : UInt8)
  deriving DecidableEq, Repr

structure Frame where
  streamId : UInt32
  body : Body
  deriving DecidableEq, Repr

def Body.ty : Body → FrameType
  | .data _ => .data
  | .resize .. => .resize
  | .open_ .. => .open_
  | .close => .close
  | .ping _ => .ping
  | .pong _ => .pong
  | .hello _ => .hello
  | .pasteBegin .. => .pasteBegin
  | .pasteChunk .. => .pasteChunk
  | .pasteEnd .. => .pasteEnd
  | .pasteReject .. => .pasteReject
  | .downloadBegin .. => .downloadBegin
  | .downloadChunk .. => .downloadChunk
  | .downloadEnd .. => .downloadEnd
  | .acquireControl => .acquireControl
  | .releaseControl => .releaseControl
  | .takeControl => .takeControl
  | .controllerChanged _ => .controllerChanged
  | .listSessions _ => .listSessions
  | .sessionList .. => .sessionList
  | .killSession .. => .killSession
  | .killSessionAck .. => .killSessionAck

namespace Frame

def ty (f : Frame) : FrameType := f.body.ty

def data (streamId : UInt32) (bytes : Bytes) : Frame := ⟨streamId,.data bytes⟩
def close (streamId : UInt32) : Frame := ⟨streamId,.close⟩
def pong (payload : Bytes) : Frame := ⟨controlStream,.pong payload⟩
def controllerChanged (streamId : UInt32) (status : UInt8) : Frame :=
  ⟨streamId,.controllerChanged status⟩
def pasteReject (streamId pasteId : UInt32) (reason : UInt8) : Frame :=
  ⟨streamId,.pasteReject pasteId reason⟩
def listSessions (requestId : UInt32) : Frame := ⟨controlStream,.listSessions requestId⟩
def killSession (requestId : UInt32) (sessionId : String) : Frame :=
  ⟨controlStream,.killSession requestId sessionId⟩

end Frame

def isAsciiAlphanumeric (b : UInt8) : Bool :=
  (0x30 ≤ b && b ≤ 0x39) || (0x41 ≤ b && b ≤ 0x5A) || (0x61 ≤ b && b ≤ 0x7A)

def isSessionIdByte (b : UInt8) : Bool := isAsciiAlphanumeric b || b == 0x5F || b == 0x2D

/-- Between 1 and 64 bytes of `[A-Za-z0-9_-]`. -/
def isValidSessionId (s : String) : Bool :=
  let n := (asBytes s).length
  if n = 0 ∨ maxSessionIdLen < n then false else (asBytes s).all isSessionIdByte

end Term.FrameModel
