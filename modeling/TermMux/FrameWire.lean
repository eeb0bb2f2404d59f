import TermMux.FrameModel

/-!
# Encoding and decoding frames

`Frame.encode`, `Frame::validate_header`, `Frame::from_payload` and the decoder
of one WebSocket message, each as the source computes it: the limits sit in the
header check, the embedded length fields and the alphabets in the payload
parser, and the truncation of over-long names in the encoder. Index, slice and
`usize` arithmetic keep their panics as results.
-/

set_option autoImplicit false

namespace Term.FrameWire
open Term.ByteOrder Term.Utf8Text Term.FrameModel Term.Outcome

def asU32 (n : ℕ) : UInt32 := UInt32.ofNat n

def roundDown (name : String) : ℕ → ℕ
  | 0 => 0
  | k+1 => if isCharBoundary name (k+1) then k+1 else roundDown name k

def nameCut (name : String) : ℕ :=
  if (asBytes name).length ≤ maxPasteNameLen then (asBytes name).length
  else roundDown name maxPasteNameLen

def payload : Body → Bytes
  | .data b => b
  | .open_ sessionId (rows,cols) => asBytes sessionId ++ (be16 rows ++ be16 cols)
  | .ping b => b
  | .pong b => b
  | .hello b => b
  | .close => []
  | .resize rows cols => be16 rows ++ be16 cols
  | .pasteBegin pasteId totalSize groupId groupSize name =>
    let n := nameCut name
    be32 pasteId ++ (be64 totalSize ++ (be32 groupId ++ (be32 groupSize ++
      (UInt8.ofNat n :: (asBytes name).take n))))
  | .pasteChunk pasteId bytes => be32 pasteId ++ bytes
  | .pasteEnd pasteId status => be32 pasteId ++ [status]
  | .pasteReject pasteId reason => be32 pasteId ++ [reason]
  | .downloadBegin downloadId totalSize name =>
    let n := nameCut name
    be32 downloadId ++ (be64 totalSize ++ (UInt8.ofNat n :: (asBytes name).take n))
  | .downloadChunk downloadId bytes => be32 downloadId ++ bytes
  | .downloadEnd downloadId status => be32 downloadId ++ [status]
  | .acquireControl => []
  | .releaseControl => []
  | .takeControl => []
  | .controllerChanged status => [status]
  | .listSessions requestId => be32 requestId
  | .sessionList requestId json => be32 requestId ++ (be32 (asU32 json.length) ++ json)
  | .killSession requestId sessionId =>
    -- Cut at 64 bytes, not at a character boundary.
    let n := min (asBytes sessionId).length maxSessionIdLen
    be32 requestId ++ (UInt8.ofNat n :: (asBytes sessionId).take n)
  | .killSessionAck requestId status => be32 requestId ++ [status]

def encode (f : Frame) : Bytes :=
  be32 f.streamId ++ (f.ty.code :: (be32 (asU32 (payload f.body).length) ++ payload f.body))

def onDataStream (streamId : UInt32) : Outcome FrameError Unit :=
  rejectIf (streamId = controlStream) .dataOnControlStream

def onControlStream (streamId : UInt32) : Outcome FrameError Unit :=
  rejectIf (streamId ≠ controlStream) (.controlOnDataStream streamId)

def checkLen (streamId : UInt32) (ty : FrameType) (len : UInt32) : Outcome FrameError Unit :=
  match ty with
  | .data => do
    onDataStream streamId
    rejectIf (maxDataLen < len.toNat) (.payloadTooLarge ty len maxDataLen)
  | .resize => do
    onDataStream streamId
    rejectIf (len.toNat ≠ 4) (.invalidResizeLen len)
  | .open_ => do
    onDataStream streamId
    rejectIf (¬(5 ≤ len.toNat ∧ len.toNat ≤ maxOpenLen)) (.payloadTooLarge ty len maxOpenLen)
  | .close => do
    onDataStream streamId
    rejectIf (len.toNat ≠ 0) (.invalidCloseLen len)
  | .ping | .pong => do
    onControlStream streamId
    rejectIf (maxPingLen < len.toNat) (.payloadTooLarge ty len maxPingLen)
  | .hello => do
    onControlStream streamId
    rejectIf (len.toNat = 0 ∨ maxHelloLen < len.toNat) (.payloadTooLarge ty len maxHelloLen)
  | .pasteBegin => do
    onDataStream streamId
    rejectIf (len.toNat < 21) (.pasteBeginTruncated len)
    rejectIf (maxPasteBeginLen < len.toNat) (.payloadTooLarge ty len maxPasteBeginLen)
  | .pasteChunk => do
    onDataStream streamId
    rejectIf (len.toNat < 4) (.pasteChunkTruncated len)
    rejectIf (maxPasteChunkLen < len.toNat) (.payloadTooLarge ty len maxPasteChunkLen)
  | .pasteEnd => do
    onDataStream streamId
    rejectIf (len.toNat ≠ pasteEndLen) (.pasteEndLen len)
  | .pasteReject => do
    onDataStream streamId
    rejectIf (len.toNat ≠ pasteRejectLen) (.pasteRejectLen len)
  | .downloadBegin => do
    onDataStream streamId
    rejectIf (len.toNat < 13) (.downloadBeginTruncated len)
    rejectIf (maxDownloadBeginLen < len.toNat) (.payloadTooLarge ty len maxDownloadBeginLen)
  | .downloadChunk => do
    onDataStream streamId
    rejectIf (len.toNat < 4) (.downloadChunkTruncated len)
    rejectIf (maxDownloadChunkLen < len.toNat) (.payloadTooLarge ty len maxDownloadChunkLen)
  | .downloadEnd => do
    onDataStream streamId
    rejectIf (len.toNat ≠ downloadEndLen) (.downloadEndLen len)
  | .acquireControl | .releaseControl | .takeControl => do
    onDataStream streamId
    rejectIf (len.toNat ≠ 0) (.controlFrameNonEmpty ty len)
  | .controllerChanged => do
    onDataStream streamId
    rejectIf (len.toNat ≠ controllerChangedLen) (.controllerChangedLen len)
  | .listSessions => do
    onControlStream streamId
    rejectIf (len.toNat ≠ listSessionsLen) (.listSessionsLen len)
  | .sessionList => do
    onControlStream streamId
    rejectIf (len.toNat < 8) (.sessionListTruncated len)
    rejectIf (maxSessionListLen < len.toNat) (.sessionListOverflow len)
  | .killSession => do
    onControlStream streamId
    rejectIf (len.toNat < 5) (.killSessionTruncated len)
    rejectIf (maxKillSessionLen < len.toNat) (.payloadTooLarge ty len maxKillSessionLen)
  | .killSessionAck => do
    onControlStream streamId
    rejectIf (len.toNat ≠ killSessionAckLen) (.killSessionAckLen len)

def validateHeader (streamId : UInt32) (tyByte : UInt8) (len : UInt32) :
    Outcome FrameError (FrameType × UInt32) := do
  let ty ← orElse (FrameType.fromU8 tyByte) (.unknownType tyByte)
  checkLen streamId ty len
  return (ty,len)

def parseBody (ty : FrameType) (payload : Bytes) : Outcome FrameError Body :=
  match ty with
  | .data => return .data payload
  | .open_ => do
    rejectIf (payload.length < 5) (.payloadTooLarge ty (asU32 payload.length) maxOpenLen)
    let split ← sub payload.length 4
    let rows ← u16At payload split
    let cols ← u16At payload (split+2)
    let idBytes ← slice payload 0 split
    let s ← orElse (fromUtf8 idBytes) .sessionIdNotUtf8
    rejectIf (¬isValidSessionId s) .invalidSessionId
    return .open_ s (rows,cols)
  | .close => return .close
  | .resize => do
    rejectIf (payload.length ≠ 4) (.invalidResizeLen (asU32 payload.length))
    let rows ← u16At payload 0
    let cols ← u16At payload 2
    return .resize rows cols
  | .ping => return .ping payload
  | .pong => return .pong payload
  | .hello => return .hello payload
  | .pasteBegin => do
    rejectIf (payload.length < 21) (.pasteBeginTruncated (asU32 payload.length))
    let pasteId ← u32At payload 0
    let totalSize ← u64At payload 4
    rejectIf (maxPasteTotalBytes < totalSize.toNat) (.pasteBeginTotalSize totalSize)
    let groupId ← u32At payload 12
    let groupSize ← u32At payload 16
    rejectIf (groupSize = 0) (.pasteBeginGroupSizeZero groupSize)
    let nameLen ← index payload 20
    let nameEnd ← add 21 nameLen.toNat
    rejectIf (payload.length ≠ nameEnd) (.pasteBeginTruncated (asU32 payload.length))
    let nameBytes ← slice payload 21 nameEnd
    let name ← orElse (fromUtf8 nameBytes) .pasteBeginNameNotUtf8
    return .pasteBegin pasteId totalSize groupId groupSize name
  | .pasteChunk => do
    rejectIf (payload.length < 4) (.pasteChunkTruncated (asU32 payload.length))
    let pasteId ← u32At payload 0
    rejectIf (4+maxPasteChunkBytes < payload.length)
      (.payloadTooLarge ty (asU32 payload.length) maxPasteChunkLen)
    let bytes ← slice payload 4 payload.length
    return .pasteChunk pasteId bytes
  | .pasteEnd => do
    rejectIf (payload.length ≠ pasteEndLen) (.pasteEndLen (asU32 payload.length))
    let pasteId ← u32At payload 0
    let status ← index payload 4
    rejectIf (status ≠ pasteStatusOk ∧ status ≠ pasteStatusCancel) (.pasteEndStatus status)
    return .pasteEnd pasteId status
  | .pasteReject => do
    rejectIf (payload.length ≠ pasteRejectLen) (.pasteRejectLen (asU32 payload.length))
    let pasteId ← u32At payload 0
    let reason ← index payload 4
    rejectIf (pasteRejectMaxReason < reason) (.pasteRejectReason reason)
    return .pasteReject pasteId reason
  | .downloadBegin => do
    rejectIf (payload.length < 13) (.downloadBeginTruncated (asU32 payload.length))
    let downloadId ← u32At payload 0
    let totalSize ← u64At payload 4
    rejectIf (maxPasteTotalBytes < totalSize.toNat) (.downloadBeginTotalSize totalSize)
    let nameLen ← index payload 12
    let nameEnd ← add 13 nameLen.toNat
    rejectIf (payload.length ≠ nameEnd) (.downloadBeginTruncated (asU32 payload.length))
    let nameBytes ← slice payload 13 nameEnd
    let name ← orElse (fromUtf8 nameBytes) .downloadBeginNameNotUtf8
    return .downloadBegin downloadId totalSize name
  | .downloadChunk => do
    rejectIf (payload.length < 4) (.downloadChunkTruncated (asU32 payload.length))
    let downloadId ← u32At payload 0
    rejectIf (4+maxPasteChunkBytes < payload.length)
      (.payloadTooLarge ty (asU32 payload.length) maxDownloadChunkLen)
    let bytes ← slice payload 4 payload.length
    return .downloadChunk downloadId bytes
  | .downloadEnd => do
    rejectIf (payload.length ≠ downloadEndLen) (.downloadEndLen (asU32 payload.length))
    let downloadId ← u32At payload 0
    let status ← index payload 4
    rejectIf (status ≠ downloadStatusOk ∧ status ≠ downloadStatusCancel) (.downloadEndStatus status)
    return .downloadEnd downloadId status
  | .acquireControl => return .acquireControl
  | .releaseControl => return .releaseControl
  | .takeControl => return .takeControl
  | .controllerChanged => do
    rejectIf (payload.length ≠ controllerChangedLen)
      (.controllerChangedLen (asU32 payload.length))
    let status ← index payload 0
    rejectIf (controllerStatusOther < status) (.controllerChangedStatus status)
    return .controllerChanged status
  | .listSessions => do
    rejectIf (payload.length ≠ listSessionsLen) (.listSessionsLen (asU32 payload.length))
    let requestId ← u32At payload 0
    return .listSessions requestId
  | .sessionList => do
    rejectIf (payload.length < 8) (.sessionListTruncated (asU32 payload.length))
    let requestId ← u32At payload 0
    let jsonLen ← u32At payload 4
    -- Compared with the trailing byte count, since `8 + json_len` can overflow.
    let jsonActual ← sub payload.length 8
    rejectIf (jsonLen ≠ asU32 jsonActual)
      (.sessionListJsonLen jsonLen (asU32 payload.length)
        (asU32 (min (jsonLen.toNat+8) (2^32-1))))
    let json ← slice payload 8 payload.length
    return .sessionList requestId json
  | .killSession => do
    rejectIf (payload.length < 5) (.killSessionTruncated (asU32 payload.length))
    let requestId ← u32At payload 0
    let idLen ← index payload 4
    let idEnd ← add 5 idLen.toNat
    rejectIf (payload.length ≠ idEnd) (.killSessionIdLen idLen (asU32 payload.length))
    let idBytes ← slice payload 5 idEnd
    let sessionId ← orElse (fromUtf8 idBytes) .sessionIdNotUtf8
    rejectIf (¬isValidSessionId sessionId) .invalidSessionId
    return .killSession requestId sessionId
  | .killSessionAck => do
    rejectIf (payload.length ≠ killSessionAckLen) (.killSessionAckLen (asU32 payload.length))
    let requestId ← u32At payload 0
    let status ← index payload 4
    rejectIf (killStatusMax < status) (.killSessionAckStatus status)
    return .killSessionAck requestId status

def fromPayload (streamId : UInt32) (ty : FrameType) (payload : Bytes) :
    Outcome FrameError Frame := do
  let body ← parseBody ty payload
  return ⟨streamId,body⟩

/-- One binary WebSocket message is one frame. The number is its wire size. -/
def frameFromWsPayload (data : Bytes) : Outcome FrameError (Frame × ℕ) := do
  rejectIf (data.length < headerLen) (.io .invalidData "websocket frame shorter than header")
  let streamId ← u32At data 0
  let tyByte ← index data 4
  let len ← u32At data 5
  let (ty,len) ← validateHeader streamId tyByte len
  rejectIf (data.length ≠ headerLen+len.toNat) (.io .invalidData "websocket frame length mismatch")
  let payload ← slice data headerLen data.length
  let f ← fromPayload streamId ty payload
  return (f,headerLen+payload.length)

end Term.FrameWire
