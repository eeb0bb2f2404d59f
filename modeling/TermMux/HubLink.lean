import TermMux.Machine
import TermMux.FrameWire

/-!
# The hub's end of an agent link

One link carries every browser stream of a machine. The hub builds frames for
the agent on four paths: re-framed browser messages, admin requests, replies to
pings, and the close of a dropped stream. They share a writer with two
byte-bounded halves. A send that has to wait for room is a step that is not yet
enabled. The agent decodes the messages in the order of the writer and leaves
its reader loop at the first one it cannot decode.
-/

set_option autoImplicit false

namespace Term.HubLink
open Term.ByteOrder Term.FrameModel Term.FrameWire Term.Outcome

def hubWriterHiBytes : ℕ := 4*1024*1024
def hubWriterLoBytes : ℕ := 16*1024*1024

/-- One half of the writer. A receiver that is gone leaves it closed. -/
structure BytesQueue where
  cap : ℕ
  items : List Bytes
  closed : Bool
  deriving DecidableEq, Repr

inductive Half where
  | hi | lo
  deriving DecidableEq, Repr

inductive SendResult where
  | queued (q : BytesQueue)
  | refused
  | waiting

namespace BytesQueue

def empty (capBytes : ℕ) : BytesQueue := ⟨min capBytes (2^32-1),[],false⟩

def used (q : BytesQueue) : ℕ := (q.items.map List.length).sum

def send (q : BytesQueue) (bytes : Bytes) : SendResult :=
  if q.cap < bytes.length then .refused
  else if q.closed then .refused
  else if q.used+bytes.length ≤ q.cap then .queued { q with items := q.items++[bytes] }
  else .waiting

end BytesQueue

inductive ReaderEnd where
  | decode (e : FrameError)
  | panic
  deriving DecidableEq, Repr

structure Link where
  hi : BytesQueue
  lo : BytesQueue
  nextStreamId : UInt32
  nextRequestId : UInt32
  streams : List UInt32
  /-- The streams whose proxy loop is running. -/
  proxies : List UInt32
  /-- The streams whose guard was dropped and whose clean-up task has not run. -/
  dropped : List UInt32
  pendingRpcs : List UInt32
  /-- Requests built by `rpc` and not yet sent. -/
  calls : List Frame
  reading : Bool
  /-- The reply the reader loop is sending before it reads on. -/
  pong : Option Frame
  /-- Every message the writer has queued, in order. -/
  enqueued : List Bytes
  /-- Messages handed to the transport and not yet read by the agent. -/
  wire : List Bytes
  /-- How the agent's reader loop ended on a message it could not decode. -/
  agentEnd : Option ReaderEnd
  deriving DecidableEq, Repr

def Link.start : Link where
  hi := .empty hubWriterHiBytes
  lo := .empty hubWriterLoBytes
  nextStreamId := 1
  nextRequestId := 1
  streams := []
  proxies := []
  dropped := []
  pendingRpcs := []
  calls := []
  reading := true
  pong := none
  enqueued := []
  wire := []
  agentEnd := none

def half (ty : FrameType) : Half :=
  match ty with
  | .pasteBegin | .pasteChunk | .pasteEnd => .lo
  | _ => .hi

def Link.queue (s : Link) : Half → BytesQueue
  | .hi => s.hi
  | .lo => s.lo

def Link.setQueue (s : Link) (h : Half) (q : BytesQueue) : Link :=
  match h with
  | .hi => { s with hi := q }
  | .lo => { s with lo := q }

/-- `send_frame`, as one step taken when the send completes. -/
def sendFrame (s : Link) (f : Frame) : Option (Link × Bool) :=
  let encoded := encode f
  match (s.queue (half f.ty)).send encoded with
  | .queued q => some ({ s.setQueue (half f.ty) q with enqueued := s.enqueued++[encoded] },true)
  | .refused => some (s,false)
  | .waiting => none

/-- The loop `let c = fetch_add(1); if c != 0 { break c }`. -/
def allocStreamId (next : UInt32) : UInt32 × UInt32 :=
  if next ≠ 0 then (next,next+1) else (next+1,next+2)

def openStream (s : Link) : Link :=
  let (id,next) := allocStreamId s.nextStreamId
  { s with
    nextStreamId := next
    streams := if id ∈ s.streams then s.streams else id::s.streams
    proxies := id::s.proxies }

inductive WsMessage where
  | binary (data : Bytes)
  | ping
  | pong
  | text
  | close
  | error
  deriving DecidableEq, Repr

inductive ProxyError where
  | short
  | nonZeroStream (id : UInt32)
  | rejected (e : FrameError)
  | lengthMismatch
  deriving DecidableEq, Repr

def proxyFrame (streamId : UInt32) (data : Bytes) : Outcome ProxyError Body := do
  rejectIf (data.length < headerLen) .short
  let inStream ← u32At data 0
  rejectIf (inStream ≠ 0) (.nonZeroStream inStream)
  let tyByte ← index data 4
  let len ← u32At data 5
  let (ty,len) ← mapErr .rejected (validateHeader streamId tyByte len)
  rejectIf (data.length ≠ headerLen+len.toNat) .lengthMismatch
  let payload ← slice data headerLen data.length
  let f ← mapErr .rejected (fromPayload streamId ty payload)
  return f.body

def endProxy (s : Link) (sid : UInt32) : Link :=
  { s with proxies := s.proxies.erase sid, dropped := sid::s.dropped }

def proxyStep (s : Link) (sid : UInt32) (m : WsMessage) : Option Link :=
  if sid ∉ s.proxies then none else
  match m with
  | .binary data =>
    match proxyFrame sid data with
    | .ok body => (sendFrame s ⟨sid,body⟩).map fun (s,sent) => if sent then s else endProxy s sid
    | .err _ => some (endProxy s sid)
    | .panicked => some (endProxy s sid)
  | .ping | .pong => some s
  | .text | .close | .error => some (endProxy s sid)

def guardDrop (s : Link) (sid : UInt32) : Option Link :=
  if sid ∉ s.dropped then none else
  (sendFrame { s with streams := s.streams.erase sid, dropped := s.dropped.erase sid }
    (Frame.close sid)).map Prod.fst

def beginRpc (s : Link) (build : UInt32 → Frame) : Link :=
  { s with
    nextRequestId := s.nextRequestId+1
    pendingRpcs := s.nextRequestId::s.pendingRpcs
    calls := s.calls++[build s.nextRequestId] }

def requestId (f : Frame) : Option UInt32 :=
  match f.body with
  | .listSessions rid => some rid
  | .killSession rid _ => some rid
  | _ => none

def sendCall (s : Link) (f : Frame) : Option Link :=
  if f ∉ s.calls then none else
  (sendFrame { s with calls := s.calls.erase f } f).map fun (s,sent) =>
    if sent then s
    else { s with pendingRpcs := s.pendingRpcs.filter fun rid => requestId f ≠ some rid }

def handleAgentFrame (s : Link) (f : Frame) : Link :=
  if f.streamId = 0 then
    match f.body with
    | .ping p => { s with pong := some (Frame.pong p) }
    | .pong _ => s
    | .sessionList rid _ => { s with pendingRpcs := s.pendingRpcs.erase rid }
    | .killSessionAck rid _ => { s with pendingRpcs := s.pendingRpcs.erase rid }
    | _ => { s with reading := false }
  else s

def readAgent (s : Link) (data : Bytes) : Option Link :=
  if s.reading = false ∨ s.pong.isSome then none else
  match frameFromWsPayload data with
  | .ok (f,_) => some (handleAgentFrame s f)
  | _ => some { s with reading := false }

def sendPong (s : Link) : Option Link :=
  s.pong.bind fun f => (sendFrame { s with pong := none } f).map Prod.fst

/-- `PrioRx::recv` and the transport write: the high half first. -/
def writerStep (s : Link) : Option Link :=
  match s.hi.items, s.lo.items with
  | b::rest, _ => some { s with hi := { s.hi with items := rest }, wire := s.wire++[b] }
  | [], b::rest => some { s with lo := { s.lo with items := rest }, wire := s.wire++[b] }
  | [], [] => none

def agentRead (s : Link) : Option Link :=
  match s.agentEnd, s.wire with
  | none, b::rest =>
    match frameFromWsPayload b with
    | .ok _ => some { s with wire := rest }
    | .err e => some { s with wire := rest, agentEnd := some (.decode e) }
    | .panicked => some { s with wire := rest, agentEnd := some .panic }
  | _, _ => none

inductive Act where
  | openStream
  | browser (sid : UInt32) (m : WsMessage)
  /-- The agent-to-browser half of the proxy ended first. -/
  | browserGone (sid : UInt32)
  | guardDrop (sid : UInt32)
  | listSessions
  | killSession (sessionId : String)
  | sendCall (f : Frame)
  | callTimeout (rid : UInt32)
  | agentFrame (data : Bytes)
  | sendPong
  | writer
  | agentRead
  /-- A browser stream overflowed and lost its sender. -/
  | reset (sid : UInt32)
  | teardown
  deriving DecidableEq, Repr

def step (s : Link) : Act → Option Link
  | .openStream => some (openStream s)
  | .browser sid m => proxyStep s sid m
  | .browserGone sid => if sid ∈ s.proxies then some (endProxy s sid) else none
  | .guardDrop sid => guardDrop s sid
  | .listSessions => some (beginRpc s Frame.listSessions)
  | .killSession sessionId => some (beginRpc s fun rid => Frame.killSession rid sessionId)
  | .sendCall f => sendCall s f
  | .callTimeout rid => some { s with pendingRpcs := s.pendingRpcs.erase rid }
  | .agentFrame data => readAgent s data
  | .sendPong => sendPong s
  | .writer => writerStep s
  | .agentRead => agentRead s
  | .reset sid => some { s with streams := s.streams.erase sid }
  | .teardown =>
    some { s with
      reading := false
      streams := []
      hi := { s.hi with items := [], closed := true }
      lo := { s.lo with items := [], closed := true } }

end Term.HubLink
