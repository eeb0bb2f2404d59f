import TermMux.HubLinkFrames
import TermMux.PasteClient
import TermMux.Utf16Text

/-!
# The frames of the web client

The browser has its own encoders for the wire format. A frame is a call of one of them,
with the arguments the tab has at that point; next to its message stands the body it is
meant to carry. The hub's proxy takes every message of a user action for the intended body,
except the keyboard input: xterm may hand over a whole clipboard as one string, and it is sent
as one frame.
-/

set_option autoImplicit false

namespace Term.WebFrames
open Term.ByteOrder Term.FrameCodec Term.FrameModel Term.FrameWire Term.HubLink Term.HubLinkFrames
  Term.Outcome Term.PasteClient Term.Utf16Text Term.Utf8Text

/-- `(n >>> k) & 0xff`, on the low 32 bits of a number. -/
def byteAt (n k : ℕ) : UInt8 := UInt8.ofNat (((n%2^32)>>>k)&&&0xff)

def writeU32BE (n : ℕ) : Bytes := [byteAt n 24,byteAt n 16,byteAt n 8,byteAt n 0]

def writeU64BE (n : ℕ) : Bytes :=
  let hi := (n>>>32)&&&0xffffffff
  let lo := n&&&0xffffffff
  writeU32BE hi++writeU32BE lo

def writeU16BE (n : ℕ) : Bytes := [byteAt n 8,byteAt n 0]

def encodeFrame (type : UInt8) (payload : Bytes) : Bytes :=
  [0,0,0,0]++type::(writeU32BE payload.length++payload)

def frameData : UInt8 := 0
def frameResize : UInt8 := 1
def frameOpen : UInt8 := 2
def framePasteBegin : UInt8 := 7
def framePasteChunk : UInt8 := 8
def framePasteEnd : UInt8 := 9
def frameAcquireControl : UInt8 := 14
def frameReleaseControl : UInt8 := 15
def frameTakeControl : UInt8 := 16

def encodeData (bytes : Bytes) : Bytes := encodeFrame frameData bytes

def encodeResize (rows cols : ℕ) : Bytes := encodeFrame frameResize (writeU16BE rows++writeU16BE cols)

def encodeOpen (sessionId : Units) (rows cols : ℕ) : Bytes :=
  encodeFrame frameOpen (textEncode sessionId++(writeU16BE rows++writeU16BE cols))

def encodeControlOnly (type : UInt8) : Bytes := encodeFrame type []

def encodePasteBegin (pasteId totalSize groupId groupSize : ℕ) (name : Units) : Bytes :=
  let nameBytes := (textEncode name).take maxPasteNameLen
  encodeFrame framePasteBegin (writeU32BE pasteId++(writeU64BE totalSize++(writeU32BE groupId++
    (writeU32BE groupSize++(UInt8.ofNat nameBytes.length::nameBytes)))))

def encodePasteChunk (pasteId : ℕ) (bytes : Bytes) : Bytes :=
  encodeFrame framePasteChunk (writeU32BE pasteId++bytes)

def encodePasteEnd (pasteId : ℕ) (status : UInt8) : Bytes :=
  encodeFrame framePasteEnd (writeU32BE pasteId++[status])

def isNameUnit (u : UInt16) : Bool :=
  (0x41 ≤ u && u ≤ 0x5A) || (0x61 ≤ u && u ≤ 0x7A) || (0x30 ≤ u && u ≤ 0x39) || u == 0x2E ||
    u == 0x5F || u == 0x2D

/-- What `.` of a regular expression does not match. -/
def isLineTerminator (u : UInt16) : Bool := u == 0x0A || u == 0x0D || u == 0x2028 || u == 0x2029

/-- `name.replace(/^.*[\\/]/, '')`: up to the last slash of the first line. -/
def stripPath (name : Units) : Units :=
  let line := name.takeWhile fun u => !isLineTerminator u
  let tail := line.reverse.takeWhile fun u => u != 0x5C && u != 0x2F
  if tail.length = line.length then name else name.drop (line.length-tail.length)

def sanitizePasteName (name : Units) : Units :=
  if name = [] then []
  else
    let s := (stripPath name).map fun u => if isNameUnit u then u else 0x5F
    (s.dropWhile fun u => u == 0x2E || u == 0x2D).take 200

structure Blob where
  name : Units
  type : Units
  bytes : Bytes
  deriving DecidableEq, Repr

def Blob.size (b : Blob) : ℕ := b.bytes.length

def defaultNameForBlob (b : Blob) : Units :=
  if b.name ≠ [] then b.name
  else
    let ext := ([("image/png","png"),("image/jpeg","jpg"),("image/gif","gif"),("image/webp","webp"),
      ("image/bmp","bmp"),("application/pdf","pdf"),("text/plain","txt")].find? fun e =>
        units e.1 = b.type).elim "bin" Prod.snd
    units "paste."++units ext

def slices (b : Blob) (offset : ℕ) : List Bytes :=
  if offset < b.size then
    let stop := min (offset+maxPasteChunkBytes) b.size
    (b.bytes.take stop).drop offset::slices b stop
  else []
termination_by b.size-offset
decreasing_by
  simp only [maxPasteChunkBytes]
  omega

/-- A call of an encoder, its message handed to `ws.send`. -/
inductive Call where
  | open_ (sessionId : Units) (rows cols : ℕ)
  | resize (rows cols : ℕ)
  | data (str : Units)
  | controlOnly (type : UInt8)
  | pasteBegin (pasteId : UInt32) (size groupId groupSize : ℕ) (name : Units)
  | pasteChunk (pasteId : UInt32) (bytes : Bytes)
  | pasteEnd (pasteId : UInt32) (status : UInt8)
  deriving DecidableEq, Repr

def Call.message : Call → Bytes
  | .open_ sessionId rows cols => encodeOpen sessionId rows cols
  | .resize rows cols => encodeResize rows cols
  | .data str => encodeData (textEncode str)
  | .controlOnly type => encodeControlOnly type
  | .pasteBegin pasteId size groupId groupSize name =>
    encodePasteBegin pasteId.toNat size groupId groupSize name
  | .pasteChunk pasteId bytes => encodePasteChunk pasteId.toNat bytes
  | .pasteEnd pasteId status => encodePasteEnd pasteId.toNat status

structure Tab where
  sessionId : Units
  rows : ℕ
  cols : ℕ
  hidden : Bool
  /-- The socket is there and open. -/
  connected : Bool
  controllerStatus : UInt8
  lastGroupId : UInt32
  deriving DecidableEq, Repr

def nextGroupId (last : UInt32) : UInt32 := if last+1 = 0 then 1 else last+1

/-- How far the upload of a file gets: to its end, or some slices, after which it is left
without an end or a read fails. -/
inductive Fate where
  | done
  | left (slices : ℕ)
  | failed (slices : ℕ)
  deriving DecidableEq, Repr

structure Turn where
  lastPasteId : UInt32
  fate : Fate
  deriving DecidableEq, Repr

def sendPasteFile (b : Blob) (groupId groupSize : ℕ) (turn : Turn) : List Call :=
  if maxPasteTotalBytes < b.size then []
  else
    let name := sanitizePasteName (defaultNameForBlob b)
    let pasteId := nextPasteId turn.lastPasteId
    .pasteBegin pasteId b.size groupId groupSize name::
      match turn.fate with
      | .done => (slices b 0).map (.pasteChunk pasteId)++[.pasteEnd pasteId pasteStatusOk]
      | .left n => ((slices b 0).take n).map (.pasteChunk pasteId)
      | .failed n =>
        ((slices b 0).take n).map (.pasteChunk pasteId)++[.pasteEnd pasteId pasteStatusCancel]

/-- The loop of `sendPasteFiles`; it ends early when the group is aborted and there are no turns
left. -/
def sendEach (groupId groupSize : ℕ) : List Blob → List Turn → List Call
  | b::files, turn::turns =>
    sendPasteFile b groupId groupSize turn++sendEach groupId groupSize files turns
  | _, _ => []

def sendPasteFiles (tab : Tab) (files : List Blob) (turns : List Turn) : List Call :=
  if files = [] then []
  else if tab.controllerStatus ≠ controllerStatusSelf then []
  else if maxPasteTotalBytes < (files.map Blob.size).sum then []
  else sendEach (nextGroupId tab.lastGroupId).toNat files.length files turns

inductive UserAction where
  /-- The socket of the tab opens. -/
  | opened
  | resized (rows cols : ℕ)
  | shown
  | ctrlBtn
  | onData (str : Units)
  | pasted (files : List Blob) (turns : List Turn)
  deriving DecidableEq, Repr

def sendResizeIfReady (tab : Tab) : List Call :=
  if tab.hidden ∨ tab.connected = false then [] else [.resize tab.rows tab.cols]

def calls (tab : Tab) : UserAction → List Call
  | .opened =>
    let rows := if tab.rows = 0 then 24 else tab.rows
    let cols := if tab.cols = 0 then 80 else tab.cols
    .open_ tab.sessionId rows cols::sendResizeIfReady { tab with connected := true }
  | .resized rows cols => if tab.connected then [.resize rows cols] else []
  | .shown => sendResizeIfReady tab
  | .ctrlBtn =>
    if tab.connected = false then []
    else if tab.controllerStatus = controllerStatusNone then [.controlOnly frameAcquireControl]
    else if tab.controllerStatus = controllerStatusSelf then [.controlOnly frameReleaseControl]
    else if tab.controllerStatus = controllerStatusOther then [.controlOnly frameTakeControl]
    else []
  | .onData str => if tab.connected then [.data str] else []
  | .pasted files turns => if tab.connected then sendPasteFiles tab files turns else []

/-- The body a call is meant to carry: the fields are the arguments, as numbers and as text. -/
def Call.Carried : Call → Body → Prop
  | .open_ sessionId rows cols, .open_ id size =>
    id = text sessionId ∧ size.1.toNat = rows ∧ size.2.toNat = cols
  | .resize rows cols, .resize rows' cols' => rows'.toNat = rows ∧ cols'.toNat = cols
  | .data str, .data bytes => bytes = textEncode str
  | .controlOnly type, .acquireControl => type = frameAcquireControl
  | .controlOnly type, .releaseControl => type = frameReleaseControl
  | .controlOnly type, .takeControl => type = frameTakeControl
  | .pasteBegin pasteId size groupId groupSize name, .pasteBegin id size' groupId' groupSize' name' =>
    id = pasteId ∧ size'.toNat = size ∧ groupId'.toNat = groupId ∧ groupSize'.toNat = groupSize ∧
      name' = text name
  | .pasteChunk pasteId bytes, .pasteChunk id bytes' => id = pasteId ∧ bytes' = bytes
  | .pasteEnd pasteId status, .pasteEnd id status' => id = pasteId ∧ status' = status
  | _, _ => False

def Taken (streamId : UInt32) (c : Call) : Prop :=
  ∃ body, proxyFrame streamId c.message = .ok body ∧ c.Carried body

def isSessionUnit (u : UInt16) : Bool :=
  (0x41 ≤ u && u ≤ 0x5A) || (0x61 ≤ u && u ≤ 0x7A) || (0x30 ≤ u && u ≤ 0x39) || u == 0x5F ||
    u == 0x2D

def sessionIdRe (s : Units) : Bool := 1 ≤ s.length && s.length ≤ 64 && s.all isSessionUnit

def Geometry (rows cols : ℕ) : Prop := rows < 2^16 ∧ cols < 2^16

instance (rows cols : ℕ) : Decidable (Geometry rows cols) := inferInstanceAs (Decidable (_ ∧ _))

def Tab.Valid (tab : Tab) : Prop := sessionIdRe tab.sessionId = true ∧ Geometry tab.rows tab.cols

def UserAction.Valid : UserAction → Prop
  | .resized rows cols => Geometry rows cols
  | .pasted files _ => files.length < 2^32
  | _ => True

def Fits (tab : Tab) : UserAction → Prop
  | .onData str => tab.connected = true → (textEncode str).length ≤ maxDataLen
  | _ => True

section Encoders

theorem byteAt_eq (n k : ℕ) : byteAt n k = UInt8.ofNat (n%2^32/2^k) := by
  apply UInt8.toNat_inj.mp
  simp only [byteAt, Nat.shiftRight_eq_div_pow, show (0xff : ℕ) = 2^8-1 from rfl,
    Nat.and_two_pow_sub_one_eq_mod, UInt8.toNat_ofNat']
  omega

theorem writeU32BE_eq (n : ℕ) : writeU32BE n = be32 (UInt32.ofNat n) := by
  simp [writeU32BE, byteAt_eq, be32, beBytes]

theorem writeU16BE_eq (n : ℕ) : writeU16BE n = be16 (UInt16.ofNat n) := by
  simp only [writeU16BE, byteAt_eq, be16, beBytes, UInt16.toNat_ofNat']
  congr 1
  · apply UInt8.toNat_inj.mp
    simp only [UInt8.toNat_ofNat']
    omega
  · congr 1
    apply UInt8.toNat_inj.mp
    simp only [UInt8.toNat_ofNat']
    omega

theorem writeU64BE_eq (n : ℕ) : writeU64BE n = be64 (UInt64.ofNat n) := by
  have hmask : (0xffffffff : ℕ) = 2^32-1 := rfl
  have hhi : n/2^32%2^32%2^32 = n%2^64/256^4 := by omega
  have hlo : n%2^64 = n%2^64/2^32*256^4+n%2^32%2^32 := by omega
  simp only [writeU64BE, writeU32BE_eq, be32, be64, UInt32.toNat_ofNat', UInt64.toNat_ofNat', hmask,
    Nat.and_two_pow_sub_one_eq_mod, Nat.shiftRight_eq_div_pow]
  rw [beBytes_append 4 4, ← hhi, hlo, beBytes_mod]

theorem encodeFrame_eq (type : UInt8) (p : Bytes) :
    encodeFrame type p = be32 0++(type::(be32 (asU32 p.length)++p)) := by
  rw [encodeFrame, writeU32BE_eq]
  rfl

theorem proxyFrame_encode {streamId : UInt32} {body : Body} (h : WellFormed ⟨streamId,body⟩) :
    proxyFrame streamId (encodeFrame body.ty.code (payload body)) = .ok body := by
  obtain ⟨hscope,hbody⟩ := h
  have hlen := payload_lenOk body hbody
  have hcut := asU32_toNat hlen
  have hparsed : fromPayload streamId body.ty (payload body) = .ok ⟨streamId,body⟩ :=
    (fromPayload_eq_ok hscope hlen).mpr ⟨rfl,rfl,⟨hscope,hbody⟩,rfl⟩
  rw [encodeFrame_eq]
  simp only [proxyFrame, header_length, header_slice, header_len, bind_eq_ok, rejectIf_eq_ok,
    u32At_be32, ok_bind, index_skip32, index_cons, pure_eq_ok, Prod.exists, mapErr_eq_ok,
    validateHeader_eq_ok, exists_const]
  refine ⟨by omega,by simp,body.ty,_,⟨rfl,rfl,hscope,?_⟩,by omega,_,hparsed,rfl⟩
  rw [hcut]
  exact hlen

end Encoders

def Call.Ok : Call → Prop
  | .open_ sessionId rows cols => SessionId (text sessionId) ∧ Geometry rows cols
  | .resize rows cols => Geometry rows cols
  | .data str => (textEncode str).length ≤ maxDataLen
  | .controlOnly type =>
    type = frameAcquireControl ∨ type = frameReleaseControl ∨ type = frameTakeControl
  | .pasteBegin _ size groupId groupSize name => size ≤ maxPasteTotalBytes ∧ groupId < 2^32 ∧
      0 < groupSize ∧ groupSize < 2^32 ∧ (textEncode name).length ≤ maxPasteNameLen
  | .pasteChunk _ bytes => bytes.length ≤ maxPasteChunkBytes
  | .pasteEnd _ status => status = pasteStatusOk ∨ status = pasteStatusCancel

section Calls
variable {streamId : UInt32} {c : Call}

/-- A message that encodes a good body is taken for that body. -/
theorem taken_of_body {body : Body} (hbody : BodyOk body) (hcontrol : ¬IsControl body.ty)
    (hs : streamId ≠ 0) (hmsg : c.message = encodeFrame body.ty.code (payload body))
    (hc : c.Carried body) : Taken streamId c := by
  have hwf : WellFormed ⟨streamId,body⟩ := by
    refine ⟨?_,hbody⟩
    change (if IsControl body.ty then streamId = 0 else streamId ≠ 0)
    rw [if_neg hcontrol]
    exact hs
  exact ⟨body,by rw [hmsg, proxyFrame_encode hwf],hc⟩

theorem taken_of_ok (hs : streamId ≠ 0) (h : c.Ok) : Taken streamId c := by
  cases c with
  | open_ sessionId rows cols =>
    obtain ⟨hid,hrows,hcols⟩ := h
    have hbody : BodyOk (.open_ (text sessionId) (UInt16.ofNat rows,UInt16.ofNat cols)) := hid
    refine taken_of_body hbody not_false hs ?_
      ⟨rfl,UInt16.toNat_ofNat_of_lt' hrows,UInt16.toNat_ofNat_of_lt' hcols⟩
    simp only [Call.message, encodeOpen, writeU16BE_eq]
    rfl
  | resize rows cols =>
    obtain ⟨hrows,hcols⟩ := h
    have hbody : BodyOk (.resize (UInt16.ofNat rows) (UInt16.ofNat cols)) := trivial
    refine taken_of_body hbody not_false hs ?_
      ⟨UInt16.toNat_ofNat_of_lt' hrows,UInt16.toNat_ofNat_of_lt' hcols⟩
    simp only [Call.message, encodeResize, writeU16BE_eq]
    rfl
  | data str =>
    have hbody : BodyOk (.data (textEncode str)) := h
    exact taken_of_body hbody not_false hs rfl rfl
  | controlOnly type =>
    rcases h with rfl | rfl | rfl
    · have hbody : BodyOk .acquireControl := trivial
      exact taken_of_body hbody not_false hs rfl rfl
    · have hbody : BodyOk .releaseControl := trivial
      exact taken_of_body hbody not_false hs rfl rfl
    · have hbody : BodyOk .takeControl := trivial
      exact taken_of_body hbody not_false hs rfl rfl
  | pasteBegin pasteId size groupId groupSize name =>
    obtain ⟨hsize,hgroup,hpos,hlt,hname⟩ := h
    have hlt64 : size < 2^64 := by
      simp only [maxPasteTotalBytes] at hsize
      omega
    have hbody : BodyOk (.pasteBegin pasteId (UInt64.ofNat size) (UInt32.ofNat groupId)
        (UInt32.ofNat groupSize) (text name)) := by
      refine ⟨by rw [UInt64.toNat_ofNat_of_lt' hlt64]; exact hsize,?_,hname⟩
      intro h0
      have hzero := congrArg UInt32.toNat h0
      rw [UInt32.toNat_ofNat_of_lt' hlt] at hzero
      exact absurd hzero hpos.ne'
    refine taken_of_body hbody not_false hs ?_ ⟨rfl,UInt64.toNat_ofNat_of_lt' hlt64,
      UInt32.toNat_ofNat_of_lt' hgroup,UInt32.toNat_ofNat_of_lt' hlt,rfl⟩
    rw [payload_pasteBegin_of_le _ _ _ _ hname]
    simp only [Call.message, encodePasteBegin, writeU32BE_eq, writeU64BE_eq, UInt32.ofNat_toNat,
      List.take_of_length_le hname]
    rfl
  | pasteChunk pasteId bytes =>
    have hbody : BodyOk (.pasteChunk pasteId bytes) := h
    refine taken_of_body hbody not_false hs ?_ ⟨rfl,rfl⟩
    simp only [Call.message, encodePasteChunk, writeU32BE_eq, UInt32.ofNat_toNat]
    rfl
  | pasteEnd pasteId status =>
    have hbody : BodyOk (.pasteEnd pasteId status) := h
    refine taken_of_body hbody not_false hs ?_ ⟨rfl,rfl⟩
    simp only [Call.message, encodePasteEnd, writeU32BE_eq, UInt32.ofNat_toNat]
    rfl

/-- What is taken is well formed, so the frame of a string is taken only within the limit. -/
theorem data_fits {str : Units} (h : Taken streamId (.data str)) :
    (textEncode str).length ≤ maxDataLen := by
  obtain ⟨body,hproxy,hc⟩ := h
  have hbody := (proxyFrame_wellFormed hproxy).2
  cases body with
  | data bytes =>
    cases hc
    exact hbody
  | _ => cases hc

end Calls

section Names

theorem ascii_of_isNameUnit {u : UInt16} (h : isNameUnit u = true) : u < 0x80 := by
  simp only [isNameUnit, Bool.or_eq_true, Bool.and_eq_true, decide_eq_true_eq, beq_iff_eq,
    UInt16.le_iff_toNat_le, ← UInt16.toNat_inj] at h
  rw [UInt16.lt_iff_toNat_lt]
  simp at h ⊢
  omega

theorem ascii_of_isSessionUnit {u : UInt16} (h : isSessionUnit u = true) :
    u < 0x80 ∧ isSessionIdByte u.toUInt8 = true := by
  have hname : isNameUnit u = true := by
    simp only [isSessionUnit, isNameUnit, Bool.or_eq_true] at h ⊢
    tauto
  have hlt := ascii_of_isNameUnit hname
  have hall : ∀ n < 128, isSessionUnit (UInt16.ofNat n) = true →
      isSessionIdByte (UInt16.ofNat n).toUInt8 = true := by
    decide
  refine ⟨hlt,?_⟩
  rw [← UInt16.ofNat_toNat (x := u)] at h ⊢
  exact hall u.toNat (by simpa [UInt16.lt_iff_toNat_lt] using hlt) h

/-- What the regular expression of the client lets through is a session id. -/
theorem sessionId_of_re {s : Units} (h : sessionIdRe s = true) : SessionId (text s) := by
  simp only [sessionIdRe, Bool.and_eq_true, decide_eq_true_eq, List.all_eq_true] at h
  obtain ⟨⟨hpos,hlen⟩,hall⟩ := h
  have hbytes : asBytes (text s) = s.map UInt16.toUInt8 :=
    textEncode_ascii fun u hu => (ascii_of_isSessionUnit (hall u hu)).1
  refine ⟨by rw [hbytes, List.length_map]; exact hpos,by rw [hbytes, List.length_map]; exact hlen,?_⟩
  intro b hb
  rw [hbytes] at hb
  obtain ⟨u,hu,rfl⟩ := List.mem_map.mp hb
  exact (isSessionIdByte_iff _).mp (ascii_of_isSessionUnit (hall u hu)).2

/-- A sanitized name is short seven-bit text, so the encoder does not cut it. -/
theorem sanitizePasteName_length (name : Units) :
    (textEncode (sanitizePasteName name)).length ≤ maxPasteNameLen := by
  have hall : ∀ u ∈ sanitizePasteName name, u < 0x80 := by
    intro u hu
    unfold sanitizePasteName at hu
    split at hu
    · cases hu
    · have hmem := (List.dropWhile_sublist _).mem (List.mem_of_mem_take hu)
      obtain ⟨v,-,rfl⟩ := List.mem_map.mp hmem
      split
      · next hv => exact ascii_of_isNameUnit hv
      · decide
  have hlen : (sanitizePasteName name).length ≤ 200 := by
    unfold sanitizePasteName
    split
    · exact Nat.zero_le _
    · exact List.length_take_le _ _
  rw [textEncode_ascii hall, List.length_map]
  exact Nat.le_trans hlen (by decide)

theorem slices_length {b : Blob} {offset : ℕ} {bytes : Bytes} (h : bytes ∈ slices b offset) :
    bytes.length ≤ maxPasteChunkBytes := by
  fun_induction slices b offset with
  | case1 offset hlt stop ih =>
    rcases List.mem_cons.mp h with rfl | hrest
    · simp only [List.length_drop, List.length_take, stop]
      omega
    · exact ih hrest
  | case2 offset hlt => cases h

end Names

theorem sendPasteFile_ok {b : Blob} {groupId groupSize : ℕ} {turn : Turn} (hgroup : groupId < 2^32)
    (hpos : 0 < groupSize) (hlt : groupSize < 2^32) :
    ∀ c ∈ sendPasteFile b groupId groupSize turn, c.Ok := by
  have hchunks : ∀ pasteId, ∀ c ∈ (slices b 0).map (Call.pasteChunk pasteId), c.Ok := by
    intro pasteId c hc
    obtain ⟨bytes,hbytes,rfl⟩ := List.mem_map.mp hc
    exact slices_length hbytes
  have hsome : ∀ pasteId n, ∀ c ∈ ((slices b 0).take n).map (Call.pasteChunk pasteId), c.Ok := by
    intro pasteId n c hc
    rw [List.map_take] at hc
    exact hchunks pasteId c (List.mem_of_mem_take hc)
  intro c hc
  unfold sendPasteFile at hc
  split at hc
  · cases hc
  next hsize =>
  rcases List.mem_cons.mp hc with rfl | hc
  · exact ⟨not_lt.mp hsize,hgroup,hpos,hlt,sanitizePasteName_length _⟩
  · cases hf : turn.fate with
    | done =>
      simp only [hf] at hc
      rcases List.mem_append.mp hc with hc | hc
      · exact hchunks _ c hc
      · cases List.mem_singleton.mp hc
        exact .inl rfl
    | left n =>
      simp only [hf] at hc
      exact hsome _ n c hc
    | failed n =>
      simp only [hf] at hc
      rcases List.mem_append.mp hc with hc | hc
      · exact hsome _ n c hc
      · cases List.mem_singleton.mp hc
        exact .inr rfl

theorem sendEach_ok {groupId groupSize : ℕ} (hgroup : groupId < 2^32) (hpos : 0 < groupSize)
    (hlt : groupSize < 2^32) (files : List Blob) (turns : List Turn) :
    ∀ c ∈ sendEach groupId groupSize files turns, c.Ok := by
  induction files generalizing turns with
  | nil => simp [sendEach]
  | cons b files ih =>
    cases turns with
    | nil => simp [sendEach]
    | cons turn turns =>
      intro c hc
      rcases List.mem_append.mp hc with hc | hc
      · exact sendPasteFile_ok hgroup hpos hlt c hc
      · exact ih turns c hc

theorem sendPasteFiles_ok {tab : Tab} {files : List Blob} {turns : List Turn}
    (hlen : files.length < 2^32) : ∀ c ∈ sendPasteFiles tab files turns, c.Ok := by
  unfold sendPasteFiles
  split_ifs with hnil
  · simp
  · simp
  · simp
  · exact sendEach_ok (UInt32.toNat_lt _) (List.length_pos_of_ne_nil hnil) hlen files turns

theorem calls_ok {tab : Tab} {action : UserAction} (htab : tab.Valid) (hact : action.Valid)
    (hfits : Fits tab action) : ∀ c ∈ calls tab action, c.Ok := by
  obtain ⟨hid,hgeo⟩ := htab
  have hresize : ∀ connected, ∀ c ∈ sendResizeIfReady { tab with connected := connected }, c.Ok := by
    intro connected c hc
    unfold sendResizeIfReady at hc
    split at hc
    · cases hc
    · cases List.mem_singleton.mp hc
      exact hgeo
  cases action with
  | opened =>
    intro c hc
    rcases List.mem_cons.mp hc with rfl | hc
    · refine ⟨sessionId_of_re hid,?_⟩
      obtain ⟨hrows,hcols⟩ := hgeo
      constructor
      · split <;> omega
      · split <;> omega
    · exact hresize true c hc
  | resized rows cols =>
    intro c hc
    simp only [calls] at hc
    split at hc
    · cases List.mem_singleton.mp hc
      exact hact
    · cases hc
  | shown => exact hresize tab.connected
  | ctrlBtn =>
    intro c hc
    simp only [calls] at hc
    split_ifs at hc
    · cases hc
    · cases List.mem_singleton.mp hc
      exact .inl rfl
    · cases List.mem_singleton.mp hc
      exact .inr (.inl rfl)
    · cases List.mem_singleton.mp hc
      exact .inr (.inr rfl)
    · cases hc
  | onData str =>
    intro c hc
    simp only [calls] at hc
    split at hc
    · next hconn =>
      cases List.mem_singleton.mp hc
      exact hfits hconn
    · cases hc
  | pasted files turns =>
    intro c hc
    simp only [calls] at hc
    split at hc
    · exact sendPasteFiles_ok hact c hc
    · cases hc

/-- The proxy of every stream takes every frame of a user action for what it is meant to be, if
and only if the string that xterm delivers fits a frame. -/
theorem frames_taken_iff (tab : Tab) (action : UserAction) (nextStreamId : UInt32)
    (htab : tab.Valid) (hact : action.Valid) :
    (∀ c ∈ calls tab action, Taken (allocStreamId nextStreamId).1 c) ↔ Fits tab action := by
  constructor
  · intro htaken
    cases action with
    | onData str =>
      intro hconn
      refine data_fits (htaken (.data str) ?_)
      simp [calls, hconn]
    | _ => trivial
  · intro hfits c hc
    exact taken_of_ok (allocStreamId_ne_zero nextStreamId) (calls_ok htab hact hfits c hc)

def mainTab : Tab := ⟨units "main",24,80,false,true,controllerStatusSelf,0⟩

theorem main_tab_valid : mainTab.Valid := ⟨by decide +kernel,by decide⟩

def pasteNote : UserAction := .pasted [⟨units "note.txt",[],[0x68,0x69]⟩] [⟨0,.done⟩]

theorem paste_note_taken : (calls mainTab pasteNote).length = 3 ∧
    ∀ c ∈ calls mainTab pasteNote, Taken (allocStreamId 1).1 c := by
  have hvalid : pasteNote.Valid := show 1 < 2^32 by decide
  refine ⟨?_,(frames_taken_iff mainTab pasteNote 1 main_tab_valid hvalid).mpr trivial⟩
  have hslices : slices ⟨units "note.txt",[],[0x68,0x69]⟩ 0 = [[0x68,0x69]] := by
    unfold slices
    unfold slices
    simp [Blob.size, maxPasteChunkBytes]
  simp [calls, pasteNote, mainTab, sendPasteFiles, sendEach, sendPasteFile, hslices, Blob.size,
    maxPasteTotalBytes]

def longPaste : UserAction := .onData (List.replicate (maxDataLen+1) 0x61)

theorem long_paste_not_taken : mainTab.Valid ∧ longPaste.Valid ∧
    ¬∀ c ∈ calls mainTab longPaste, Taken (allocStreamId 1).1 c := by
  refine ⟨main_tab_valid,trivial,fun htaken => ?_⟩
  have hfits := data_fits (htaken (.data (List.replicate (maxDataLen+1) 0x61)) (by
    simp [calls, longPaste, mainTab]))
  have hascii : ∀ u ∈ List.replicate (maxDataLen+1) (0x61 : UInt16), u < 0x80 := by
    intro u hu
    rw [List.eq_of_mem_replicate hu]
    decide
  rw [textEncode_ascii hascii, List.length_map, List.length_replicate] at hfits
  exact absurd hfits (Nat.not_succ_le_self _)

end Term.WebFrames
