import TermMux.FrameWire

/-!
# Exactness of the wire codec

`WellFormed` says which frames the protocol has, without reference to either
direction of the codec. The decoder accepts exactly the encodings of the
well-formed frames: nothing shorter, nothing longer, and no second spelling of
a frame. The proof follows the layouts, one parser equation for each.
-/

set_option autoImplicit false

namespace Term.FrameCodec
open Term.ByteOrder Term.Utf8Text Term.FrameModel Term.Outcome Term.FrameWire

/-- A byte of `[A-Za-z0-9_-]`. -/
def SessionIdByte (b : UInt8) : Prop :=
  ('A'.toUInt8 ≤ b ∧ b ≤ 'Z'.toUInt8) ∨ ('a'.toUInt8 ≤ b ∧ b ≤ 'z'.toUInt8) ∨
    ('0'.toUInt8 ≤ b ∧ b ≤ '9'.toUInt8) ∨ b = '_'.toUInt8 ∨ b = '-'.toUInt8

instance : DecidablePred SessionIdByte := fun b =>
  inferInstanceAs (Decidable (_ ∨ _ ∨ _ ∨ b = _ ∨ b = _))

def SessionId (s : String) : Prop :=
  1 ≤ (asBytes s).length ∧ (asBytes s).length ≤ maxSessionIdLen ∧ ∀ b ∈ asBytes s, SessionIdByte b

def IsControl : FrameType → Prop
  | .ping | .pong | .hello | .listSessions | .sessionList | .killSession | .killSessionAck => True
  | _ => False

instance : DecidablePred IsControl
  | .ping | .pong | .hello | .listSessions | .sessionList | .killSession | .killSessionAck =>
    isTrue trivial
  | .data | .resize | .open_ | .close | .pasteBegin | .pasteChunk | .pasteEnd | .pasteReject
  | .downloadBegin | .downloadChunk | .downloadEnd | .acquireControl | .releaseControl
  | .takeControl | .controllerChanged => isFalse not_false

def BodyOk : Body → Prop
  | .data b => b.length ≤ maxDataLen
  | .open_ sessionId _ => SessionId sessionId
  | .ping b | .pong b => b.length ≤ maxPingLen
  | .hello b => 1 ≤ b.length ∧ b.length ≤ maxHelloLen
  | .pasteBegin _ totalSize _ groupSize name => totalSize.toNat ≤ maxPasteTotalBytes ∧
      groupSize ≠ 0 ∧ (asBytes name).length ≤ maxPasteNameLen
  | .pasteChunk _ b | .downloadChunk _ b => b.length ≤ maxPasteChunkBytes
  | .pasteEnd _ status => status = pasteStatusOk ∨ status = pasteStatusCancel
  | .pasteReject _ reason => reason ≤ pasteRejectMaxReason
  | .downloadBegin _ totalSize name => totalSize.toNat ≤ maxPasteTotalBytes ∧
      (asBytes name).length ≤ maxPasteNameLen
  | .downloadEnd _ status => status = downloadStatusOk ∨ status = downloadStatusCancel
  | .controllerChanged status => status ≤ controllerStatusOther
  | .sessionList _ json => json.length ≤ maxSessionListJsonLen
  | .killSession _ sessionId => SessionId sessionId
  | .killSessionAck _ status => status ≤ killStatusMax
  | .resize .. | .close | .acquireControl | .releaseControl | .takeControl | .listSessions _ => True

def Scoped (ty : FrameType) (streamId : UInt32) : Prop :=
  if IsControl ty then streamId = controlStream else streamId ≠ controlStream

def WellFormed (f : Frame) : Prop := Scoped f.ty f.streamId ∧ BodyOk f.body

def LenOk : FrameType → ℕ → Prop
  | .data, n => n ≤ maxDataLen
  | .resize, n => n = 4
  | .open_, n => 5 ≤ n ∧ n ≤ maxOpenLen
  | .close, n | .acquireControl, n | .releaseControl, n | .takeControl, n => n = 0
  | .ping, n | .pong, n => n ≤ maxPingLen
  | .hello, n => n ≠ 0 ∧ n ≤ maxHelloLen
  | .pasteBegin, n => 21 ≤ n ∧ n ≤ maxPasteBeginLen
  | .pasteChunk, n => 4 ≤ n ∧ n ≤ maxPasteChunkLen
  | .pasteEnd, n => n = pasteEndLen
  | .pasteReject, n => n = pasteRejectLen
  | .downloadBegin, n => 13 ≤ n ∧ n ≤ maxDownloadBeginLen
  | .downloadChunk, n => 4 ≤ n ∧ n ≤ maxDownloadChunkLen
  | .downloadEnd, n => n = downloadEndLen
  | .controllerChanged, n => n = controllerChangedLen
  | .listSessions, n => n = listSessionsLen
  | .sessionList, n => 8 ≤ n ∧ n ≤ maxSessionListLen
  | .killSession, n => 5 ≤ n ∧ n ≤ maxKillSessionLen
  | .killSessionAck, n => n = killSessionAckLen

theorem isSessionIdByte_iff (b : UInt8) : isSessionIdByte b = true ↔ SessionIdByte b := by
  have hA : 'A'.toUInt8 = 0x41 := rfl
  have hZ : 'Z'.toUInt8 = 0x5A := rfl
  have ha : 'a'.toUInt8 = 0x61 := rfl
  have hz : 'z'.toUInt8 = 0x7A := rfl
  have h0 : '0'.toUInt8 = 0x30 := rfl
  have h9 : '9'.toUInt8 = 0x39 := rfl
  have hu : '_'.toUInt8 = 0x5F := rfl
  have hd : '-'.toUInt8 = 0x2D := rfl
  simp only [isSessionIdByte, isAsciiAlphanumeric, SessionIdByte, hA, hZ, ha, hz, h0, h9, hu, hd,
    Bool.or_eq_true, Bool.and_eq_true, decide_eq_true_eq, beq_iff_eq]
  tauto

theorem isValidSessionId_iff (s : String) : isValidSessionId s = true ↔ SessionId s := by
  simp only [isValidSessionId, SessionId]
  by_cases h : (asBytes s).length = 0 ∨ maxSessionIdLen < (asBytes s).length
  · rw [if_pos h]
    simp only [Bool.false_eq_true, false_iff]
    rintro ⟨h1,h2,-⟩
    omega
  · rw [if_neg h]
    simp only [List.all_eq_true, isSessionIdByte_iff]
    exact ⟨fun hb => ⟨by omega,by omega,hb⟩,fun hb => hb.2.2⟩

theorem checkLen_eq_ok (streamId : UInt32) (ty : FrameType) (len : UInt32) (u : Unit) :
    checkLen streamId ty len = .ok u ↔ Scoped ty streamId ∧ LenOk ty len.toNat := by
  cases ty <;>
    simp [checkLen, onDataStream, onControlStream, bind_eq_ok, rejectIf_eq_ok, Scoped, IsControl,
      LenOk]

theorem validateHeader_eq_ok (streamId : UInt32) (tyByte : UInt8) (len len' : UInt32)
    (ty : FrameType) :
    validateHeader streamId tyByte len = .ok (ty,len') ↔
      tyByte = ty.code ∧ len = len' ∧ Scoped ty streamId ∧ LenOk ty len.toNat := by
  simp only [validateHeader, bind_eq_ok, orElse_eq_ok, fromU8_eq_some, checkLen_eq_ok, pure_eq_ok,
    Prod.mk.injEq]
  constructor
  · rintro ⟨ty',hb,-,⟨hs,hl⟩,rfl,rfl⟩
    exact ⟨hb,rfl,hs,hl⟩
  · rintro ⟨hb,rfl,hs,hl⟩
    exact ⟨ty,hb,(),⟨hs,hl⟩,rfl,rfl⟩

/-! The parser on a payload written field by field. -/

theorem parse_open (id : Bytes) (rows cols : UInt16) (body : Body) (h : 1 ≤ id.length) :
    parseBody .open_ (id ++ (be16 rows ++ be16 cols)) = .ok body ↔
      ∃ s, asBytes s = id ∧ SessionId s ∧ .open_ s (rows,cols) = body := by
  have hsub : (sub (id ++ (be16 rows ++ be16 cols)).length 4 : Outcome FrameError ℕ) =
      .ok id.length := by
    simp [sub_eq_ok]
  have hrows : (u16At (id ++ (be16 rows ++ be16 cols)) id.length : Outcome FrameError UInt16) =
      .ok rows := by
    simpa using u16At_append (ε := FrameError) id (be16 rows ++ be16 cols) 0
  have hcols : (u16At (id ++ (be16 rows ++ be16 cols)) (id.length+2) : Outcome FrameError UInt16) =
      .ok cols := by
    have hend := u16At_be16 (ε := FrameError) cols []
    rw [List.append_nil] at hend
    rw [u16At_append, show (2:ℕ) = 0+2 from rfl, u16At_skip16, hend]
  have hlen : ¬(id ++ (be16 rows ++ be16 cols)).length < 5 := by simp; omega
  simp only [parseBody, bind_eq_ok, rejectIf_eq_ok, hsub, hrows, hcols, slice_before _ _ _ rfl,
    orElse_eq_ok, fromUtf8_eq_some, isValidSessionId_iff, pure_eq_ok, Outcome.ok.injEq,
    exists_eq_left', not_not, exists_const, hlen, not_false_eq_true, true_and]

theorem parse_resize (rows cols : UInt16) :
    parseBody .resize (be16 rows ++ be16 cols) = .ok (.resize rows cols) := by
  have hend := u16At_be16 (ε := FrameError) cols []
  rw [List.append_nil] at hend
  have hcols : (u16At (be16 rows ++ be16 cols) 2 : Outcome FrameError UInt16) = .ok cols := by
    rw [show (2:ℕ) = 0+2 from rfl, u16At_skip16, hend]
  simp [parseBody, bind_eq_ok, rejectIf_eq_ok, hcols, pure_eq_ok]

theorem parse_pasteBegin (a : UInt32) (b : UInt64) (c d : UInt32) (n : UInt8) (q : Bytes)
    (body : Body) :
    parseBody .pasteBegin (be32 a ++ (be64 b ++ (be32 c ++ (be32 d ++ (n::q))))) = .ok body ↔
      b.toNat ≤ maxPasteTotalBytes ∧ d ≠ 0 ∧ q.length = n.toNat ∧
        ∃ name, asBytes name = q ∧ .pasteBegin a b c d name = body := by
  have hn := n.toNat_lt
  have hs (e : ℕ) (he : e = 21+q.length) :
      (slice (be32 a ++ (be64 b ++ (be32 c ++ (be32 d ++ (n::q))))) 21 e :
        Outcome FrameError Bytes) = .ok q := by
    have hp : be32 a ++ (be64 b ++ (be32 c ++ (be32 d ++ (n::q)))) =
        (be32 a ++ be64 b ++ be32 c ++ be32 d ++ [n]) ++ q := by simp
    rw [hp]
    exact slice_append _ _ _ _ (by simp) (by simpa using he)
  simp only [parseBody, bind_eq_ok, rejectIf_eq_ok, u32At_be32, u64At_skip32, u64At_be64,
    u32At_skip32, u32At_skip64, index_skip32, index_skip64, index_cons, ok_bind, add_eq_ok,
    orElse_eq_ok, fromUtf8_eq_some, pure_eq_ok, exists_const, not_lt, ne_eq, not_not,
    List.length_append, List.length_cons, be32_length, be64_length]
  constructor
  · rintro ⟨-,hb,hd,_,⟨-,rfl⟩,hl,_,hq,name,hname,hbody⟩
    rw [hs _ (by omega)] at hq
    cases hq
    exact ⟨hb,hd,by omega,name,hname,hbody⟩
  · rintro ⟨hb,hd,hq,name,hname,hbody⟩
    exact ⟨by omega,hb,hd,_,⟨by omega,rfl⟩,by omega,q,hs _ (by omega),name,hname,hbody⟩

theorem parse_downloadBegin (a : UInt32) (b : UInt64) (n : UInt8) (q : Bytes) (body : Body) :
    parseBody .downloadBegin (be32 a ++ (be64 b ++ (n::q))) = .ok body ↔
      b.toNat ≤ maxPasteTotalBytes ∧ q.length = n.toNat ∧
        ∃ name, asBytes name = q ∧ .downloadBegin a b name = body := by
  have hn := n.toNat_lt
  have hs (e : ℕ) (he : e = 13+q.length) :
      (slice (be32 a ++ (be64 b ++ (n::q))) 13 e : Outcome FrameError Bytes) = .ok q := by
    have hp : be32 a ++ (be64 b ++ (n::q)) = (be32 a ++ be64 b ++ [n]) ++ q := by simp
    rw [hp]
    exact slice_append _ _ _ _ (by simp) (by simpa using he)
  simp only [parseBody, bind_eq_ok, rejectIf_eq_ok, u32At_be32, u64At_skip32, u64At_be64,
    index_skip32, index_skip64, index_cons, ok_bind, add_eq_ok, orElse_eq_ok, fromUtf8_eq_some,
    pure_eq_ok, exists_const, not_lt, ne_eq, not_not, List.length_append, List.length_cons,
    be32_length, be64_length]
  constructor
  · rintro ⟨-,hb,_,⟨-,rfl⟩,hl,_,hq,name,hname,hbody⟩
    rw [hs _ (by omega)] at hq
    cases hq
    exact ⟨hb,by omega,name,hname,hbody⟩
  · rintro ⟨hb,hq,name,hname,hbody⟩
    exact ⟨by omega,hb,_,⟨by omega,rfl⟩,by omega,q,hs _ (by omega),name,hname,hbody⟩

theorem parse_killSession (a : UInt32) (n : UInt8) (q : Bytes) (body : Body) :
    parseBody .killSession (be32 a ++ (n::q)) = .ok body ↔
      q.length = n.toNat ∧ ∃ id, asBytes id = q ∧ SessionId id ∧ .killSession a id = body := by
  have hn := n.toNat_lt
  have hs (e : ℕ) (he : e = 5+q.length) :
      (slice (be32 a ++ (n::q)) 5 e : Outcome FrameError Bytes) = .ok q := by
    have hp : be32 a ++ (n::q) = (be32 a ++ [n]) ++ q := by simp
    rw [hp]
    exact slice_append _ _ _ _ (by simp) (by simpa using he)
  simp only [parseBody, bind_eq_ok, rejectIf_eq_ok, u32At_be32, index_skip32, index_cons, ok_bind,
    add_eq_ok, orElse_eq_ok, fromUtf8_eq_some, isValidSessionId_iff, pure_eq_ok, exists_const,
    not_lt, ne_eq, not_not, List.length_append, List.length_cons, be32_length]
  constructor
  · rintro ⟨-,_,⟨-,rfl⟩,hl,_,hq,id,hid,hok,hbody⟩
    rw [hs _ (by omega)] at hq
    cases hq
    exact ⟨by omega,id,hid,hok,hbody⟩
  · rintro ⟨hq,id,hid,hok,hbody⟩
    exact ⟨by omega,_,⟨by omega,rfl⟩,by omega,q,hs _ (by omega),id,hid,hok,hbody⟩

theorem parse_sessionList (a n : UInt32) (q : Bytes) (body : Body) :
    parseBody .sessionList (be32 a ++ (be32 n ++ q)) = .ok body ↔
      n = asU32 q.length ∧ .sessionList a q = body := by
  have hlen : (be32 a ++ (be32 n ++ q)).length = 8+q.length := by simp; omega
  have hs : (slice (be32 a ++ (be32 n ++ q)) 8 (8+q.length) : Outcome FrameError Bytes) =
      .ok q := by
    have hp : be32 a ++ (be32 n ++ q) = (be32 a ++ be32 n) ++ q := by simp
    rw [hp]
    exact slice_append _ _ _ _ (by simp) (by simp)
  have hsub : (sub (8+q.length) 8 : Outcome FrameError ℕ) = .ok q.length := by
    simp [sub_eq_ok]
  simp only [parseBody, hlen, hs, hsub, bind_eq_ok, rejectIf_eq_ok, pure_eq_ok, u32At_be32,
    u32At_skip32, ok_bind, exists_const, ne_eq, not_not]
  simp

theorem parse_chunk (a : UInt32) (q : Bytes) (h : q.length ≤ maxPasteChunkBytes) :
    parseBody .pasteChunk (be32 a ++ q) = .ok (.pasteChunk a q) ∧
      parseBody .downloadChunk (be32 a ++ q) = .ok (.downloadChunk a q) := by
  have hs : (slice (be32 a ++ q) 4 (4+q.length) : Outcome FrameError Bytes) = .ok q :=
    slice_append _ _ _ _ (by simp) (by simp)
  constructor <;> simp [parseBody, bind_eq_ok, rejectIf_eq_ok, pure_eq_ok, hs, h]

theorem parse_status (a : UInt32) (st : UInt8) (body : Body) :
    (parseBody .pasteEnd (be32 a ++ [st]) = .ok body ↔
      (st = pasteStatusOk ∨ st = pasteStatusCancel) ∧ .pasteEnd a st = body) ∧
    (parseBody .pasteReject (be32 a ++ [st]) = .ok body ↔
      st ≤ pasteRejectMaxReason ∧ .pasteReject a st = body) ∧
    (parseBody .downloadEnd (be32 a ++ [st]) = .ok body ↔
      (st = downloadStatusOk ∨ st = downloadStatusCancel) ∧ .downloadEnd a st = body) ∧
    (parseBody .killSessionAck (be32 a ++ [st]) = .ok body ↔
      st ≤ killStatusMax ∧ .killSessionAck a st = body) := by
  refine ⟨?_,?_,?_,?_⟩ <;>
    simp [parseBody, bind_eq_ok, rejectIf_eq_ok, pure_eq_ok, pasteEndLen, pasteRejectLen,
      downloadEndLen, killSessionAckLen, or_iff_not_imp_left]

theorem parse_controllerChanged (st : UInt8) (body : Body) :
    parseBody .controllerChanged [st] = .ok body ↔
      st ≤ controllerStatusOther ∧ .controllerChanged st = body := by
  simp [parseBody, bind_eq_ok, rejectIf_eq_ok, pure_eq_ok, controllerChangedLen]

theorem parse_listSessions (a : UInt32) :
    parseBody .listSessions (be32 a) = .ok (.listSessions a) := by
  have ha := u32At_be32 (ε := FrameError) a []
  rw [List.append_nil] at ha
  simp [parseBody, bind_eq_ok, rejectIf_eq_ok, pure_eq_ok, listSessionsLen, ha]

theorem nameCut_of_le {name : String} (h : (asBytes name).length ≤ maxPasteNameLen) :
    nameCut name = (asBytes name).length := if_pos h

theorem toNat_ofNat_length {q : Bytes} (h : q.length < 256) :
    (UInt8.ofNat q.length).toNat = q.length := by
  simpa using h

/-! Names and session ids within their limits are written whole. -/

theorem payload_pasteBegin_of_le (pasteId : UInt32) (totalSize : UInt64)
    (groupId groupSize : UInt32) {name : String} (h : (asBytes name).length ≤ maxPasteNameLen) :
    payload (.pasteBegin pasteId totalSize groupId groupSize name) =
      be32 pasteId ++ (be64 totalSize ++ (be32 groupId ++ (be32 groupSize ++
        (UInt8.ofNat (asBytes name).length :: asBytes name)))) := by
  simp only [payload, nameCut_of_le h, List.take_length]

theorem payload_downloadBegin_of_le (downloadId : UInt32) (totalSize : UInt64) {name : String}
    (h : (asBytes name).length ≤ maxPasteNameLen) :
    payload (.downloadBegin downloadId totalSize name) =
      be32 downloadId ++ (be64 totalSize ++ (UInt8.ofNat (asBytes name).length :: asBytes name)) := by
  simp only [payload, nameCut_of_le h, List.take_length]

theorem payload_killSession_of_le (requestId : UInt32) {id : String}
    (h : (asBytes id).length ≤ maxSessionIdLen) :
    payload (.killSession requestId id) =
      be32 requestId ++ (UInt8.ofNat (asBytes id).length :: asBytes id) := by
  simp only [payload, Nat.min_eq_left h, List.take_length]

/-- A legal body has a payload the header check lets through. -/
theorem payload_lenOk (body : Body) (h : BodyOk body) : LenOk body.ty (payload body).length := by
  cases body with
  | open_ id size =>
    obtain ⟨h1,h2,-⟩ := h
    simp only [payload, Body.ty, LenOk, maxOpenLen, List.length_append, be16_length]
    omega
  | pasteBegin pasteId totalSize groupId groupSize name =>
    have hl := h.2.2
    rw [payload_pasteBegin_of_le _ _ _ _ hl]
    simp only [Body.ty, LenOk, maxPasteBeginLen, List.length_append, List.length_cons, be32_length,
      be64_length]
    omega
  | downloadBegin downloadId totalSize name =>
    have hl := h.2
    rw [payload_downloadBegin_of_le _ _ hl]
    simp only [Body.ty, LenOk, maxDownloadBeginLen, List.length_append, List.length_cons,
      be32_length, be64_length]
    omega
  | killSession requestId id =>
    obtain ⟨h1,h2,-⟩ := h
    rw [payload_killSession_of_le _ h2]
    simp only [Body.ty, LenOk, maxKillSessionLen, List.length_append, List.length_cons, be32_length]
    omega
  | sessionList requestId json =>
    simp only [BodyOk] at h
    simp only [payload, Body.ty, LenOk, maxSessionListLen, List.length_append, be32_length]
    omega
  | hello b =>
    obtain ⟨h1,h2⟩ := h
    exact ⟨by simp only [payload]; omega,h2⟩
  | pasteChunk pasteId b =>
    simp only [BodyOk] at h
    simp only [payload, Body.ty, LenOk, maxPasteChunkLen, List.length_append, be32_length]
    omega
  | downloadChunk downloadId b =>
    simp only [BodyOk] at h
    simp only [payload, Body.ty, LenOk, maxDownloadChunkLen, List.length_append, be32_length]
    omega
  | data b => exact h
  | ping b => exact h
  | pong b => exact h
  | resize rows cols => simp [payload, Body.ty, LenOk]
  | close => rfl
  | acquireControl => rfl
  | releaseControl => rfl
  | takeControl => rfl
  | pasteEnd pasteId status => simp [payload, Body.ty, LenOk, pasteEndLen]
  | pasteReject pasteId reason => simp [payload, Body.ty, LenOk, pasteRejectLen]
  | downloadEnd downloadId status => simp [payload, Body.ty, LenOk, downloadEndLen]
  | controllerChanged status => rfl
  | listSessions requestId => simp [payload, Body.ty, LenOk, listSessionsLen]
  | killSessionAck requestId status => simp [payload, Body.ty, LenOk, killSessionAckLen]

/-- Decoding undoes encoding, body by body. -/
theorem parseBody_payload (body : Body) (h : BodyOk body) :
    parseBody body.ty (payload body) = .ok body := by
  cases body with
  | open_ id size => exact (parse_open _ _ _ _ h.1).mpr ⟨id,rfl,h,rfl⟩
  | resize rows cols => exact parse_resize rows cols
  | pasteBegin pasteId totalSize groupId groupSize name =>
    obtain ⟨ht,hg,hl⟩ := h
    have hl' : (asBytes name).length < 256 := Nat.lt_succ_of_le hl
    rw [payload_pasteBegin_of_le _ _ _ _ hl]
    exact (parse_pasteBegin _ _ _ _ _ _ _).mpr
      ⟨ht,hg,(toNat_ofNat_length hl').symm,name,rfl,rfl⟩
  | downloadBegin downloadId totalSize name =>
    obtain ⟨ht,hl⟩ := h
    have hl' : (asBytes name).length < 256 := Nat.lt_succ_of_le hl
    rw [payload_downloadBegin_of_le _ _ hl]
    exact (parse_downloadBegin _ _ _ _ _).mpr ⟨ht,(toNat_ofNat_length hl').symm,name,rfl,rfl⟩
  | killSession requestId id =>
    have hl' : (asBytes id).length < 256 := lt_of_le_of_lt h.2.1 (by decide)
    rw [payload_killSession_of_le _ h.2.1]
    exact (parse_killSession _ _ _ _).mpr ⟨(toNat_ofNat_length hl').symm,id,rfl,h,rfl⟩
  | sessionList requestId json => exact (parse_sessionList _ _ _ _).mpr ⟨rfl,rfl⟩
  | pasteChunk pasteId b => exact (parse_chunk pasteId b h).1
  | downloadChunk downloadId b => exact (parse_chunk downloadId b h).2
  | pasteEnd pasteId status => exact (parse_status _ _ _).1.mpr ⟨h,rfl⟩
  | pasteReject pasteId reason => exact (parse_status _ _ _).2.1.mpr ⟨h,rfl⟩
  | downloadEnd downloadId status => exact (parse_status _ _ _).2.2.1.mpr ⟨h,rfl⟩
  | killSessionAck requestId status => exact (parse_status _ _ _).2.2.2.mpr ⟨h,rfl⟩
  | controllerChanged status => exact (parse_controllerChanged _ _).mpr ⟨h,rfl⟩
  | listSessions requestId => exact parse_listSessions requestId
  | _ => rfl

theorem exists_sizes {p : Bytes} (h : p.length = 4) : ∃ rows cols, p = be16 rows ++ be16 cols := by
  obtain ⟨rows,q,rfl⟩ := exists_be16 (p := p) (by omega)
  obtain ⟨cols,r,rfl⟩ := exists_be16 (p := q) (by simp at h; omega)
  have hr : r = [] := List.length_eq_zero_iff.mp (by simp at h; omega)
  exact ⟨rows,cols,by rw [hr, List.append_nil]⟩

theorem exists_status {p : Bytes} (h : p.length = 5) : ∃ a st, p = be32 a ++ [st] := by
  obtain ⟨a,q,rfl⟩ := exists_be32 (p := p) (by omega)
  obtain ⟨st,rfl⟩ := List.length_eq_one_iff.mp (show q.length = 1 by simp at h; omega)
  exact ⟨a,st,rfl⟩

theorem exists_tagged {p : Bytes} (h : 5 ≤ p.length) : ∃ a n q, p = be32 a ++ (n::q) := by
  obtain ⟨a,q,rfl⟩ := exists_be32 (p := p) (by omega)
  obtain ⟨n,r,rfl⟩ := List.exists_cons_of_length_pos (show 0 < q.length by simp at h; omega)
  exact ⟨a,n,r,rfl⟩

/-! What the parser accepts in the layouts with several fields. -/

theorem nameLen_le {q : Bytes} {n : UInt8} (h : q.length = n.toNat) :
    q.length ≤ maxPasteNameLen := by
  have hn := n.toNat_lt
  simp only [maxPasteNameLen]
  omega

theorem open_inversion {p : Bytes} {body : Body} (hl : 5 ≤ p.length)
    (h : parseBody .open_ p = .ok body) : body.ty = .open_ ∧ BodyOk body ∧ payload body = p := by
  -- The size is the last four bytes; everything before them is the id.
  obtain ⟨rows,cols,he⟩ := exists_sizes (p := p.drop (p.length-4)) (by simp; omega)
  have hp : p = p.take (p.length-4) ++ (be16 rows ++ be16 cols) := by
    rw [← he, List.take_append_drop]
  rw [hp] at h
  obtain ⟨s,hs,hok,rfl⟩ := (parse_open _ _ _ _ (by simp; omega)).mp h
  refine ⟨rfl,hok,?_⟩
  rw [payload, hs]
  exact hp.symm

theorem pasteBegin_inversion {p : Bytes} {body : Body} (hl : 21 ≤ p.length)
    (h : parseBody .pasteBegin p = .ok body) :
    body.ty = .pasteBegin ∧ BodyOk body ∧ payload body = p := by
  obtain ⟨a,q,rfl⟩ := exists_be32 (p := p) (by omega)
  rw [List.length_append, be32_length] at hl
  obtain ⟨b,r,rfl⟩ := exists_be64 (p := q) (by omega)
  rw [List.length_append, be64_length] at hl
  obtain ⟨c,t,rfl⟩ := exists_be32 (p := r) (by omega)
  rw [List.length_append, be32_length] at hl
  obtain ⟨d,n,u,rfl⟩ := exists_tagged (p := t) (by omega)
  obtain ⟨hb,hd,hn,name,rfl,rfl⟩ := (parse_pasteBegin _ _ _ _ _ _ _).mp h
  have hle := nameLen_le hn
  refine ⟨rfl,⟨hb,hd,hle⟩,?_⟩
  rw [payload_pasteBegin_of_le _ _ _ _ hle, hn, UInt8.ofNat_toNat]

theorem downloadBegin_inversion {p : Bytes} {body : Body} (hl : 13 ≤ p.length)
    (h : parseBody .downloadBegin p = .ok body) :
    body.ty = .downloadBegin ∧ BodyOk body ∧ payload body = p := by
  obtain ⟨a,q,rfl⟩ := exists_be32 (p := p) (by omega)
  rw [List.length_append, be32_length] at hl
  obtain ⟨b,r,rfl⟩ := exists_be64 (p := q) (by omega)
  rw [List.length_append, be64_length] at hl
  obtain ⟨n,u,rfl⟩ := List.exists_cons_of_length_pos (show 0 < r.length by omega)
  obtain ⟨hb,hn,name,rfl,rfl⟩ := (parse_downloadBegin _ _ _ _ _).mp h
  have hle := nameLen_le hn
  refine ⟨rfl,⟨hb,hle⟩,?_⟩
  rw [payload_downloadBegin_of_le _ _ hle, hn, UInt8.ofNat_toNat]

theorem killSession_inversion {p : Bytes} {body : Body} (hl : 5 ≤ p.length)
    (h : parseBody .killSession p = .ok body) :
    body.ty = .killSession ∧ BodyOk body ∧ payload body = p := by
  obtain ⟨a,n,q,rfl⟩ := exists_tagged hl
  obtain ⟨hn,id,rfl,hok,rfl⟩ := (parse_killSession _ _ _ _).mp h
  refine ⟨rfl,hok,?_⟩
  rw [payload_killSession_of_le _ hok.2.1, hn, UInt8.ofNat_toNat]

theorem sessionList_inversion {p : Bytes} {body : Body}
    (hl : 8 ≤ p.length ∧ p.length ≤ maxSessionListLen) (h : parseBody .sessionList p = .ok body) :
    body.ty = .sessionList ∧ BodyOk body ∧ payload body = p := by
  obtain ⟨a,q,rfl⟩ := exists_be32 (p := p) (by omega)
  simp only [maxSessionListLen, List.length_append, be32_length] at hl
  obtain ⟨n,json,rfl⟩ := exists_be32 (p := q) (by omega)
  rw [List.length_append, be32_length] at hl
  obtain ⟨rfl,rfl⟩ := (parse_sessionList _ _ _ _).mp h
  refine ⟨rfl,?_,rfl⟩
  simp only [BodyOk]
  omega

theorem exists_chunk {p : Bytes} (h : 4 ≤ p.length ∧ p.length ≤ 4+maxPasteChunkBytes) :
    ∃ a q, p = be32 a ++ q ∧ q.length ≤ maxPasteChunkBytes := by
  obtain ⟨a,q,rfl⟩ := exists_be32 h.1
  have hle := h.2
  rw [List.length_append, be32_length] at hle
  exact ⟨a,q,rfl,by omega⟩

/-- Whatever the parser accepts behind a checked header is a legal body, and the
payload is the one the encoder writes for it. -/
theorem parseBody_inversion {ty : FrameType} {p : Bytes} {body : Body} (hl : LenOk ty p.length)
    (h : parseBody ty p = .ok body) : body.ty = ty ∧ BodyOk body ∧ payload body = p := by
  cases ty with
  | data => cases h; exact ⟨rfl,hl,rfl⟩
  | ping => cases h; exact ⟨rfl,hl,rfl⟩
  | pong => cases h; exact ⟨rfl,hl,rfl⟩
  | hello => cases h; exact ⟨rfl,⟨Nat.one_le_iff_ne_zero.mpr hl.1,hl.2⟩,rfl⟩
  | close => cases h; exact ⟨rfl,trivial,(List.length_eq_zero_iff.mp hl).symm⟩
  | acquireControl => cases h; exact ⟨rfl,trivial,(List.length_eq_zero_iff.mp hl).symm⟩
  | releaseControl => cases h; exact ⟨rfl,trivial,(List.length_eq_zero_iff.mp hl).symm⟩
  | takeControl => cases h; exact ⟨rfl,trivial,(List.length_eq_zero_iff.mp hl).symm⟩
  | resize =>
    obtain ⟨rows,cols,rfl⟩ := exists_sizes hl
    rw [parse_resize] at h
    cases h
    exact ⟨rfl,trivial,rfl⟩
  | open_ => exact open_inversion hl.1 h
  | pasteBegin => exact pasteBegin_inversion hl.1 h
  | downloadBegin => exact downloadBegin_inversion hl.1 h
  | killSession => exact killSession_inversion hl.1 h
  | sessionList => exact sessionList_inversion hl h
  | pasteChunk =>
    obtain ⟨a,q,rfl,hq⟩ := exists_chunk hl
    rw [(parse_chunk a q hq).1] at h
    cases h
    exact ⟨rfl,hq,rfl⟩
  | downloadChunk =>
    obtain ⟨a,q,rfl,hq⟩ := exists_chunk hl
    rw [(parse_chunk a q hq).2] at h
    cases h
    exact ⟨rfl,hq,rfl⟩
  | pasteEnd =>
    obtain ⟨a,st,rfl⟩ := exists_status hl
    obtain ⟨hst,rfl⟩ := (parse_status _ _ _).1.mp h
    exact ⟨rfl,hst,rfl⟩
  | pasteReject =>
    obtain ⟨a,st,rfl⟩ := exists_status hl
    obtain ⟨hst,rfl⟩ := (parse_status _ _ _).2.1.mp h
    exact ⟨rfl,hst,rfl⟩
  | downloadEnd =>
    obtain ⟨a,st,rfl⟩ := exists_status hl
    obtain ⟨hst,rfl⟩ := (parse_status _ _ _).2.2.1.mp h
    exact ⟨rfl,hst,rfl⟩
  | killSessionAck =>
    obtain ⟨a,st,rfl⟩ := exists_status hl
    obtain ⟨hst,rfl⟩ := (parse_status _ _ _).2.2.2.mp h
    exact ⟨rfl,hst,rfl⟩
  | controllerChanged =>
    obtain ⟨st,rfl⟩ := List.length_eq_one_iff.mp hl
    obtain ⟨hst,rfl⟩ := (parse_controllerChanged _ _).mp h
    exact ⟨rfl,hst,rfl⟩
  | listSessions =>
    have h4 : p.length = 4 := hl
    obtain ⟨a,q,rfl⟩ := exists_be32 (p := p) (by omega)
    rw [List.length_append, be32_length] at h4
    have hq : q = [] := List.length_eq_zero_iff.mp (by omega)
    rw [hq, List.append_nil, parse_listSessions] at h
    cases h
    exact ⟨rfl,trivial,by rw [hq, List.append_nil]; rfl⟩

theorem fromPayload_eq_ok {streamId : UInt32} {ty : FrameType} {p : Bytes} {f : Frame}
    (hs : Scoped ty streamId) (hl : LenOk ty p.length) :
    fromPayload streamId ty p = .ok f ↔
      f.streamId = streamId ∧ f.ty = ty ∧ WellFormed f ∧ payload f.body = p := by
  simp only [fromPayload, bind_eq_ok, pure_eq_ok]
  constructor
  · rintro ⟨body,hbody,rfl⟩
    obtain ⟨hty,hok,hp⟩ := parseBody_inversion hl hbody
    refine ⟨rfl,hty,⟨?_,hok⟩,hp⟩
    rw [Frame.ty, hty]
    exact hs
  · rintro ⟨rfl,rfl,hwf,rfl⟩
    exact ⟨f.body,parseBody_payload f.body hwf.2,rfl⟩

theorem lenOk_lt (ty : FrameType) (n : ℕ) (h : LenOk ty n) : n < 2^32 := by
  cases ty <;>
    simp only [LenOk, maxDataLen, maxOpenLen, maxSessionIdLen, maxPingLen, maxHelloLen,
      maxPasteBeginLen, maxPasteNameLen, maxPasteChunkLen, maxPasteChunkBytes, pasteEndLen,
      pasteRejectLen, maxDownloadBeginLen, maxDownloadChunkLen, downloadEndLen,
      controllerChangedLen, listSessionsLen, maxSessionListLen, maxSessionListJsonLen,
      maxKillSessionLen, killSessionAckLen] at h <;> omega

theorem asU32_toNat {ty : FrameType} {n : ℕ} (h : LenOk ty n) : (asU32 n).toNat = n :=
  UInt32.toNat_ofNat_of_lt' (lenOk_lt ty n h)

theorem encode_length (f : Frame) : (encode f).length = headerLen+(payload f.body).length := by
  simp [encode, headerLen]
  omega

/-- The type and the payload can be read off an encoding. -/
theorem encode_inj {f g : Frame} (h : encode f = encode g) :
    f.ty = g.ty ∧ payload f.body = payload g.body := by
  have htail := (List.append_inj h (by simp)).2
  obtain ⟨hcode,hrest⟩ := List.cons.inj htail
  have hty := congrArg FrameType.fromU8 hcode
  rw [fromU8_code, fromU8_code] at hty
  exact ⟨Option.some.inj hty,(List.append_inj hrest (by simp)).2⟩

theorem exists_header {b : Bytes} (h : headerLen ≤ b.length) :
    ∃ sid tb len p, b = be32 sid ++ (tb :: (be32 len ++ p)) := by
  simp only [headerLen] at h
  obtain ⟨sid,tb,q,rfl⟩ := exists_tagged (p := b) (by omega)
  obtain ⟨len,p,rfl⟩ := exists_be32 (p := q) (by simp at h; omega)
  exact ⟨sid,tb,len,p,rfl⟩

section Header
variable {ε : Type} (sid : UInt32) (tb : UInt8) (len : UInt32) (p : Bytes)

theorem header_length : (be32 sid ++ (tb :: (be32 len ++ p))).length = headerLen+p.length := by
  simp [headerLen]
  omega

theorem header_slice :
    (slice (be32 sid ++ (tb :: (be32 len ++ p))) headerLen (headerLen+p.length) :
      Outcome ε Bytes) = .ok p := by
  have hp : be32 sid ++ (tb :: (be32 len ++ p)) = (be32 sid ++ [tb] ++ be32 len) ++ p := by simp
  rw [hp]
  exact slice_append _ _ _ _ (by simp [headerLen]) (by simp [headerLen])

theorem header_len :
    (u32At (be32 sid ++ (tb :: (be32 len ++ p))) 5 : Outcome ε UInt32) = .ok len := by
  rw [show (5:ℕ) = 1+4 from rfl, u32At_skip32, show (1:ℕ) = 0+1 from rfl, u32At_skip8, u32At_be32]

end Header

theorem frameFromWsPayload_header (sid : UInt32) (tb : UInt8) (len : UInt32) (p : Bytes) (f : Frame)
    (n : ℕ) :
    frameFromWsPayload (be32 sid ++ (tb :: (be32 len ++ p))) = .ok (f,n) ↔
      ∃ ty, tb = ty.code ∧ Scoped ty sid ∧ LenOk ty len.toNat ∧ p.length = len.toNat ∧
        fromPayload sid ty p = .ok f ∧ headerLen+p.length = n := by
  simp only [frameFromWsPayload, header_length, header_slice, header_len, bind_eq_ok,
    rejectIf_eq_ok, u32At_be32, ok_bind, index_skip32, index_cons, pure_eq_ok, Prod.exists,
    validateHeader_eq_ok, Prod.mk.injEq, exists_const]
  constructor
  · rintro ⟨-,ty,_,⟨htb,rfl,hsc,hok⟩,heq,g,hg,rfl,rfl⟩
    exact ⟨ty,htb,hsc,hok,by omega,hg,rfl⟩
  · rintro ⟨ty,htb,hsc,hok,heq,hg,rfl⟩
    exact ⟨by omega,ty,len,⟨htb,rfl,hsc,hok⟩,by omega,f,hg,rfl,rfl⟩

/-- The decoder accepts exactly the encodings of well-formed frames, and reports
their length. -/
theorem frameFromWsPayload_eq_ok (b : Bytes) (f : Frame) (n : ℕ) :
    frameFromWsPayload b = .ok (f,n) ↔ WellFormed f ∧ b = encode f ∧ n = b.length := by
  constructor
  · intro h
    by_cases hb : headerLen ≤ b.length
    · obtain ⟨sid,tb,len,p,rfl⟩ := exists_header hb
      obtain ⟨ty,rfl,hsc,hok,hp,hf,rfl⟩ := (frameFromWsPayload_header sid tb len p f n).mp h
      rw [← hp] at hok
      obtain ⟨rfl,rfl,hwf,rfl⟩ := (fromPayload_eq_ok hsc hok).mp hf
      have hlen : len = asU32 (payload f.body).length := by
        apply UInt32.toNat_inj.mp
        rw [asU32_toNat hok, hp]
      refine ⟨hwf,by rw [hlen]; rfl,?_⟩
      simp [headerLen]
      omega
    · simp [frameFromWsPayload, bind_eq_ok, rejectIf_eq_ok] at h
      omega
  · rintro ⟨hwf,rfl,rfl⟩
    have hok := payload_lenOk f.body hwf.2
    rw [encode_length]
    refine (frameFromWsPayload_header _ _ _ _ _ _).mpr ⟨f.ty,rfl,hwf.1,?_,?_,?_,rfl⟩
    · rw [asU32_toNat hok]
      exact hok
    · rw [asU32_toNat hok]
    · exact (fromPayload_eq_ok hwf.1 hok).mpr ⟨rfl,rfl,hwf,rfl⟩

/-- The codec is exact: decoding undoes encoding, and no frame has a second
spelling. -/
theorem frameFromWsPayload_exact :
    (∀ b f n, frameFromWsPayload b = .ok (f,n) ↔ WellFormed f ∧ b = encode f ∧ n = b.length) ∧
    (∀ f, WellFormed f → frameFromWsPayload (encode f) = .ok (f,(encode f).length)) ∧
    (∀ b f n, frameFromWsPayload b = .ok (f,n) → b = encode f) := by
  refine ⟨frameFromWsPayload_eq_ok,fun f hf => ?_,fun b f n h => ?_⟩
  · exact (frameFromWsPayload_eq_ok _ f _).mpr ⟨hf,rfl,rfl⟩
  · exact ((frameFromWsPayload_eq_ok b f n).mp h).2.1

section Names

theorem roundDown_le (name : String) (k : ℕ) : roundDown name k ≤ k := by
  induction k with
  | zero => exact Nat.le_refl 0
  | succ k ih =>
    unfold roundDown
    split
    · exact Nat.le_refl _
    · exact Nat.le_succ_of_le ih

theorem isCharBoundary_roundDown (name : String) (k : ℕ) :
    isCharBoundary name (roundDown name k) = true := by
  induction k with
  | zero => rfl
  | succ k ih =>
    unfold roundDown
    split
    · next h => exact h
    · exact ih

def cutName (name : String) : String := (fromUtf8 ((asBytes name).take (nameCut name))).getD ""

theorem asBytes_cutName (name : String) :
    asBytes (cutName name) = (asBytes name).take (nameCut name) := by
  have hcut : ∃ t, asBytes t = (asBytes name).take (nameCut name) := by
    unfold nameCut
    split
    · exact ⟨name,(List.take_length).symm⟩
    · obtain ⟨t,-,ht⟩ := exists_take_of_isCharBoundary (isCharBoundary_roundDown name _)
      exact ⟨t,ht⟩
  obtain ⟨t,ht⟩ := hcut
  rw [cutName, fromUtf8_eq_some.mpr ht, Option.getD_some, ht]

theorem length_cutName (name : String) : (asBytes (cutName name)).length ≤ maxPasteNameLen := by
  rw [asBytes_cutName, List.length_take]
  refine Nat.le_trans (Nat.min_le_left _ _) ?_
  unfold nameCut
  split
  · next h => exact h
  · exact roundDown_le name _

theorem cutName_of_le {name : String} (h : (asBytes name).length ≤ maxPasteNameLen) :
    cutName name = name := by
  apply asBytes_injective
  rw [asBytes_cutName, nameCut_of_le h, List.take_length]

def cutBody : Body → Body
  | .pasteBegin pasteId totalSize groupId groupSize name =>
    .pasteBegin pasteId totalSize groupId groupSize (cutName name)
  | .downloadBegin downloadId totalSize name => .downloadBegin downloadId totalSize (cutName name)
  | body => body

theorem nameCut_le (name : String) : nameCut name ≤ (asBytes name).length := by
  unfold nameCut
  split
  · exact Nat.le_refl _
  · next h => exact Nat.le_trans (roundDown_le name _) (Nat.le_of_lt (not_le.mp h))

theorem encode_cutBody (streamId : UInt32) (body : Body) :
    encode ⟨streamId,cutBody body⟩ = encode ⟨streamId,body⟩ := by
  have hname : ∀ name, nameCut (cutName name) = nameCut name := by
    intro name
    rw [nameCut_of_le (length_cutName name), asBytes_cutName, List.length_take,
      Nat.min_eq_left (nameCut_le name)]
  have hbytes : ∀ name, (asBytes (cutName name)).take (nameCut name) =
      (asBytes name).take (nameCut name) := by
    intro name
    rw [asBytes_cutName, List.take_take, Nat.min_self]
  cases body with
  | pasteBegin pasteId totalSize groupId groupSize name =>
    simp only [encode, cutBody, payload, hname, hbytes]
    rfl
  | downloadBegin downloadId totalSize name =>
    simp only [encode, cutBody, payload, hname, hbytes]
    rfl
  | _ => rfl

end Names

end Term.FrameCodec
