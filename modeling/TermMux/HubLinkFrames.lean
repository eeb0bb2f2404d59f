import TermMux.FrameCodec
import TermMux.HubLink

/-!
# Which frames the hub sends are decodable

Three of the four paths build well-formed frames in every state. The fourth is
the session kill request: its session id is the path segment of the DELETE
route, unchecked, and the encoder keeps its first 64 bytes. The agent decodes
the frame exactly when those bytes are a session id, so a link survives every
run in which they are.
-/

set_option autoImplicit false

namespace Term.HubLinkFrames
open Term.ByteOrder Term.Utf8Text Term.FrameModel Term.Outcome Term.FrameWire Term.FrameCodec
open Term.HubLink Term.Machine

def Accepted (b : Bytes) : Prop := ∃ f, frameFromWsPayload b = .ok (f,b.length)

def killTarget (sessionId : String) : Bytes := (asBytes sessionId).take maxSessionIdLen

def KillTargetOk (sessionId : String) : Prop :=
  killTarget sessionId ≠ [] ∧ ∀ b ∈ killTarget sessionId, SessionIdByte b

instance (sessionId : String) : Decidable (KillTargetOk sessionId) :=
  inferInstanceAs (Decidable (_ ∧ ∀ b ∈ killTarget sessionId, SessionIdByte b))

theorem accepted_iff (b : Bytes) : Accepted b ↔ ∃ f, WellFormed f ∧ b = encode f := by
  constructor
  · rintro ⟨f,hf⟩
    obtain ⟨hwf,hb,-⟩ := (frameFromWsPayload_eq_ok b f b.length).mp hf
    exact ⟨f,hwf,hb⟩
  · rintro ⟨f,hwf,rfl⟩
    exact ⟨f,(frameFromWsPayload_eq_ok _ f _).mpr ⟨hwf,rfl,rfl⟩⟩

theorem killTarget_length (sessionId : String) : (killTarget sessionId).length ≤ maxSessionIdLen := by
  simp [killTarget]

theorem payload_killSession (requestId : UInt32) (sessionId : String) :
    payload (.killSession requestId sessionId) =
      be32 requestId ++ (UInt8.ofNat (killTarget sessionId).length :: killTarget sessionId) := by
  have hlen : (killTarget sessionId).length = min (asBytes sessionId).length maxSessionIdLen := by
    rw [killTarget, List.length_take, Nat.min_comm]
  have htake : (asBytes sessionId).take (min (asBytes sessionId).length maxSessionIdLen) =
      killTarget sessionId := by
    rw [killTarget, Nat.min_comm]
    exact List.take_eq_take_min.symm
  simp only [payload, htake, hlen]

theorem killTarget_of_sessionId {sessionId : String} (h : SessionId sessionId) :
    killTarget sessionId = asBytes sessionId :=
  List.take_of_length_le h.2.1

theorem sessionIdByte_ascii {b : UInt8} (h : SessionIdByte b) : b < 0x80 := by
  have hz : 'z'.toUInt8 = 0x7A := rfl
  have hZ : 'Z'.toUInt8 = 0x5A := rfl
  have h9 : '9'.toUInt8 = 0x39 := rfl
  have hu : '_'.toUInt8 = 0x5F := rfl
  have hd : '-'.toUInt8 = 0x2D := rfl
  simp only [SessionIdByte, hz, hZ, h9, hu, hd, UInt8.le_iff_toNat_le] at h
  rw [UInt8.lt_iff_toNat_lt]
  rcases h with h | h | h | rfl | rfl
  · exact lt_of_le_of_lt h.2 (by decide)
  · exact lt_of_le_of_lt h.2 (by decide)
  · exact lt_of_le_of_lt h.2 (by decide)
  · decide
  · decide

/-- The agent decodes the kill request of the part that is kept. -/
theorem encode_killSession {sessionId : String} (h : KillTargetOk sessionId) (requestId : UInt32) :
    SessionId (ofAscii (killTarget sessionId)) ∧
      encode (Frame.killSession requestId sessionId) =
        encode (Frame.killSession requestId (ofAscii (killTarget sessionId))) := by
  obtain ⟨hne,hall⟩ := h
  have hid : asBytes (ofAscii (killTarget sessionId)) = killTarget sessionId :=
    asBytes_ofAscii fun b hb => sessionIdByte_ascii (hall b hb)
  have hok : SessionId (ofAscii (killTarget sessionId)) := by
    rw [SessionId, hid]
    exact ⟨List.length_pos_of_ne_nil hne,killTarget_length sessionId,hall⟩
  refine ⟨hok,?_⟩
  have hp : payload (.killSession requestId (ofAscii (killTarget sessionId))) =
      payload (.killSession requestId sessionId) := by
    rw [payload_killSession, payload_killSession, killTarget_of_sessionId hok, hid]
  simp only [encode, Frame.killSession, hp]
  rfl

theorem killSession_accepted_iff (requestId : UInt32) (sessionId : String) :
    Accepted (encode (Frame.killSession requestId sessionId)) ↔ KillTargetOk sessionId := by
  rw [accepted_iff]
  constructor
  · rintro ⟨f,⟨hsc,hok⟩,hf⟩
    obtain ⟨hty,hp⟩ := encode_inj hf
    obtain ⟨sid,body⟩ := f
    cases body with
    | killSession rid id =>
      simp only [Frame.killSession, payload_killSession] at hp
      have htail := (List.append_inj hp (by simp)).2
      have hkt : killTarget sessionId = asBytes id := by
        rw [(List.cons.inj htail).2, killTarget_of_sessionId hok]
      rw [KillTargetOk, hkt]
      exact ⟨List.ne_nil_of_length_pos hok.1,hok.2.2⟩
    | _ => cases hty
  · intro h
    obtain ⟨hok,hsame⟩ := encode_killSession h requestId
    exact ⟨Frame.killSession requestId (ofAscii (killTarget sessionId)),⟨rfl,hok⟩,hsame⟩

/-- Every message anywhere between a sender and the agent is decodable, and so
is every frame a task still holds. -/
structure LinkOk (s : Link) : Prop where
  enqueued : ∀ b ∈ s.enqueued, Accepted b
  hi : ∀ b ∈ s.hi.items, Accepted b
  lo : ∀ b ∈ s.lo.items, Accepted b
  wire : ∀ b ∈ s.wire, Accepted b
  calls : ∀ f ∈ s.calls, Accepted (encode f)
  pong : ∀ f, s.pong = some f → Accepted (encode f)
  proxies : ∀ sid ∈ s.proxies, sid ≠ 0
  dropped : ∀ sid ∈ s.dropped, sid ≠ 0
  agentEnd : s.agentEnd = none

theorem start_ok : LinkOk Link.start := by
  constructor <;> simp [Link.start, BytesQueue.empty]

theorem encode_accepted {f : Frame} (h : WellFormed f) : Accepted (encode f) :=
  (accepted_iff _).mpr ⟨f,h,rfl⟩

theorem mem_send {q r : BytesQueue} {b : Bytes} (h : q.send b = .queued r) :
    r.items = q.items++[b] := by
  unfold BytesQueue.send at h
  split_ifs at h
  cases h
  rfl

/-- Sending a decodable frame keeps the link sound, and a send changes neither
the tasks nor the counters. -/
theorem sendFrame_ok {s t : Link} {f : Frame} {sent : Bool} (hs : LinkOk s)
    (hf : Accepted (encode f)) (h : sendFrame s f = some (t,sent)) : LinkOk t := by
  unfold sendFrame at h
  cases hq : (s.queue (half f.ty)).send (encode f) with
  | waiting => simp [hq] at h
  | refused =>
    simp only [hq, Option.some.injEq, Prod.mk.injEq] at h
    exact h.1 ▸ hs
  | queued q =>
    simp only [hq, Option.some.injEq, Prod.mk.injEq] at h
    obtain ⟨rfl,-⟩ := h
    have hitems := mem_send hq
    have hen := forall_mem_concat hs.enqueued hf
    cases hh : half f.ty with
    | hi =>
      rw [hh] at hitems
      refine ⟨hen,?_,hs.lo,hs.wire,hs.calls,hs.pong,hs.proxies,hs.dropped,hs.agentEnd⟩
      intro b hb
      refine forall_mem_concat hs.hi hf b ?_
      rw [← show q.items = s.hi.items++[encode f] from hitems]
      exact hb
    | lo =>
      rw [hh] at hitems
      refine ⟨hen,hs.hi,?_,hs.wire,hs.calls,hs.pong,hs.proxies,hs.dropped,hs.agentEnd⟩
      intro b hb
      refine forall_mem_concat hs.lo hf b ?_
      rw [← show q.items = s.lo.items++[encode f] from hitems]
      exact hb

theorem allocStreamId_ne_zero (next : UInt32) : (allocStreamId next).1 ≠ 0 := by
  unfold allocStreamId
  split_ifs with h
  · exact h
  · rw [not_not.mp h]
    decide

theorem proxyFrame_wellFormed {sid : UInt32} {data : Bytes} {body : Body}
    (h : proxyFrame sid data = .ok body) : WellFormed ⟨sid,body⟩ := by
  simp only [proxyFrame, bind_eq_ok, rejectIf_eq_ok, mapErr_eq_ok, pure_eq_ok, Prod.exists,
    validateHeader_eq_ok, slice_eq_ok] at h
  obtain ⟨-,-,_,-,-,-,tb,-,len,-,ty,_,⟨-,rfl,hsc,hlen⟩,_,hdata,p,⟨-,hp⟩,f,hf,rfl⟩ := h
  have hplen : p.length = len.toNat := by
    rw [← hp, List.length_drop, List.length_take, Nat.min_self]
    omega
  rw [← hplen] at hlen
  obtain ⟨rfl,-,hwf,-⟩ := (fromPayload_eq_ok hsc hlen).mp hf
  exact hwf

theorem endProxy_ok {s : Link} {sid : UInt32} (hs : LinkOk s) (hsid : sid ≠ 0) :
    LinkOk (endProxy s sid) := by
  refine { hs with proxies := ?_, dropped := ?_ }
  · exact fun i hi => hs.proxies i (List.mem_of_mem_erase hi)
  · intro i hi
    rcases List.mem_cons.mp hi with rfl | hi
    · exact hsid
    · exact hs.dropped i hi

theorem proxyStep_ok {s t : Link} {sid : UInt32} {m : WsMessage} (hs : LinkOk s)
    (h : proxyStep s sid m = some t) : LinkOk t := by
  unfold proxyStep at h
  split_ifs at h with hmem
  have hsid : sid ≠ 0 := hs.proxies sid hmem
  have hend := endProxy_ok hs hsid
  cases m with
  | binary data =>
    simp only at h
    cases hp : proxyFrame sid data with
    | ok body =>
      simp only [hp, Option.map_eq_some_iff, Prod.exists] at h
      obtain ⟨u,sent,hu,rfl⟩ := h
      have ht := sendFrame_ok hs (encode_accepted (proxyFrame_wellFormed hp)) hu
      cases sent with
      | true => exact ht
      | false => exact endProxy_ok ht hsid
    | err e =>
      simp only [hp, Option.some.injEq] at h
      exact h ▸ hend
    | panicked =>
      simp only [hp, Option.some.injEq] at h
      exact h ▸ hend
  | ping => exact Option.some.inj h ▸ hs
  | pong => exact Option.some.inj h ▸ hs
  | text => exact Option.some.inj h ▸ hend
  | close => exact Option.some.inj h ▸ hend
  | error => exact Option.some.inj h ▸ hend

theorem guardDrop_ok {s t : Link} {sid : UInt32} (hs : LinkOk s)
    (h : guardDrop s sid = some t) : LinkOk t := by
  unfold guardDrop at h
  split_ifs at h with hmem
  obtain ⟨⟨u,sent⟩,hu,rfl⟩ := Option.map_eq_some_iff.mp h
  have hclose : WellFormed (Frame.close sid) := ⟨hs.dropped sid hmem,trivial⟩
  refine sendFrame_ok ?_ (encode_accepted hclose) hu
  exact { hs with dropped := fun i hi => hs.dropped i (List.mem_of_mem_erase hi) }

theorem beginRpc_ok {s : Link} {build : UInt32 → Frame} (hs : LinkOk s)
    (hb : ∀ rid, Accepted (encode (build rid))) : LinkOk (beginRpc s build) :=
  { hs with calls := forall_mem_concat hs.calls (hb _) }

theorem sendCall_ok {s t : Link} {f : Frame} (hs : LinkOk s) (h : sendCall s f = some t) :
    LinkOk t := by
  unfold sendCall at h
  split_ifs at h with hmem
  obtain ⟨⟨u,sent⟩,hu,rfl⟩ := Option.map_eq_some_iff.mp h
  have hrest : LinkOk { s with calls := s.calls.erase f } :=
    { hs with calls := fun g hg => hs.calls g (List.mem_of_mem_erase hg) }
  have ht := sendFrame_ok hrest (hs.calls f hmem) hu
  cases sent with
  | true => exact ht
  | false => exact { ht with }

theorem readAgent_ok {s t : Link} {data : Bytes} (hs : LinkOk s)
    (h : readAgent s data = some t) : LinkOk t := by
  unfold readAgent at h
  split_ifs at h
  split at h
  · rename_i f n hf
    cases h
    have hwf := ((frameFromWsPayload_eq_ok _ _ _).mp hf).1
    unfold handleAgentFrame
    split_ifs
    · split
      · rename_i p hp
        refine { hs with pong := ?_ }
        rintro g ⟨⟩
        have hping := hwf.2
        rw [hp] at hping
        exact encode_accepted ⟨rfl,hping⟩
      · exact hs
      · exact { hs with }
      · exact { hs with }
      · exact { hs with }
    · exact hs
  · cases h
    exact { hs with }

theorem sendPong_ok {s t : Link} (hs : LinkOk s) (h : sendPong s = some t) : LinkOk t := by
  obtain ⟨f,hf,hsend⟩ := Option.bind_eq_some_iff.mp h
  obtain ⟨⟨u,sent⟩,hu,rfl⟩ := Option.map_eq_some_iff.mp hsend
  have hrest : LinkOk { s with pong := none } := { hs with pong := nofun }
  exact sendFrame_ok hrest (hs.pong f hf) hu

theorem writerStep_ok {s t : Link} (hs : LinkOk s) (h : writerStep s = some t) : LinkOk t := by
  unfold writerStep at h
  split at h
  · rename_i b rest hhi
    cases h
    have hb := hs.hi
    rw [hhi] at hb
    exact { hs with
      hi := fun c hc => hb c (List.mem_cons_of_mem _ hc)
      wire := forall_mem_concat hs.wire (hb b List.mem_cons_self) }
  · rename_i b rest _ hlo
    cases h
    have hb := hs.lo
    rw [hlo] at hb
    exact { hs with
      lo := fun c hc => hb c (List.mem_cons_of_mem _ hc)
      wire := forall_mem_concat hs.wire (hb b List.mem_cons_self) }
  · cases h

theorem agentRead_ok {s t : Link} (hs : LinkOk s) (h : agentRead s = some t) : LinkOk t := by
  unfold agentRead at h
  split at h
  · rename_i b rest _ hw
    have hb := hs.wire
    rw [hw] at hb
    obtain ⟨f,hf⟩ := hb b List.mem_cons_self
    rw [hf] at h
    cases h
    exact { hs with wire := fun c hc => hb c (List.mem_cons_of_mem _ hc) }
  · cases h

def ActOk : Act → Prop
  | .killSession sessionId => KillTargetOk sessionId
  | _ => True

theorem step_ok (s : Link) (a : Act) (t : Link) (hs : LinkOk s) (ha : ActOk a)
    (h : step s a = some t) : LinkOk t := by
  cases a with
  | openStream =>
    cases h
    refine { hs with proxies := ?_ }
    intro i hi
    rcases List.mem_cons.mp hi with rfl | hi
    · exact allocStreamId_ne_zero s.nextStreamId
    · exact hs.proxies i hi
  | browser sid m => exact proxyStep_ok hs h
  | browserGone sid =>
    simp only [step] at h
    split_ifs at h with hmem
    exact Option.some.inj h ▸ endProxy_ok hs (hs.proxies sid hmem)
  | guardDrop sid => exact guardDrop_ok hs h
  | listSessions =>
    cases h
    exact beginRpc_ok hs fun rid => encode_accepted ⟨rfl,trivial⟩
  | killSession sessionId =>
    cases h
    exact beginRpc_ok hs fun rid => (killSession_accepted_iff rid sessionId).mpr ha
  | sendCall f => exact sendCall_ok hs h
  | callTimeout rid =>
    cases h
    exact { hs with }
  | agentFrame data => exact readAgent_ok hs h
  | sendPong => exact sendPong_ok hs h
  | writer => exact writerStep_ok hs h
  | agentRead => exact agentRead_ok hs h
  | reset sid =>
    cases h
    exact { hs with }
  | teardown =>
    cases h
    exact { hs with hi := nofun, lo := nofun }

/-- In every run whose kill requests name a session id in their first 64 bytes,
every message the hub has queued is decodable and the agent's reader loop has
not ended on one. -/
theorem link_frames_decodable (acts : List Act) (s : Link) (hrun : run step Link.start acts = some s)
    (hkill : ∀ sessionId, Act.killSession sessionId ∈ acts → KillTargetOk sessionId) :
    (∀ b ∈ s.enqueued, Accepted b) ∧ s.agentEnd = none := by
  have hacts : ∀ a ∈ acts, ActOk a := by
    intro a ha
    cases a with
    | killSession sessionId => exact hkill sessionId ha
    | _ => trivial
  have hs := run_along step step_ok start_ok (along_of_forall step hacts) hrun
  exact ⟨hs.enqueued,hs.agentEnd⟩

def typeAndKill : List Act :=
  [.openStream,.browser 1 (.binary (encode (Frame.data 0 [0x6C]))),.killSession "main",
    .sendCall (Frame.killSession 1 "main"),.writer,.agentRead,.writer,.agentRead]

theorem link_frames_decodable_typeAndKill : ∃ s, run step Link.start typeAndKill = some s ∧
    s.enqueued.length = 2 ∧ (∀ b ∈ s.enqueued, Accepted b) ∧ s.agentEnd = none := by
  refine ⟨_,rfl,rfl,link_frames_decodable typeAndKill _ rfl ?_⟩
  intro sessionId hmem
  have hid : sessionId = "main" := by simpa [typeAndKill] using hmem
  rw [hid]
  decide +kernel

/-- The id `a b` of a DELETE request reaches the agent unchecked and ends its
reader loop. -/
theorem kill_request_ends_link : ∃ s,
    run step Link.start [.killSession "a b",.sendCall (Frame.killSession 1 "a b"),.writer,.agentRead]
      = some s ∧
    s.agentEnd = some (.decode .invalidSessionId) ∧ ¬∀ b ∈ s.enqueued, Accepted b := by
  refine ⟨_,rfl,rfl,fun h => ?_⟩
  have hbad := (killSession_accepted_iff 1 "a b").mp (h _ List.mem_cons_self)
  exact absurd hbad (by decide)

end Term.HubLinkFrames
