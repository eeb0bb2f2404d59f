import TermMux.HubLinkFrames
import TermMux.AgentFrames

/-!
# Killing a session by its id

A kill request from the route to the answer: the hub encodes the id it was given, the agent
decodes it, removes the session from its map and kills it, and the hub reads the status from
the acknowledgement. The encoder keeps 64 bytes of the id, so a longer one asks for another
session.
-/

set_option autoImplicit false

namespace Term.KillSession
open Term.ByteOrder Term.Utf8Text Term.FrameModel Term.Outcome Term.FrameWire Term.FrameCodec
open Term.HubLinkFrames Term.SessionManager Term.AgentFrames

structure Removal where
  manager : Manager
  victim : Option ℕ
  ack : Frame

def remove (m : Manager) (requestId : UInt32) (sessionId : SessionId) : Removal :=
  ⟨m.remove sessionId,m.map.lookup sessionId,
    ⟨controlStream,.killSessionAck requestId (killStatus m sessionId)⟩⟩

def perform (m : Manager) (f : Frame) : Option Removal :=
  match f.body with
  | .killSession requestId sessionId =>
    if f.streamId = controlStream then some (remove m requestId sessionId) else none
  | _ => none

def receive (m : Manager) (data : Bytes) : Option Removal :=
  match frameFromWsPayload data with
  | .ok (f,_) => perform m f
  | _ => none

def reply (requestId : UInt32) (f : Frame) : Option Bool :=
  match f.body with
  | .killSessionAck rid status =>
    if f.streamId = controlStream ∧ rid = requestId then some (status == killStatusOk) else none
  | _ => none

def answer (requestId : UInt32) (data : Bytes) : Option Bool :=
  match frameFromWsPayload data with
  | .ok (f,_) => reply requestId f
  | _ => none

structure Killed where
  result : Option Bool
  manager : Manager
  victim : Option ℕ

def outcome (requestId : UInt32) (m : Manager) : Option Removal → Killed
  | some r => ⟨answer requestId (encode r.ack),r.manager,r.victim⟩
  | none => ⟨none,m,none⟩

def killSession (requestId : UInt32) (sessionId : String) (m : Manager) : Killed :=
  outcome requestId m (receive m (encode (Frame.killSession requestId sessionId)))

/-- Only the session under the given id is killed, and a kill that is reported was one. -/
structure Exact (sessionId : String) (m : Manager) (r : Killed) : Prop where
  reported : r.result = some true →
    ∃ k, m.map.lookup sessionId = some k ∧ r.victim = some k ∧ r.manager = m.remove sessionId
  victim : ∀ k, r.victim = some k → m.map.lookup sessionId = some k
  others : ∀ id, id ≠ sessionId → r.manager.map.lookup id = m.map.lookup id

theorem decode {f : Frame} (h : WellFormed f) :
    frameFromWsPayload (encode f) = .ok (f,(encode f).length) :=
  (frameFromWsPayload_eq_ok _ _ _).mpr ⟨h,rfl,rfl⟩

theorem send_ack (s : Agent) (m : Manager) (requestId : UInt32) (id : SessionId) :
    s.send (remove m requestId id).ack =
      { s with enqueued := s.enqueued++[(remove m requestId id).ack] } := by
  refine if_neg (Nat.not_lt.mpr ?_)
  rw [encode_length]
  simp [remove, payload, writeCap, Frame.ty, Body.ty, headerLen, writeHiBytes]

/-- The agent's task for a request does this removal and sends this acknowledgement. -/
theorem agent_kill {cfg : Config} {s s' : Agent} {j : ℕ} {requestId : UInt32} {id : SessionId}
    (hkill : s.kills[j]? = some (requestId,id)) (hstep : AgentFrames.step cfg s (.kill j) = some s') :
    s'.host.manager = (remove s.host.manager requestId id).manager ∧
      s'.enqueued = s.enqueued++[(remove s.host.manager requestId id).ack] := by
  simp only [AgentFrames.step, hkill] at hstep
  obtain ⟨host,hhost,rfl⟩ := Option.map_eq_some_iff.mp hstep
  obtain ⟨-,rfl⟩ := step_killSession hhost
  have hsend := send_ack { s with
    host := { s.host with manager := s.host.manager.remove id }
    kills := s.kills.eraseIdx j } s.host.manager requestId id
  exact ⟨congrArg (fun t => t.host.manager) hsend,congrArg Agent.enqueued hsend⟩

theorem answer_ack (requestId : UInt32) (m : Manager) (id : SessionId) :
    answer requestId (encode (remove m requestId id).ack) = some (m.map.lookup id).isSome := by
  have hok : WellFormed (remove m requestId id).ack := ⟨rfl,killStatus_le m id⟩
  have hstatus : (killStatus m id == killStatusOk) = (m.map.lookup id).isSome := by
    unfold killStatus
    cases m.map.lookup id <;> rfl
  rw [answer, decode hok, ← hstatus]
  exact if_pos ⟨rfl,rfl⟩

theorem receive_frame {data : Bytes} {f : Frame} {n : ℕ} (h : frameFromWsPayload data = .ok (f,n))
    (m : Manager) : receive m data = perform m f := by
  rw [receive, h]

theorem receive_refused {data : Bytes} (h : ¬Accepted data) (m : Manager) : receive m data = none := by
  unfold receive
  split
  next f n hdecode =>
    obtain ⟨hwf,hsame,-⟩ := (frameFromWsPayload_eq_ok data f n).mp hdecode
    exact absurd ((accepted_iff data).mpr ⟨f,hwf,hsame⟩) h
  next => rfl

theorem perform_kill (m : Manager) (requestId : UInt32) (id : SessionId) :
    perform m (Frame.killSession requestId id) = some (remove m requestId id) := by
  unfold perform Frame.killSession
  exact if_pos rfl

theorem receive_kill {id : SessionId} (h : SessionId id) (requestId : UInt32) (m : Manager) :
    receive m (encode (Frame.killSession requestId id)) = some (remove m requestId id) := by
  have hok : WellFormed (Frame.killSession requestId id) := ⟨rfl,h⟩
  rw [receive_frame (decode hok), perform_kill]

/-- The request removes what the kept part of the id names. -/
theorem killSession_cut {sessionId : String} (h : KillTargetOk sessionId) (requestId : UInt32)
    (m : Manager) :
    killSession requestId sessionId m =
      ⟨some (m.map.lookup (ofAscii (killTarget sessionId))).isSome,
        m.remove (ofAscii (killTarget sessionId)),m.map.lookup (ofAscii (killTarget sessionId))⟩ := by
  obtain ⟨hok,hsame⟩ := encode_killSession h requestId
  rw [killSession, hsame, receive_kill hok, outcome, answer_ack]
  rfl

theorem killSession_refused {sessionId : String} (h : ¬KillTargetOk sessionId) (requestId : UInt32)
    (m : Manager) : killSession requestId sessionId m = ⟨none,m,none⟩ := by
  have hrefused := receive_refused (mt (killSession_accepted_iff requestId sessionId).mp h) m
  rw [killSession, hrefused, outcome]

theorem cut_ne {sessionId id : String} (hlong : maxSessionIdLen < (asBytes sessionId).length)
    (hid : asBytes id = killTarget sessionId) : id ≠ sessionId := by
  rintro rfl
  have hlen := killTarget_length id
  rw [← hid] at hlen
  omega

theorem ofAscii_cut {sessionId id : String} (h : KillTargetOk sessionId)
    (hid : asBytes id = killTarget sessionId) : ofAscii (killTarget sessionId) = id := by
  apply asBytes_injective
  rw [asBytes_ofAscii fun b hb => sessionIdByte_ascii (h.2 b hb), hid]

/-- The sessions under other ids stay where the kept part names the same id or none. -/
theorem exact_of_cut {sessionId id : String} {requestId : UInt32} {m : Manager}
    (hcut : killSession requestId sessionId m = ⟨some (m.map.lookup id).isSome,m.remove id,m.map.lookup id⟩)
    (h : id = sessionId ∨ m.map.lookup id = none) :
    Exact sessionId m (killSession requestId sessionId m) := by
  rw [hcut]
  rcases h with rfl | hnone
  · constructor
    · intro hsome
      obtain ⟨k,hk⟩ := Option.isSome_iff_exists.mp (Option.some.inj hsome)
      exact ⟨k,hk,hk,rfl⟩
    · exact fun k hk => hk
    · exact fun other hne => AList.lookup_erase_ne hne
  · constructor
    · intro hsome
      rw [hnone] at hsome
      cases hsome
    · intro k hk
      cases hnone.symm.trans hk
    · intro other _
      by_cases heq : other = id
      · rw [heq, hnone]
        exact AList.lookup_erase _ _
      · exact AList.lookup_erase_ne heq

/-- A request kills exactly what it was asked for where its id fits, or its first 64 bytes are
not the id of a session. -/
theorem exact_iff (requestId : UInt32) (sessionId : String) (m : Manager) :
    Exact sessionId m (killSession requestId sessionId m) ↔
      (asBytes sessionId).length ≤ maxSessionIdLen ∨
        ∀ id, SessionId id → asBytes id = killTarget sessionId → m.map.lookup id = none := by
  constructor
  · intro h
    rw [or_iff_not_imp_left, Nat.not_le]
    intro hlong id hok hid
    have hkeep : KillTargetOk sessionId := by
      rw [KillTargetOk, ← hid]
      exact ⟨List.ne_nil_of_length_pos hok.1,hok.2.2⟩
    have hother := h.others id (cut_ne hlong hid)
    rw [killSession_cut hkeep, ofAscii_cut hkeep hid] at hother
    rw [← hother]
    exact AList.lookup_erase _ _
  · intro h
    by_cases hkeep : KillTargetOk sessionId
    · apply exact_of_cut (killSession_cut hkeep requestId m)
      rcases h with hfits | hnone
      · exact .inl (ofAscii_cut hkeep (List.take_of_length_le hfits).symm)
      · refine .inr (hnone _ ?_ ?_)
        · exact (encode_killSession hkeep requestId).1
        · exact asBytes_ofAscii fun b hb => sessionIdByte_ascii (hkeep.2 b hb)
    · rw [killSession_refused hkeep]
      constructor
      · intro hreported
        cases hreported
      · intro k hvictim
        cases hvictim
      · intro id _
        rfl

def longId : String := String.ofList (List.replicate 64 'a')

def oneSession : Manager := ⟨Limits.default,[],(∅ : AList fun _ : SessionId => ℕ).insert longId 0⟩

/-- A request for an id of 65 bytes is answered with success and removes the session under its
first 64. -/
theorem longer_id_kills :
    (killSession 1 (longId ++ "b") oneSession).result = some true ∧
      ¬Exact (longId ++ "b") oneSession (killSession 1 (longId ++ "b") oneSession) := by
  have hkeep : KillTargetOk (longId ++ "b") := by decide +kernel
  have hcut : ofAscii (killTarget (longId ++ "b")) = longId := by
    apply ofAscii_cut hkeep
    decide +kernel
  have hlookup : oneSession.map.lookup longId = some 0 := AList.lookup_insert _
  rw [killSession_cut hkeep, hcut, hlookup]
  refine ⟨rfl,fun h => ?_⟩
  obtain ⟨k,hk,-,-⟩ := h.reported rfl
  have hnone : oneSession.map.lookup (longId ++ "b") = none := by decide +kernel
  cases hnone.symm.trans hk

end Term.KillSession
