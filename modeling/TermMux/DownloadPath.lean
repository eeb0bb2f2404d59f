import TermMux.StreamClose

/-!
# The path of a download to the hub

The download frames of a stream come from its own task: it receives the session's
download events, may lag behind, and forwards what it receives to the low half of the
writer. What the writer delivers of them is therefore what was broadcast, in its order
and possibly with gaps, whatever the rest of the link sends.
-/

set_option autoImplicit false

namespace Term.DownloadPath
open Term.AgentFrames Term.Broadcast Term.ByteOrder Term.DownloadStream Term.FrameModel
open Term.HubLink Term.Machine Term.PrioLink Term.PriorityChannel Term.StreamClose

def OthersApart (s : Stream) : StreamClose.Act → Prop
  | .other a => ∀ f, a.grants = some f → isDownloadOf s.sid f = false
  | _ => True

def underway (s : Stream) : List Frame :=
  framesOf (isDownloadOf s.sid) s.writer.sent++s.todo.filter (isDownloadOf s.sid)

structure Forwarded (s : Stream) : Prop where
  order : InOrder biased s.writer
  routed : Routed .agent s.writer
  others : ∀ k, ∀ f ∈ (s.writer.queue k).granted, isDownloadOf s.sid f = false
  within : s.downloadRx.next ≤ s.downloadLog.length
  downloads : (underway s).Sublist
    ((s.downloadLog.take s.downloadRx.next).map (downloadFrame s.sid))

section Writer
variable {w w' : Writer} {sid : UInt32}

theorem framesOf_concat (select : Frame → Bool) (log : List (Half × Sent Frame))
    (p : Half × Sent Frame) :
    framesOf select (log++[p]) = framesOf select log++[p.2.item].filter select := by
  simp [framesOf]

theorem routed_sendNow {f : Frame} {sent : Bool} (h : Routed .agent w)
    (hsend : sendNow .agent w f = some (w',sent)) : Routed .agent w' := by
  rcases sendNow_cases hsend with ⟨rfl,-⟩ | ⟨-,w₁,hgrant,hpush⟩
  · exact h
  · exact routed_step (routed_step h hgrant) hpush

theorem granted_sendNow {f : Frame} {sent : Bool} (hsend : sendNow .agent w f = some (w',sent))
    (k : Half) : (w'.queue k).granted = (w.queue k).granted := by
  rcases sendNow_cases hsend with ⟨rfl,-⟩ | ⟨-,w₁,hgrant,hpush⟩
  · rfl
  · rw [step_push hpush, step_send hgrant, Channel.push]
    by_cases hk : k = Side.agent.half f.ty
    · rw [hk]
      split <;> simp
    · split <;> simp [Channel.setQueue_ne _ _ hk]

theorem apart_step {a : PrioLink.Act}
    (h : ∀ k, ∀ f ∈ (w.queue k).granted, isDownloadOf sid f = false)
    (ha : ∀ f, a.grants = some f → isDownloadOf sid f = false)
    (hstep : PrioLink.step .agent w a = some w') :
    framesOf (isDownloadOf sid) w'.sent = framesOf (isDownloadOf sid) w.sent ∧
      ∀ k, ∀ f ∈ (w'.queue k).granted, isDownloadOf sid f = false := by
  rcases PrioLink.step_cases hstep with ⟨f,hf,hsent,hgranted⟩ | ⟨hgranted,hsent⟩
  · refine ⟨by rw [hsent],fun k g hg => ?_⟩
    rcases hgranted k g hg with hold | ⟨-,rfl⟩
    · exact h k g hold
    · exact ha g hf
  · refine ⟨?_,fun k g hg => h k g (hgranted k hg)⟩
    rcases hsent with hsent | ⟨k,f,hf,hsent⟩
    · rw [hsent]
    · rw [hsent, framesOf_concat]
      simp [h k f hf]

end Writer

section Steps
variable {s t : Stream} {a : StreamClose.Act}

theorem isDownloadOf_downloadFrame (sid : UInt32) (e : DownloadEvent) :
    isDownloadOf sid (downloadFrame sid e) = true := by
  cases e <;> simp [isDownloadOf, downloadFrame, Frame.ty, Body.ty]

theorem no_downloads_of_ty {sid : UInt32} {f : Frame} (h : halfToHub f.ty = .hi) :
    isDownloadOf sid f = false := by
  cases hdl : isDownloadOf sid f with
  | false => rfl
  | true => exact absurd ((half_download hdl).symm.trans h) nofun

theorem eventFrames_apart (sid : UInt32) (e : SessionFanout.SessionEvent) :
    (SessionFanout.eventFrames sid e).filter (isDownloadOf sid) = [] := by
  apply List.filter_eq_nil_iff.mpr
  intro f hf
  rw [no_downloads_of_ty]
  · exact Bool.false_ne_true
  · cases e with
    | data bytes =>
      obtain ⟨c,-,rfl⟩ := List.mem_map.mp hf
      rfl
    | controllerChanged c =>
      rw [List.mem_singleton.mp hf]
      rfl
    | closed =>
      rw [List.mem_singleton.mp hf]
      rfl

theorem forwarded_of_underway (h : Forwarded s) (hsid : t.sid = s.sid)
    (hwriter : InOrder biased t.writer ∧ Routed .agent t.writer)
    (hothers : ∀ k, ∀ f ∈ (t.writer.queue k).granted, isDownloadOf s.sid f = false)
    (hlog : ∃ more, t.downloadLog = s.downloadLog++more) (hrx : t.downloadRx = s.downloadRx)
    (hunderway : (underway t).Sublist (underway s)) : Forwarded t := by
  obtain ⟨more,hmore⟩ := hlog
  refine ⟨hwriter.1,hwriter.2,?_,?_,?_⟩
  · rw [hsid]
    exact hothers
  · rw [hmore, hrx, List.length_append]
    exact Nat.le_add_right_of_le h.within
  · rw [hmore, hrx, hsid, List.take_append_of_le_length h.within]
    exact hunderway.trans h.downloads

theorem forwarded_of_todo (h : Forwarded s) (hsid : t.sid = s.sid) (hwriter : t.writer = s.writer)
    (hlog : ∃ more, t.downloadLog = s.downloadLog++more) (hrx : t.downloadRx = s.downloadRx)
    (htodo : (t.todo.filter (isDownloadOf s.sid)).Sublist (s.todo.filter (isDownloadOf s.sid))) :
    Forwarded t := by
  apply forwarded_of_underway h hsid _ _ hlog hrx
  · unfold underway
    rw [hsid, hwriter]
    exact (List.Sublist.refl _).append htodo
  · rw [hwriter]
    exact ⟨h.order,h.routed⟩
  · rw [hwriter]
    exact h.others

theorem forwarded_recv {rx : Receiver} {got : Option DownloadEvent} (h : Forwarded s)
    (htodo : s.todo = []) (hrecv : s.downloadRx.recv downloadBroadcastCap s.downloadLog = some (rx,got))
    (hsid : t.sid = s.sid) (hwriter : t.writer = s.writer) (hlog : t.downloadLog = s.downloadLog)
    (hrx : t.downloadRx = rx) (hnew : t.todo = (got.map (downloadFrame s.sid)).toList) :
    Forwarded t := by
  obtain ⟨hwithin,htake⟩ := Receiver.recv_take h.within hrecv
  have hunderway : underway t = underway s++(got.toList).map (downloadFrame s.sid) := by
    have hkeep : (got.toList.map (downloadFrame s.sid)).filter (isDownloadOf s.sid) =
        got.toList.map (downloadFrame s.sid) := by
      apply List.filter_eq_self.mpr
      intro f hf
      obtain ⟨e,-,rfl⟩ := List.mem_map.mp hf
      exact isDownloadOf_downloadFrame s.sid e
    rw [underway, underway, hsid, hwriter, hnew, htodo, Option.toList_map, hkeep]
    simp
  refine ⟨by rw [hwriter]; exact h.order,by rw [hwriter]; exact h.routed,?_,?_,?_⟩
  · rw [hwriter, hsid]
    exact h.others
  · rw [hrx, hlog]
    exact hwithin
  · rw [hunderway, hlog, hrx, hsid]
    apply (h.downloads.append (List.Sublist.refl _)).trans
    rw [← List.map_append]
    exact htake.map _

theorem underway_sendNext {f : Frame} {sent : Bool} {w : Writer}
    (hnow : sendNow .agent s.writer f = some (w,sent)) (hsid : t.sid = s.sid)
    (hwriter : t.writer = w)
    (hf : (∃ rest, s.todo = f::rest ∧ t.todo.Sublist rest) ∨
      t.todo = s.todo ∧ isDownloadOf s.sid f = false) :
    (underway t).Sublist (underway s) := by
  have hsent : (framesOf (isDownloadOf s.sid) w.sent).Sublist
      (framesOf (isDownloadOf s.sid) s.writer.sent++[f].filter (isDownloadOf s.sid)) := by
    obtain ⟨-,-,⟨-,hsent⟩ | ⟨-,-,hsent⟩⟩ := sendNow_logs hnow
    · rw [hsent]
      exact List.sublist_append_left _ _
    · rw [hsent, framesOf_concat]
  unfold underway
  rw [hsid, hwriter]
  rcases hf with ⟨rest,htodo,hsub⟩ | ⟨htodo,hno⟩
  · rw [htodo, ← List.singleton_append, List.filter_append, ← List.append_assoc]
    exact hsent.append (hsub.filter _)
  · rw [htodo]
    simp only [List.filter_cons, hno, Bool.false_eq_true, if_false, List.filter_nil,
      List.append_nil] at hsent
    exact hsent.append (List.Sublist.refl _)

theorem forwarded_send (h : Forwarded s) (hstep : sendNext s = some t) : Forwarded t := by
  obtain ⟨f,u,sent,hsend,⟨hsid,hwriter,-,hlog,hrx⟩,hf⟩ := sendNext_cases hstep
  obtain ⟨w,hnow,rfl,-⟩ := send_writer hsend
  have hlog' : ∃ more, t.downloadLog = s.downloadLog++more := ⟨[],by rw [hlog, List.append_nil]⟩
  apply forwarded_of_underway h hsid _ _ hlog' hrx
  · apply underway_sendNext hnow hsid hwriter
    rcases hf with hwaiting | ⟨htodo,hstatus | ⟨hclose,-⟩⟩
    · exact .inl hwaiting
    · exact .inr ⟨htodo,no_downloads_of_ty (by rw [hstatus]; rfl)⟩
    · exact .inr ⟨htodo,no_downloads_of_ty (by rw [hclose]; rfl)⟩
  · rw [hwriter]
    exact ⟨sendNow_inOrder h.order hnow,routed_sendNow h.routed hnow⟩
  · intro k g hg
    rw [hwriter, granted_sendNow hnow] at hg
    exact h.others k g hg

theorem forwarded_step (h : Forwarded s) (ha : OthersApart s a)
    (hstep : StreamClose.step s a = some t) : Forwarded t := by
  have hsame : ∃ more, s.downloadLog = s.downloadLog++more := ⟨[],(List.append_nil _).symm⟩
  cases effect_of_step hstep with
  | published e => exact forwarded_of_todo h rfl rfl hsame rfl (List.Sublist.refl _)
  | downloaded e => exact forwarded_of_todo h rfl rfl ⟨[e],rfl⟩ rfl (List.Sublist.refl _)
  | sent t hsend => exact forwarded_send h hsend
  | event rx place todo hempty htodo =>
    refine forwarded_of_todo h rfl rfl hsame rfl ?_
    rcases htodo with rfl | ⟨e,-,rfl⟩
    · exact List.nil_sublist _
    · show List.Sublist ((SessionFanout.eventFrames s.sid e).filter _) _
      rw [eventFrames_apart]
      exact List.nil_sublist _
  | download a rx got place todo hempty hrecv htodo =>
    exact forwarded_recv h hempty hrecv rfl rfl rfl rfl htodo
  | moved a place todo htodo =>
    refine forwarded_of_todo h rfl rfl hsame rfl ?_
    rcases htodo with rfl | rfl
    · exact List.Sublist.refl _
    · exact List.nil_sublist _
  | other b w hw =>
    obtain ⟨hframes,hothers⟩ := apart_step h.others ha hw
    refine forwarded_of_underway h rfl ?_ hothers hsame rfl ?_
    · exact ⟨inOrder_step h.order hw,routed_step h.routed hw⟩
    · unfold underway
      rw [hframes]

theorem start_forwarded (sid : UInt32) (eventLog : List SessionFanout.SessionEvent)
    (downloadLog : List DownloadEvent) (scrollback : Bytes) (controller : Option UInt32) :
    Forwarded (Stream.start sid eventLog downloadLog scrollback controller) where
  order := new_inOrder _
  routed := by constructor <;> simp [Stream.start, prioChannel, Channel.new]
  others := by simp [Stream.start, prioChannel, Channel.new]
  within := Nat.le_refl _
  downloads := by
    have hreplay : (SessionFanout.dataFrames sid scrollback).filter (isDownloadOf sid) = [] :=
      eventFrames_apart sid (.data scrollback)
    have hnone : underway (Stream.start sid eventLog downloadLog scrollback controller) = [] :=
      hreplay
    rw [hnone]
    exact List.nil_sublist _

/-- What the writer has delivered of the stream's downloads was broadcast in this order. -/
theorem delivered_sublist (h : Forwarded s) :
    (framesOf (isDownloadOf s.sid) s.writer.delivered).Sublist
      (s.downloadLog.map (downloadFrame s.sid)) := by
  have hpre : framesOf (isDownloadOf s.sid) s.writer.delivered <+:
      framesOf (isDownloadOf s.sid) s.writer.sent :=
    framesOf_prefix (fun f hf => half_download hf) h.routed h.order
  have hsent : (framesOf (isDownloadOf s.sid) s.writer.sent).Sublist (underway s) :=
    List.sublist_append_left _ _
  apply (hpre.sublist.trans hsent).trans
  exact h.downloads.trans ((List.take_sublist _ _).map _)

end Steps

end Term.DownloadPath
