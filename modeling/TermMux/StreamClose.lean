import TermMux.AgentFrames
import TermMux.PrioLink

/-!
# The end of a stream and its downloads

The outbound half of `run_session_stream` forwards the session's events and its
downloads to the writer, drains the downloads when the session closes, and then
sends `Close`; the task around it sends another one. Download frames take the low
half of the writer and `Close` takes the high half, so the drain keeps `Close`
behind the downloads only as long as none of them is still queued when it is sent.
-/

set_option autoImplicit false

namespace Term.StreamClose
open Term.AgentFrames Term.Broadcast Term.ByteOrder Term.DownloadStream Term.FrameModel
open Term.HubLink Term.Machine Term.PrioLink Term.PriorityChannel Term.SessionFanout
open Term.SessionState

def downloadBroadcastCap : ℕ := 32

/-- Where the stream task is. The frames it has still to send there are kept apart. -/
inductive Place where
  | replay
  | live
  | drain
  /-- The `Close` after the drain. -/
  | close
  | ended
  /-- The `Close` of the task around it. -/
  | wrap
  | done
  deriving DecidableEq, Repr

structure Stream where
  sid : StreamId
  writer : Writer
  eventLog : List SessionEvent
  downloadLog : List DownloadEvent
  eventRx : Receiver
  downloadRx : Receiver
  place : Place
  todo : List Frame
  currentController : Option StreamId
  /-- The pushes of this task. -/
  mine : List (Half × Sent Frame)

def Stream.start (sid : StreamId) (eventLog : List SessionEvent) (downloadLog : List DownloadEvent)
    (scrollback : Bytes) (currentController : Option StreamId) : Stream where
  sid := sid
  writer := prioChannel writeHiBytes writeLoBytes
  eventLog := eventLog
  downloadLog := downloadLog
  eventRx := subscribe eventLog
  downloadRx := subscribe downloadLog
  place := .replay
  todo := dataFrames sid scrollback
  currentController := currentController
  mine := []

def send (s : Stream) (f : Frame) : Option (Stream × Bool) :=
  (sendNow .agent s.writer f).map fun (w,sent) =>
    ({ s with
        writer := w
        mine := if sent then s.mine++[(Side.agent.half f.ty,⟨s.writer.sent.length,f⟩)] else s.mine },
      sent)

def sendNext (s : Stream) : Option Stream :=
  match s.place, s.todo with
  | .replay, f::rest =>
    (send s f).map fun (s,sent) => { s with todo := if sent then rest else [] }
  | .replay, [] =>
    (send s (Frame.controllerChanged s.sid (initialStatus s.sid s.currentController))).map
      fun (s,_) => { s with place := .live }
  | .live, f::rest =>
    (send s f).map fun (s,sent) =>
      if sent then { s with todo := rest } else { s with place := .ended, todo := [] }
  | .drain, f::rest => (send s f).map fun (s,_) => { s with todo := rest }
  | .close, _ => (send s (Frame.close s.sid)).map fun (s,_) => { s with place := .ended }
  | .wrap, _ => (send s (Frame.close s.sid)).map fun (s,_) => { s with place := .done }
  | _, _ => none

def recvEvent (s : Stream) : Option Stream :=
  if s.place = .live ∧ s.todo = [] then
    match s.eventRx.recv broadcastCap s.eventLog with
    | none => none
    | some (rx,none) => some { s with eventRx := rx }
    | some (rx,some .closed) => some { s with eventRx := rx, place := .drain }
    | some (rx,some event) => some { s with eventRx := rx, todo := eventFrames s.sid event }
  else none

def recvDownload (s : Stream) : Option Stream :=
  if s.place = .live ∧ s.todo = [] then
    match s.downloadRx.recv downloadBroadcastCap s.downloadLog with
    | none => none
    | some (rx,none) => some { s with downloadRx := rx }
    | some (rx,some event) => some { s with downloadRx := rx, todo := [downloadFrame s.sid event] }
  else none

/-- `download_rx.try_recv()` in the drain loop, which stops at the first error. -/
def drain (s : Stream) : Option Stream :=
  if s.place = .drain ∧ s.todo = [] then
    match s.downloadRx.recv downloadBroadcastCap s.downloadLog with
    | some (rx,some event) => some { s with downloadRx := rx, todo := [downloadFrame s.sid event] }
    | some (rx,none) => some { s with downloadRx := rx, place := .close }
    | none => some { s with place := .close }
  else none

inductive Act where
  | publish (e : SessionEvent)
  | publishDownload (e : DownloadEvent)
  | sendNext
  | recvEvent
  | recvDownload
  | drain
  /-- The inbound half ends first and the outbound half is dropped. -/
  | stop
  /-- `session.detach` and the clean-up of pastes. -/
  | windDown
  /-- Any other user of the writer, and the writer task. -/
  | other (a : PrioLink.Act)
  deriving DecidableEq, Repr

def step (s : Stream) : Act → Option Stream
  | .publish e => some { s with eventLog := s.eventLog++[e] }
  | .publishDownload e => some { s with downloadLog := s.downloadLog++[e] }
  | .sendNext => sendNext s
  | .recvEvent => recvEvent s
  | .recvDownload => recvDownload s
  | .drain => drain s
  | .stop =>
    if s.place ∈ [Place.live,.drain,.close] then some { s with place := .ended, todo := [] } else none
  | .windDown => if s.place = .ended then some { s with place := .wrap } else none
  | .other a => (PrioLink.step .agent s.writer a).map fun w => { s with writer := w }

def Closing (s : Stream) : Act → Prop
  | .sendNext => s.place = .close ∨ s.place = .wrap
  | _ => False

def Flushed (s : Stream) (a : Act) : Prop :=
  Closing s a → ∀ x ∈ (s.writer.queue .lo).items, isDownloadOf s.sid x.item = true →
    (.lo,x) ∉ s.mine

def downloadsBefore (s : Stream) (y : Sent Frame) : List (Half × Sent Frame) :=
  s.mine.filter fun p => isDownloadOf s.sid p.2.item && decide (p.2.seq < y.seq)

/-- A `Close` of the task that has been delivered comes after all download frames the
task sent before it, which were delivered in the order they were sent. -/
def ClosesLast (s : Stream) : Prop :=
  ∀ h y, (h,y) ∈ s.mine → y.item = Frame.close s.sid →
    ∀ ds es, s.writer.delivered = ds++(h,y)::es → (downloadsBefore s y).Sublist ds

section Steps
variable {s t u : Stream} {a : Act}

theorem sendNext_cases (h : sendNext s = some t) : ∃ f u sent, send s f = some (u,sent) ∧
    (t.sid = s.sid ∧ t.writer = u.writer ∧ t.mine = u.mine ∧ t.downloadLog = s.downloadLog ∧
      t.downloadRx = s.downloadRx) ∧
    ((∃ rest, s.todo = f::rest ∧ t.todo.Sublist rest) ∨
      t.todo = s.todo ∧ (f.ty = .controllerChanged ∨ f.ty = .close ∧ Closing s .sendNext)) := by
  have hsame : ∀ {f u sent}, send s f = some (u,sent) → u.sid = s.sid ∧ u.todo = s.todo ∧
      u.downloadLog = s.downloadLog ∧ u.downloadRx = s.downloadRx := by
    intro f u sent hsend
    obtain ⟨⟨w,b⟩,-,heq⟩ := Option.map_eq_some_iff.mp hsend
    cases heq
    exact ⟨rfl,rfl,rfl,rfl⟩
  unfold sendNext at h
  split at h
  · next f rest hp htodo =>
    obtain ⟨⟨u,sent⟩,hsend,rfl⟩ := Option.map_eq_some_iff.mp h
    obtain ⟨hsid,-,hlog,hrx⟩ := hsame hsend
    refine ⟨f,u,sent,hsend,⟨hsid,rfl,rfl,hlog,hrx⟩,.inl ⟨rest,htodo,?_⟩⟩
    cases sent with
    | true => exact List.Sublist.refl rest
    | false => exact List.nil_sublist rest
  · obtain ⟨⟨u,sent⟩,hsend,rfl⟩ := Option.map_eq_some_iff.mp h
    obtain ⟨hsid,htodo,hlog,hrx⟩ := hsame hsend
    exact ⟨_,u,sent,hsend,⟨hsid,rfl,rfl,hlog,hrx⟩,.inr ⟨htodo,.inl rfl⟩⟩
  · next f rest hp htodo =>
    obtain ⟨⟨u,sent⟩,hsend,rfl⟩ := Option.map_eq_some_iff.mp h
    obtain ⟨hsid,-,hlog,hrx⟩ := hsame hsend
    cases sent with
    | true =>
      exact ⟨f,u,true,hsend,⟨hsid,rfl,rfl,hlog,hrx⟩,.inl ⟨rest,htodo,List.Sublist.refl rest⟩⟩
    | false =>
      exact ⟨f,u,false,hsend,⟨hsid,rfl,rfl,hlog,hrx⟩,.inl ⟨rest,htodo,List.nil_sublist rest⟩⟩
  · next f rest hp htodo =>
    obtain ⟨⟨u,sent⟩,hsend,rfl⟩ := Option.map_eq_some_iff.mp h
    obtain ⟨hsid,-,hlog,hrx⟩ := hsame hsend
    exact ⟨f,u,sent,hsend,⟨hsid,rfl,rfl,hlog,hrx⟩,.inl ⟨rest,htodo,List.Sublist.refl rest⟩⟩
  · next hp =>
    obtain ⟨⟨u,sent⟩,hsend,rfl⟩ := Option.map_eq_some_iff.mp h
    obtain ⟨hsid,htodo,hlog,hrx⟩ := hsame hsend
    exact ⟨_,u,sent,hsend,⟨hsid,rfl,rfl,hlog,hrx⟩,.inr ⟨htodo,.inr ⟨rfl,.inl hp⟩⟩⟩
  · next hp =>
    obtain ⟨⟨u,sent⟩,hsend,rfl⟩ := Option.map_eq_some_iff.mp h
    obtain ⟨hsid,htodo,hlog,hrx⟩ := hsame hsend
    exact ⟨_,u,sent,hsend,⟨hsid,rfl,rfl,hlog,hrx⟩,.inr ⟨htodo,.inr ⟨rfl,.inr hp⟩⟩⟩
  · cases h

/-- What a step can do. The frames still to be sent are those of the last event received. -/
inductive Effect (s : Stream) : Act → Stream → Prop where
  | published (e : SessionEvent) : Effect s (.publish e) { s with eventLog := s.eventLog++[e] }
  | downloaded (e : DownloadEvent) :
    Effect s (.publishDownload e) { s with downloadLog := s.downloadLog++[e] }
  | sent (t : Stream) (hsend : sendNext s = some t) : Effect s .sendNext t
  | event (rx : Receiver) (place : Place) (todo : List Frame) (hempty : s.todo = [])
    (htodo : todo = [] ∨ ∃ e, e ≠ .closed ∧ todo = eventFrames s.sid e) :
    Effect s .recvEvent { s with eventRx := rx, place := place, todo := todo }
  | download (a : Act) (rx : Receiver) (got : Option DownloadEvent) (place : Place)
    (todo : List Frame) (hempty : s.todo = [])
    (hrecv : s.downloadRx.recv downloadBroadcastCap s.downloadLog = some (rx,got))
    (htodo : todo = (got.map (downloadFrame s.sid)).toList) :
    Effect s a { s with downloadRx := rx, place := place, todo := todo }
  /-- The task goes on to another place, with or without the frames it has. -/
  | moved (a : Act) (place : Place) (todo : List Frame) (htodo : todo = s.todo ∨ todo = []) :
    Effect s a { s with place := place, todo := todo }
  | other (b : PrioLink.Act) (w : Writer) (hw : PrioLink.step .agent s.writer b = some w) :
    Effect s (.other b) { s with writer := w }

theorem effect_recvEvent (h : recvEvent s = some t) : Effect s .recvEvent t := by
  unfold recvEvent at h
  split_ifs at h with hlive
  cases hrecv : s.eventRx.recv broadcastCap s.eventLog with
  | none => simp [hrecv] at h
  | some p =>
    obtain ⟨rx,got⟩ := p
    cases got with
    | none =>
      simp only [hrecv] at h
      cases h
      exact .event rx s.place s.todo hlive.2 (.inl hlive.2)
    | some e =>
      cases e with
      | closed =>
        simp only [hrecv] at h
        cases h
        exact .event rx .drain s.todo hlive.2 (.inl hlive.2)
      | data bytes =>
        simp only [hrecv] at h
        cases h
        exact .event rx s.place _ hlive.2 (.inr ⟨.data bytes,nofun,rfl⟩)
      | controllerChanged c =>
        simp only [hrecv] at h
        cases h
        exact .event rx s.place _ hlive.2 (.inr ⟨.controllerChanged c,nofun,rfl⟩)

theorem effect_recvDownload (h : recvDownload s = some t) : Effect s .recvDownload t := by
  unfold recvDownload at h
  split_ifs at h with hlive
  cases hrecv : s.downloadRx.recv downloadBroadcastCap s.downloadLog with
  | none => simp [hrecv] at h
  | some p =>
    obtain ⟨rx,got⟩ := p
    cases got with
    | none =>
      simp only [hrecv] at h
      cases h
      exact .download _ rx none s.place s.todo hlive.2 hrecv hlive.2
    | some e =>
      simp only [hrecv] at h
      cases h
      exact .download _ rx (some e) s.place _ hlive.2 hrecv rfl

theorem effect_drain (h : drain s = some t) : Effect s .drain t := by
  unfold drain at h
  split_ifs at h with hdrain
  cases hrecv : s.downloadRx.recv downloadBroadcastCap s.downloadLog with
  | none =>
    simp only [hrecv] at h
    cases h
    exact .moved _ .close s.todo (.inl rfl)
  | some p =>
    obtain ⟨rx,got⟩ := p
    cases got with
    | none =>
      simp only [hrecv] at h
      cases h
      exact .download _ rx none .close s.todo hdrain.2 hrecv hdrain.2
    | some e =>
      simp only [hrecv] at h
      cases h
      exact .download _ rx (some e) s.place _ hdrain.2 hrecv rfl

theorem effect_of_step (h : step s a = some t) : Effect s a t := by
  cases a with
  | publish e =>
    cases h
    exact .published e
  | publishDownload e =>
    cases h
    exact .downloaded e
  | sendNext => exact .sent t h
  | recvEvent => exact effect_recvEvent h
  | recvDownload => exact effect_recvDownload h
  | drain => exact effect_drain h
  | stop =>
    simp only [step, Option.ite_none_right_eq_some, Option.some.injEq] at h
    obtain ⟨-,rfl⟩ := h
    exact .moved _ .ended [] (.inr rfl)
  | windDown =>
    simp only [step, Option.ite_none_right_eq_some, Option.some.injEq] at h
    obtain ⟨-,rfl⟩ := h
    exact .moved _ .wrap s.todo (.inl rfl)
  | other b =>
    obtain ⟨w,hw,rfl⟩ := Option.map_eq_some_iff.mp h
    exact .other b w hw

/-- What a step does to the writer and to the pushes of the task: nothing, a step of
another user, or one send of the task. -/
theorem step_cases (h : step s a = some t) : t.sid = s.sid ∧
    (t.writer = s.writer ∧ t.mine = s.mine ∨
      (∃ b, PrioLink.step .agent s.writer b = some t.writer ∧ t.mine = s.mine) ∨
      ∃ f u sent, send s f = some (u,sent) ∧ t.writer = u.writer ∧ t.mine = u.mine ∧
        (f ∈ s.todo ∨ f.ty = .controllerChanged ∨ Closing s a)) := by
  cases effect_of_step h with
  | published e
  | downloaded e
  | event rx place todo hempty htodo
  | download a rx got place todo hempty hrecv htodo
  | moved a place todo htodo => exact ⟨rfl,.inl ⟨rfl,rfl⟩⟩
  | other b w hw => exact ⟨rfl,.inr (.inl ⟨b,hw,rfl⟩)⟩
  | sent t hsend =>
    obtain ⟨f,u,sent,hsend,⟨hsid,hwriter,hmine,-⟩,hf⟩ := sendNext_cases hsend
    refine ⟨hsid,.inr (.inr ⟨f,u,sent,hsend,hwriter,hmine,?_⟩)⟩
    rcases hf with ⟨rest,htodo,-⟩ | ⟨-,hstatus | ⟨-,hclosing⟩⟩
    · exact .inl (by simp [htodo])
    · exact .inr (.inl hstatus)
    · exact .inr (.inr hclosing)

def Plain (s : Stream) : Prop := ∀ f ∈ s.todo, f.ty ≠ .close

theorem dataFrames_plain {sid : StreamId} {bytes : Bytes} {f : Frame}
    (h : f ∈ dataFrames sid bytes) : f.ty ≠ .close := by
  obtain ⟨c,-,rfl⟩ := List.mem_map.mp h
  exact nofun

theorem eventFrames_plain {sid : StreamId} {e : SessionEvent} {f : Frame} (he : e ≠ .closed)
    (h : f ∈ eventFrames sid e) : f.ty ≠ .close := by
  cases e with
  | data bytes => exact dataFrames_plain h
  | controllerChanged c =>
    rw [List.mem_singleton.mp h]
    exact nofun
  | closed => exact absurd rfl he

theorem downloadFrame_plain (sid : StreamId) (e : DownloadEvent) :
    (downloadFrame sid e).ty ≠ .close := by
  cases e <;> exact nofun

theorem step_plain (hp : Plain s) (h : step s a = some t) : Plain t := by
  cases effect_of_step h with
  | published e
  | downloaded e
  | other b w hw => exact hp
  | sent t hsend =>
    obtain ⟨_,_,_,_,_,⟨rest,htodo,hsub⟩ | ⟨htodo,-⟩⟩ := sendNext_cases hsend
    · intro f hf
      apply hp f
      rw [htodo]
      exact List.mem_cons_of_mem _ (hsub.subset hf)
    · rw [Plain, htodo]
      exact hp
  | event rx place todo hempty htodo =>
    rcases htodo with rfl | ⟨e,he,rfl⟩
    · exact nofun
    · exact fun f hf => eventFrames_plain he hf
  | download a rx got place todo hempty hrecv htodo =>
    subst htodo
    cases got with
    | none => exact nofun
    | some e => exact List.forall_mem_singleton.mpr (downloadFrame_plain _ _)
  | moved a place todo htodo =>
    rcases htodo with rfl | rfl
    · exact hp
    · exact nofun

end Steps

/-- The pushes of the task stand in the writer's log in their order, and every download
frame pushed before a `Close` was delivered before it. -/
structure Inv (s : Stream) : Prop where
  plain : Plain s
  order : InOrder biased s.writer
  own : s.mine.Sublist s.writer.sent
  routed : ∀ p ∈ s.mine, p.1 = Side.agent.half p.2.item.ty
  kept : ∀ h y, (h,y) ∈ s.mine → y.item = Frame.close s.sid →
    ∀ p ∈ downloadsBefore s y, Before p (h,y) s.writer.delivered

section Preservation
variable {s t u : Stream} {a : Act}

theorem mem_downloadsBefore {y : Sent Frame} {p : Half × Sent Frame} :
    p ∈ downloadsBefore s y ↔
      p ∈ s.mine ∧ isDownloadOf s.sid p.2.item = true ∧ p.2.seq < y.seq := by
  simp [downloadsBefore]

theorem inv_quiet (h : Inv s) (hplain : Plain t) (horder : InOrder biased t.writer)
    (hsid : t.sid = s.sid) (hmine : t.mine = s.mine)
    (hsent : ∃ more, t.writer.sent = s.writer.sent++more)
    (hdelivered : t.writer.delivered = s.writer.delivered ∨
      ∃ p, t.writer.delivered = s.writer.delivered++[p]) : Inv t := by
  obtain ⟨more,hmore⟩ := hsent
  refine ⟨hplain,horder,?_,?_,?_⟩
  · rw [hmine, hmore]
    exact h.own.trans (List.sublist_append_left _ _)
  · rw [hmine]
    exact h.routed
  · intro k y hy hclose p hp
    have hsame : downloadsBefore t y = downloadsBefore s y := by
      rw [downloadsBefore, hmine, hsid]
      rfl
    rw [hmine] at hy
    rw [hsid] at hclose
    rw [hsame] at hp
    have hbefore := h.kept k y hy hclose p hp
    rcases hdelivered with heq | ⟨r,heq⟩
    · rw [heq]
      exact hbefore
    · rw [heq]
      exact before_concat hbefore r

theorem send_writer {f : Frame} {sent : Bool} (h : send s f = some (u,sent)) :
    ∃ w, sendNow .agent s.writer f = some (w,sent) ∧ u.writer = w ∧
      u.mine = if sent then s.mine++[(Side.agent.half f.ty,⟨s.writer.sent.length,f⟩)]
        else s.mine := by
  obtain ⟨⟨w,b⟩,hsend,heq⟩ := Option.map_eq_some_iff.mp h
  cases heq
  exact ⟨w,hsend,rfl,rfl⟩

/-- A push of the task. Only the push of a `Close` needs the low half to be flushed. -/
theorem inv_push {f : Frame} (h : Inv s) (hplain : Plain t) (horder : InOrder biased t.writer)
    (hsid : t.sid = s.sid) (hr : s.writer.receiving = true)
    (hsent : t.writer.sent = s.writer.sent++[(Side.agent.half f.ty,⟨s.writer.sent.length,f⟩)])
    (hdelivered : t.writer.delivered = s.writer.delivered)
    (hmine : t.mine = s.mine++[(Side.agent.half f.ty,⟨s.writer.sent.length,f⟩)])
    (hflushed : f = Frame.close s.sid → ∀ x ∈ (s.writer.queue .lo).items,
      isDownloadOf s.sid x.item = true → (.lo,x) ∉ s.mine) : Inv t := by
  have hbelow : ∀ p ∈ s.mine, p.2.seq < s.writer.sent.length :=
    fun p hp => h.order.below p (h.own.subset hp)
  refine ⟨hplain,horder,?_,?_,?_⟩
  · rw [hmine, hsent]
    exact h.own.append (List.Sublist.refl _)
  · rw [hmine]
    exact forall_mem_concat h.routed rfl
  · intro k y hy hclose p hp
    rw [mem_downloadsBefore, hmine, hsid] at hp
    obtain ⟨hpmine,hdl,hlt⟩ := hp
    rw [hmine] at hy
    rw [hsid] at hclose
    rw [hdelivered]
    rcases List.mem_append.mp hy with hold | hnew
    · have hylt := hbelow _ hold
      rcases List.mem_append.mp hpmine with hpold | hpnew
      · exact h.kept k y hold hclose p (mem_downloadsBefore.mpr ⟨hpold,hdl,hlt⟩)
      · rw [List.mem_singleton.mp hpnew] at hlt
        simp only at hlt hylt
        omega
    · -- The `Close` just pushed: a download frame is delivered, since none is queued.
      cases List.mem_singleton.mp hnew
      have hpold : p ∈ s.mine := by
        rcases List.mem_append.mp hpmine with hpold | hpnew
        · exact hpold
        · rw [List.mem_singleton.mp hpnew] at hlt
          simp only at hlt
          omega
      have hlo : p.1 = .lo := by rw [h.routed p hpold, half_download hdl]
      have hon : p.2 ∈ on .lo s.writer.sent := by
        apply mem_on.mpr
        rw [← hlo]
        exact h.own.subset hpold
      rw [h.order.fifo hr .lo] at hon
      have hpdelivered : p ∈ s.writer.delivered := by
        rcases List.mem_append.mp hon with hd | hqueued
        · have := mem_on.mp hd
          rwa [← hlo] at this
        · exfalso
          apply hflushed hclose p.2 hqueued hdl
          rw [← hlo]
          exact hpold
      apply before_fresh hpdelivered
      intro hmem
      have hold := h.order.below _ (mem_on.mp ((h.order.part _).subset (mem_on.mpr hmem)))
      simp only at hold
      omega

theorem inv_step (h : Inv s) (hok : Flushed s a) (hstep : step s a = some t) : Inv t := by
  have hplain := step_plain h.plain hstep
  obtain ⟨hsid,hcases⟩ := step_cases hstep
  rcases hcases with ⟨hwriter,hmine⟩ | ⟨b,hb,hmine⟩ | ⟨f,u,sent,hsend,hwriter,hmine,hf⟩
  · apply inv_quiet h hplain _ hsid hmine ⟨[],by simp [hwriter]⟩ (.inl (by rw [hwriter]))
    rw [hwriter]
    exact h.order
  · obtain ⟨hsent,hdelivered⟩ := step_logs hb
    exact inv_quiet h hplain (inOrder_step h.order hb) hsid hmine hsent hdelivered
  · obtain ⟨w,hnow,rfl,hpushes⟩ := send_writer hsend
    have horder : InOrder biased t.writer := by
      rw [hwriter]
      exact sendNow_inOrder h.order hnow
    obtain ⟨hdelivered,-,hlog⟩ := sendNow_logs hnow
    rw [← hwriter] at hdelivered hlog
    rcases hlog with ⟨rfl,hsent⟩ | ⟨rfl,hr,hsent⟩
    · apply inv_quiet h hplain horder hsid _ ⟨[],by simp [hsent]⟩ (.inl hdelivered)
      rw [hmine, hpushes]
      rfl
    · apply inv_push h hplain horder hsid hr hsent hdelivered
      · rw [hmine, hpushes]
        rfl
      · intro hclose
        apply hok
        rcases hf with htodo | hstatus | hclosing
        · exact absurd (by rw [hclose]; rfl) (h.plain f htodo)
        · rw [hclose] at hstatus
          cases hstatus
        · exact hclosing

theorem start_inv (sid : StreamId) (eventLog : List SessionEvent)
    (downloadLog : List DownloadEvent) (scrollback : Bytes) (controller : Option StreamId) :
    Inv (Stream.start sid eventLog downloadLog scrollback controller) where
  plain := fun _ hf => dataFrames_plain hf
  order := new_inOrder _
  own := List.nil_sublist _
  routed := nofun
  kept := nofun

end Preservation

theorem inv_closesLast {s : Stream} (h : Inv s) : ClosesLast s := by
  intro k y hy hclose ds es hd
  have hmem : ∀ p ∈ downloadsBefore s y, p ∈ ds.filter fun p => p.1 = .lo := by
    intro p hp
    obtain ⟨hpmine,hdl,-⟩ := mem_downloadsBefore.mp hp
    have hlo : p.1 = .lo := by rw [h.routed p hpmine, half_download hdl]
    exact List.mem_filter.mpr ⟨(h.kept k y hy hclose p hp).2 ds es hd,by simp [hlo]⟩
  have hsub : (downloadsBefore s y).Sublist s.writer.sent := List.filter_sublist.trans h.own
  have hrise : (on .lo ds).Pairwise fun x y => x.seq < y.seq := by
    have hpart : on .lo ds <+: on .lo s.writer.sent := by
      apply List.IsPrefix.trans _ (h.order.part .lo)
      rw [hd, on_append]
      exact List.prefix_append _ _
    exact (rising_on h.order.rising .lo).sublist hpart.sublist
  exact (sublist_of_rising (h.order.rising.sublist hsub) (rising_filter hrise) hmem).trans
    List.filter_sublist

/-- In every run in which the task finds none of its download frames queued when it sends
`Close`, every download frame it sent reaches the hub before `Close` does. -/
theorem downloads_before_close (sid : StreamId) (eventLog : List SessionEvent)
    (downloadLog : List DownloadEvent) (scrollback : Bytes) (controller : Option StreamId)
    (as : List Act) (s : Stream)
    (hok : Along step Flushed (Stream.start sid eventLog downloadLog scrollback controller) as)
    (hrun : run step (Stream.start sid eventLog downloadLog scrollback controller) as = some s) :
    ClosesLast s :=
  inv_closesLast (run_along step (fun _ _ _ h hok hstep => inv_step h hok hstep)
    (start_inv sid eventLog downloadLog scrollback controller) hok hrun)

def downloadThenExit (writes : ℕ) : List Act :=
  [.sendNext,.publishDownload (.begin_ 1 2 "a"),.publishDownload (.chunk 1 [7,7]),
    .publishDownload (.end_ 1 downloadStatusOk),.recvDownload,.sendNext,.recvDownload,.sendNext,
    .publish .closed,.recvEvent,.drain,.sendNext,.drain]++
    List.replicate writes (.other .recv)++[.sendNext,.other .recv]

instance (s : Stream) (a : Act) : Decidable (Closing s a) :=
  match a with
  | .sendNext => inferInstanceAs (Decidable (_ ∨ _))
  | .publish _ => isFalse id
  | .publishDownload _ => isFalse id
  | .recvEvent => isFalse id
  | .recvDownload => isFalse id
  | .drain => isFalse id
  | .stop => isFalse id
  | .windDown => isFalse id
  | .other _ => isFalse id

instance (s : Stream) (a : Act) : Decidable (Flushed s a) := inferInstanceAs (Decidable (_ → _))

theorem flushed_download_before_close :
    ∃ s, run step (Stream.start 1 [] [] [] none) (downloadThenExit 4) = some s ∧
      s.writer.delivered.map (fun p => p.2.item.ty) =
        [.controllerChanged,.downloadBegin,.downloadChunk,.downloadEnd,.close] ∧
      ClosesLast s := by
  have hok : Along step Flushed (Stream.start 1 [] [] [] none) (downloadThenExit 4) := by
    decide +kernel
  have hfacts : ((run step (Stream.start 1 [] [] [] none) (downloadThenExit 4)).map fun s =>
      s.writer.delivered.map fun p => p.2.item.ty) =
      some [.controllerChanged,.downloadBegin,.downloadChunk,.downloadEnd,.close] := by
    decide +kernel
  obtain ⟨s,hrun,hs⟩ := Option.map_eq_some_iff.mp hfacts
  exact ⟨s,hrun,hs,downloads_before_close 1 [] [] [] none _ s hok hrun⟩

/-- The writer takes `Close` while the file is still queued behind it. -/
theorem close_overtakes_download :
    ∃ s, run step (Stream.start 1 [] [] [] none) (downloadThenExit 1) = some s ∧
      ¬ClosesLast s := by
  have hfacts : ((run step (Stream.start 1 [] [] [] none) (downloadThenExit 1)).map fun s =>
      (s.sid,s.writer.delivered,decide ((.hi,⟨4,Frame.close 1⟩) ∈ s.mine),
        (downloadsBefore s ⟨4,Frame.close 1⟩).length)) =
      some (1,[(.hi,⟨0,Frame.controllerChanged 1 controllerStatusNone⟩),(.hi,⟨4,Frame.close 1⟩)],
        true,3) := by
    decide +kernel
  obtain ⟨s,hrun,hs⟩ := Option.map_eq_some_iff.mp hfacts
  simp only [Prod.mk.injEq, decide_eq_true_eq] at hs
  obtain ⟨hsid,hdelivered,hmine,hbefore⟩ := hs
  refine ⟨s,hrun,fun hlast => ?_⟩
  have hsub := hlast .hi ⟨4,Frame.close 1⟩ hmine (by rw [hsid])
    [(.hi,⟨0,Frame.controllerChanged 1 controllerStatusNone⟩)] [] hdelivered
  have hlen := hsub.length_le
  rw [hbefore] at hlen
  exact absurd hlen (by decide)

end Term.StreamClose
