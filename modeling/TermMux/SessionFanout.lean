import TermMux.Broadcast
import TermMux.Machine
import TermMux.OscStream
import TermMux.SessionState

/-!
# Fan-out of a session to its streams

The session reader, the operations on the session lock with the PTY resizes and
`ControllerChanged` broadcasts that follow them, and one task a stream: attach,
replay of the scrollback, the initial controller status, then the outbound loop
over the broadcast channel next to the inbound loop. A task is identified by
its position, a stream id is only what it carries. Every step is what the source
does between two points at which another thread can run.
-/

set_option autoImplicit false

namespace Term.SessionFanout
open Term.Broadcast Term.ByteOrder Term.FrameModel Term.OscStream Term.SessionState

def broadcastCap : ℕ := 1024

inductive SessionEvent where
  | data (bytes : Bytes)
  | controllerChanged (controller : StreamId)
  | closed
  deriving DecidableEq, Repr

inductive Phase where
  | attaching | replaying | live | winding | detached
  deriving DecidableEq, Repr

/-- `run_session_stream`. `todo` are the frames its current loop has still to send. -/
structure Task where
  sid : StreamId
  phase : Phase
  eventRx : Receiver
  scrollback : Bytes
  currentController : Option StreamId
  todo : List Frame
  sent : List Frame
  writerClosed : Bool
  failed : Bool
  deriving DecidableEq, Repr

def dataFrames (sid : StreamId) (bytes : Bytes) : List Frame :=
  (chunks maxDataLen bytes).map (Frame.data sid)

def initialStatus (sid : StreamId) (currentController : Option StreamId) : UInt8 :=
  match currentController with
  | none => controllerStatusNone
  | some c => if c = sid then controllerStatusSelf else controllerStatusOther

def changedStatus (sid controller : StreamId) : UInt8 :=
  if controller = controllerNoneStreamId then controllerStatusNone
  else if controller = sid then controllerStatusSelf
  else controllerStatusOther

def eventFrames (sid : StreamId) : SessionEvent → List Frame
  | .data bytes => dataFrames sid bytes
  | .controllerChanged controller => [Frame.controllerChanged sid (changedStatus sid controller)]
  | .closed => [Frame.close sid]

namespace Task

def new (sid : StreamId) (log : List SessionEvent) (inner : SessionInner)
    (currentController : Option StreamId) : Task :=
  let scrollback := inner.scrollback.snapshot
  ⟨sid,.attaching,subscribe log,scrollback,currentController,dataFrames sid scrollback,[],false,
    false⟩

def start (t : Task) : Option Task :=
  if t.phase = .attaching then some { t with phase := .replaying } else none

def send (t : Task) : Option Task :=
  match t.phase, t.todo with
  | .replaying, f::rest =>
    -- A failed send ends the replay, not the task.
    if t.writerClosed then some { t with todo := [], failed := true }
    else some { t with todo := rest, sent := t.sent++[f] }
  | .replaying, [] =>
    if t.writerClosed then some { t with phase := .live, failed := true }
    else some { t with phase := .live, sent := t.sent++[Frame.controllerChanged t.sid
      (initialStatus t.sid t.currentController)] }
  | .live, f::rest =>
    if t.writerClosed then some { t with phase := .winding, failed := true }
    else some { t with phase := if f.body = .close then .winding else .live, todo := rest,
                       sent := t.sent++[f] }
  | _, _ => none

def recv (log : List SessionEvent) (t : Task) : Option Task :=
  if t.phase = .live ∧ t.todo = [] then
    match t.eventRx.recv broadcastCap log with
    | none => none
    | some (rx,none) => some { t with eventRx := rx }
    | some (rx,some event) => some { t with eventRx := rx, todo := eventFrames t.sid event }
  else none

def stop (t : Task) : Option Task :=
  if t.phase = .live then some { t with phase := .winding } else none

/-- A send hands over the next frame, or the initial status after the replay; or it
fails, and from then on every send of this task does. -/
theorem send_cases {t u : Task} (h : t.send = some u) :
    (t.writerClosed = true ∧ ∃ phase todo, todo ⊆ t.todo ∧
      (phase = t.phase ∨ phase = .live ∨ phase = .winding) ∧
      u = { t with phase := phase, todo := todo, failed := true }) ∨
    (t.writerClosed = false ∧ ∃ f rest phase, t.todo = f::rest ∧
      (phase = t.phase ∨ t.phase = .live ∧ phase = .winding) ∧
      u = { t with phase := phase, todo := rest, sent := t.sent++[f] }) ∨
    (t.writerClosed = false ∧ t.phase = .replaying ∧ t.todo = [] ∧
      u = { t with phase := .live, sent := t.sent++[Frame.controllerChanged t.sid
        (initialStatus t.sid t.currentController)] }) := by
  unfold send at h
  cases hw : t.writerClosed with
  | true =>
    refine .inl ⟨rfl,?_⟩
    simp only [hw, if_true] at h
    split at h
    · next f rest hp htodo =>
      exact ⟨t.phase,[],by simp,.inl rfl,by simpa [hp] using h.symm⟩
    · next hp htodo =>
      exact ⟨.live,t.todo,List.Subset.refl _,.inr (.inl rfl),by simpa using h.symm⟩
    · next f rest hp htodo =>
      exact ⟨.winding,t.todo,List.Subset.refl _,.inr (.inr rfl),by simpa using h.symm⟩
    · cases h
  | false =>
    simp only [hw, Bool.false_eq_true, if_false] at h
    split at h
    · next f rest hp htodo =>
      exact .inr (.inl ⟨rfl,f,rest,t.phase,htodo,.inl rfl,by simpa [hp] using h.symm⟩)
    · next hp htodo =>
      exact .inr (.inr ⟨rfl,hp,htodo,by simpa using h.symm⟩)
    · next f rest hp htodo =>
      by_cases hclose : f.body = .close
      · rw [if_pos hclose] at h
        exact .inr (.inl ⟨rfl,f,rest,.winding,htodo,.inr ⟨hp,rfl⟩,by simpa using h.symm⟩)
      · rw [if_neg hclose] at h
        exact .inr (.inl ⟨rfl,f,rest,t.phase,htodo,.inl rfl,by simpa [hp] using h.symm⟩)
    · cases h

theorem recv_cases {log : List SessionEvent} {t u : Task} (hrx : t.eventRx.Within log)
    (h : t.recv log = some u) :
    t.phase = .live ∧ t.todo = [] ∧ ∃ rx, rx.Within log ∧ rx.start = t.eventRx.start ∧
      (rx.lagged = true ∧ u = { t with eventRx := rx } ∨
        rx.lagged = t.eventRx.lagged ∧ ∃ event, rx.seen log = t.eventRx.seen log++[event] ∧
          u = { t with eventRx := rx, todo := eventFrames t.sid event }) := by
  unfold recv at h
  by_cases hidle : t.phase = .live ∧ t.todo = []
  · rw [if_pos hidle] at h
    refine ⟨hidle.1,hidle.2,?_⟩
    cases hr : t.eventRx.recv broadcastCap log with
    | none => simp [hr] at h
    | some p =>
      obtain ⟨rx,got⟩ := p
      obtain ⟨hwithin,hstart,hgot⟩ := Receiver.recv_cases hrx hr
      refine ⟨rx,hwithin,hstart,?_⟩
      rcases hgot with ⟨hlag,hnone⟩ | ⟨hlag,event,hsome,hseen⟩
      · subst hnone
        simp only [hr, Option.some.injEq] at h
        exact .inl ⟨hlag,h.symm⟩
      · subst hsome
        simp only [hr, Option.some.injEq] at h
        exact .inr ⟨hlag,event,hseen,h.symm⟩
  · rw [if_neg hidle] at h
    cases h

end Task

inductive TaskAct where
  | start | send | recv | stop | closeWriter
  deriving DecidableEq, Repr

def Task.act (log : List SessionEvent) (t : Task) : TaskAct → Option Task
  | .start => t.start
  | .send => t.send
  | .recv => t.recv log
  | .stop => t.stop
  | .closeWriter => some { t with writerClosed := true }

theorem Task.act_cases {log : List SessionEvent} {t u : Task} {a : TaskAct}
    (h : t.act log a = some u) :
    t.send = some u ∨ t.recv log = some u ∨
      (t.phase = .attaching ∧ u = { t with phase := .replaying }) ∨
      (t.phase = .live ∧ u = { t with phase := .winding }) ∨
      u = { t with writerClosed := true } := by
  cases a with
  | start =>
    simp only [act, start, Option.ite_none_right_eq_some, Option.some.injEq] at h
    exact .inr (.inr (.inl ⟨h.1,h.2.symm⟩))
  | send => exact .inl h
  | recv => exact .inr (.inl h)
  | stop =>
    simp only [act, stop, Option.ite_none_right_eq_some, Option.some.injEq] at h
    exact .inr (.inr (.inr (.inl ⟨h.1,h.2.symm⟩)))
  | closeWriter =>
    simp only [act, Option.some.injEq] at h
    exact .inr (.inr (.inr (.inr h.symm)))

/-- What no act of a task changes; a task whose `select!` has ended only waits for its detach. -/
theorem Task.act_keeps {log : List SessionEvent} {t u : Task} {a : TaskAct}
    (hrx : t.eventRx.Within log) (h : t.act log a = some u) :
    u.sid = t.sid ∧ u.currentController = t.currentController ∧
      u.eventRx.start = t.eventRx.start ∧ (t.phase = .winding → u.phase = .winding) := by
  rcases act_cases h with hsend | hrecv | ⟨hattaching,rfl⟩ | ⟨-,rfl⟩ | rfl
  · have hphase : t.phase ≠ .winding := by
      intro hp
      simp [send, hp] at hsend
    rcases send_cases hsend with ⟨-,phase,todo,-,-,rfl⟩ | ⟨-,f,rest,phase,-,-,rfl⟩ | ⟨-,-,-,rfl⟩ <;>
      exact ⟨rfl,rfl,rfl,fun hp => absurd hp hphase⟩
  · obtain ⟨hlive,-,rx,-,hstart,hcase⟩ := recv_cases hrx hrecv
    have hphase : t.phase ≠ .winding := by
      rw [hlive]
      decide
    rcases hcase with ⟨-,rfl⟩ | ⟨-,event,-,rfl⟩ <;>
      exact ⟨rfl,rfl,hstart,fun hp => absurd hp hphase⟩
  · exact ⟨rfl,rfl,rfl,fun hp => by rw [hattaching] at hp; cases hp⟩
  · exact ⟨rfl,rfl,rfl,fun _ => rfl⟩
  · exact ⟨rfl,rfl,rfl,id⟩

/-- No act of a task attaches or detaches it, or moves its subscription. -/
theorem Task.act_attachment {log : List SessionEvent} {t u : Task} {a : TaskAct}
    (h : t.act log a = some u) : u.sid = t.sid ∧ u.eventRx.start = t.eventRx.start ∧
      (u.phase = .detached ↔ t.phase = .detached) := by
  rcases act_cases h with hsend | hrecv | ⟨hattaching,rfl⟩ | ⟨hlive,rfl⟩ | rfl
  · unfold send at hsend
    split at hsend
    · next f rest hp htodo =>
      split at hsend <;> · cases hsend; simp [hp]
    · next hp htodo =>
      split at hsend <;> · cases hsend; simp [hp]
    · next f rest hp htodo =>
      split at hsend
      · cases hsend
        simp [hp]
      · cases hsend
        by_cases hclose : f.body = .close <;> simp [hp, hclose]
    · cases hsend
  · simp only [recv, Option.ite_none_right_eq_some] at hrecv
    obtain ⟨-,hrecv⟩ := hrecv
    split at hrecv
    · cases hrecv
    · next rx hrx =>
      cases hrecv
      exact ⟨rfl,Receiver.recv_start hrx,Iff.rfl⟩
    · next rx event hrx =>
      cases hrecv
      exact ⟨rfl,Receiver.recv_start hrx,Iff.rfl⟩
  · simp [hattaching]
  · simp [hlive]
  · exact ⟨rfl,rfl,Iff.rfl⟩

/-- The session with its tasks. `resizes` and `changes` are the PTY resizes and the
broadcasts still to come, each with its task, in the order of the locked updates. -/
structure Fanout where
  inner : SessionInner
  osc : OscScanner
  closed : Bool
  log : List SessionEvent
  ptySize : Size
  resizes : List (ℕ × Size)
  changes : List (ℕ × StreamId)
  tasks : List Task

/-- `AsyncPty` never gives the terminal a zero dimension. -/
def clampSize (size : Size) : Size := (max size.1 1,max size.2 1)

def Fanout.spawn (initialSize : Size) (scrollbackCap now : ℕ) : Fanout :=
  ⟨SessionInner.spawn initialSize scrollbackCap now,OscScanner.new,false,[],clampSize initialSize,
    [],[],[]⟩

namespace Fanout

def locked (s : Fanout) (i : ℕ) (l : Locked) : Fanout :=
  { s with
    inner := l.inner
    resizes := s.resizes++l.resize.toList.map (Prod.mk i)
    changes := s.changes++l.changed.toList.map (Prod.mk i) }

/-- Task `i` moves on. When its `select!` ends, an operation that still awaits its
resize is dropped: the resize is already spawned, the broadcast that would name
the new controller never happens. -/
def updated (s : Fanout) (i : ℕ) (t : Task) : Fanout :=
  { s with
    tasks := s.tasks.set i t
    changes :=
      if t.phase = .winding then
        s.changes.filter fun p => p.1 ≠ i ∨ p.2 = controllerNoneStreamId
      else s.changes }

def owes (s : Fanout) (i : ℕ) : Prop :=
  i ∈ s.resizes.map Prod.fst ∨ i ∈ s.changes.map Prod.fst

instance (s : Fanout) (i : ℕ) : Decidable (s.owes i) := inferInstanceAs (Decidable (_ ∨ _))

end Fanout

inductive Action where
  | read (chunk : Bytes)
  | exit
  | announceClosed
  | attach (sid : StreamId) (size : Size) (now : ℕ)
  | task (i : ℕ) (act : TaskAct)
  | op (i : ℕ) (op : Op)
  | detach (i : ℕ) (now : ℕ)
  | resizePty (k : ℕ) (applied : Bool)
  | broadcast (k : ℕ)
  deriving DecidableEq, Repr

def Blocked (s : Fanout) (i : ℕ) (act : TaskAct) : Prop :=
  act ≠ .closeWriter ∧ (i,controllerNoneStreamId) ∈ s.changes ∨ act = .start ∧ s.owes i

instance (s : Fanout) (i : ℕ) (act : TaskAct) : Decidable (Blocked s i act) :=
  inferInstanceAs (Decidable (_ ∨ _))

def step (s : Fanout) : Action → Option Fanout
  | .read chunk =>
    if s.inner.exited then none else
    let f := feed s.osc chunk
    if f.out = [] then some { s with osc := f.scanner }
    else some { s with osc := f.scanner, inner := s.inner.forward f.out,
                       log := s.log++[.data f.out] }
  | .exit =>
    if s.inner.exited then none else some { s with inner := { s.inner with exited := true } }
  | .announceClosed =>
    if s.inner.exited ∧ s.closed = false then some { s with closed := true, log := s.log++[.closed] }
    else none
  | .attach sid size now =>
    if sid = controlStream then none else
    let l := s.inner.attach sid size now
    let t := Task.new sid s.log s.inner l.inner.controller
    some { s.locked s.tasks.length l with tasks := s.tasks++[t] }
  | .task i act =>
    if Blocked s i act then none else
    match s.tasks[i]? with
    | none => none
    | some t => (t.act s.log act).map (s.updated i)
  | .op i op =>
    if s.owes i then none else
    match s.tasks[i]? with
    | none => none
    | some t => if t.phase = .live then some (s.locked i (op.locked s.inner t.sid)) else none
  | .detach i now =>
    match s.tasks[i]? with
    | none => none
    | some t =>
      if t.phase = .winding then
        some { s.locked i (s.inner.detach t.sid now) with
          tasks := s.tasks.set i { t with phase := .detached } }
      else none
  | .resizePty k applied =>
    match s.resizes[k]? with
    | none => none
    | some (_,size) =>
      some { s with
        ptySize := if applied then clampSize size else s.ptySize
        resizes := s.resizes.eraseIdx k }
  | .broadcast k =>
    match s.changes[k]? with
    | none => none
    | some (i,controller) =>
      if controller ≠ controllerNoneStreamId ∧ i ∈ s.resizes.map Prod.fst then none
      else some { s with
        log := s.log++[.controllerChanged controller]
        changes := s.changes.eraseIdx k }

theorem step_task {s s' : Fanout} {i : ℕ} {act : TaskAct} (h : step s (.task i act) = some s') :
    ¬Blocked s i act ∧ ∃ t u, s.tasks[i]? = some t ∧ t.act s.log act = some u ∧
      s' = s.updated i u := by
  unfold step at h
  by_cases hb : Blocked s i act
  · simp [hb] at h
  · simp only [if_neg hb] at h
    refine ⟨hb,?_⟩
    cases ht : s.tasks[i]? with
    | none => simp [ht] at h
    | some t =>
      simp only [ht, Option.map_eq_some_iff] at h
      obtain ⟨u,hu,heq⟩ := h
      exact ⟨t,u,rfl,hu,heq.symm⟩

theorem step_op {s s' : Fanout} {i : ℕ} {op : Op} (h : step s (.op i op) = some s') :
    ∃ t, s.tasks[i]? = some t ∧ t.phase = .live ∧
      s' = s.locked i (op.locked s.inner t.sid) := by
  unfold step at h
  by_cases ho : s.owes i
  · simp [ho] at h
  · simp only [if_neg ho] at h
    cases ht : s.tasks[i]? with
    | none => simp [ht] at h
    | some t =>
      simp only [ht] at h
      by_cases hp : t.phase = .live
      · rw [if_pos hp, Option.some.injEq] at h
        exact ⟨t,rfl,hp,h.symm⟩
      · rw [if_neg hp] at h
        cases h

theorem step_detach {s s' : Fanout} {i now : ℕ} (h : step s (.detach i now) = some s') :
    ∃ t, s.tasks[i]? = some t ∧ t.phase = .winding ∧
      s' = { s.locked i (s.inner.detach t.sid now) with
        tasks := s.tasks.set i { t with phase := .detached } } := by
  unfold step at h
  cases ht : s.tasks[i]? with
  | none => simp [ht] at h
  | some t =>
    simp only [ht] at h
    by_cases hp : t.phase = .winding
    · rw [if_pos hp, Option.some.injEq] at h
      exact ⟨t,rfl,hp,h.symm⟩
    · rw [if_neg hp] at h
      cases h

theorem step_attach {s s' : Fanout} {sid : StreamId} {size : Size} {now : ℕ}
    (h : step s (.attach sid size now) = some s') :
    sid ≠ controlStream ∧
      s' = { s.locked s.tasks.length (s.inner.attach sid size now) with
        tasks := s.tasks++[Task.new sid s.log s.inner
          (s.inner.attach sid size now).inner.controller] } := by
  unfold step at h
  by_cases h0 : sid = controlStream
  · simp [h0] at h
  · simp only [if_neg h0, Option.some.injEq] at h
    exact ⟨h0,h.symm⟩

theorem step_resizePty {s s' : Fanout} {k : ℕ} {applied : Bool}
    (h : step s (.resizePty k applied) = some s') :
    ∃ i size, s.resizes[k]? = some (i,size) ∧
      s' = { s with
        ptySize := if applied then clampSize size else s.ptySize
        resizes := s.resizes.eraseIdx k } := by
  unfold step at h
  cases hk : s.resizes[k]? with
  | none => simp [hk] at h
  | some p =>
    simp only [hk, Option.some.injEq] at h
    exact ⟨p.1,p.2,rfl,h.symm⟩

theorem step_broadcast {s s' : Fanout} {k : ℕ} (h : step s (.broadcast k) = some s') :
    ∃ i controller, s.changes[k]? = some (i,controller) ∧
      s' = { s with
        log := s.log++[.controllerChanged controller]
        changes := s.changes.eraseIdx k } := by
  unfold step at h
  cases hk : s.changes[k]? with
  | none => simp [hk] at h
  | some p =>
    simp only [hk] at h
    by_cases hwait : p.2 ≠ controllerNoneStreamId ∧ p.1 ∈ s.resizes.map Prod.fst
    · rw [if_pos hwait] at h
      cases h
    · rw [if_neg hwait, Option.some.injEq] at h
      exact ⟨p.1,p.2,rfl,h.symm⟩

theorem step_reader {s s' : Fanout} {a : Action}
    (ha : (∃ chunk, a = .read chunk) ∨ a = .exit ∨ a = .announceClosed)
    (h : step s a = some s') :
    ∃ inner osc closed more, s' = { s with
        inner := inner, osc := osc, closed := closed, log := s.log++more } ∧
      inner.controller = s.inner.controller ∧ inner.lastSize = s.inner.lastSize ∧
      inner.attached = s.inner.attached ∧
      (inner.scrollback = s.inner.scrollback ∧ (more = [] ∨ more = [.closed]) ∨
        ∃ bytes, inner.scrollback = s.inner.scrollback.extend bytes ∧ more = [.data bytes]) := by
  rcases ha with ⟨chunk,rfl⟩ | rfl | rfl
  · unfold step at h
    by_cases hx : s.inner.exited = true
    · simp [hx] at h
    · simp only [if_neg hx] at h
      by_cases hout : (feed s.osc chunk).out = []
      · rw [if_pos hout, Option.some.injEq] at h
        refine ⟨s.inner,(feed s.osc chunk).scanner,s.closed,[],?_,rfl,rfl,rfl,.inl ⟨rfl,.inl rfl⟩⟩
        rw [← h, List.append_nil]
      · rw [if_neg hout, Option.some.injEq] at h
        exact ⟨_,_,s.closed,_,h.symm,rfl,rfl,rfl,.inr ⟨_,rfl,rfl⟩⟩
  · unfold step at h
    by_cases hx : s.inner.exited = true
    · simp [hx] at h
    · simp only [if_neg hx, Option.some.injEq] at h
      refine ⟨{ s.inner with exited := true },s.osc,s.closed,[],?_,rfl,rfl,rfl,.inl ⟨rfl,.inl rfl⟩⟩
      rw [← h, List.append_nil]
  · unfold step at h
    by_cases hx : s.inner.exited = true ∧ s.closed = false
    · rw [if_pos hx, Option.some.injEq] at h
      exact ⟨s.inner,s.osc,true,_,h.symm,rfl,rfl,rfl,.inl ⟨rfl,.inr rfl⟩⟩
    · rw [if_neg hx] at h
      cases h

end Term.SessionFanout
