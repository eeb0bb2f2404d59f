import Mathlib.Data.List.AList
import TermMux.HubLink
import TermMux.Machine
import TermMux.StreamDemux

/-!
# Stream tasks on the agent

The agent's reader answers `Open` with a new task: it puts the sender of the
task's queues into the `streams` registry under the stream id and spawns
`run_session_stream`. The task attaches to its session under that id, takes bodies
from its queues until one of its two halves ends, detaches, sends `Close` and
removes the id from the registry. A task is identified by its position: registry,
attachment and `Close` know it by the bare id.
-/

set_option autoImplicit false

namespace Term.AgentStreams
open Term.FrameModel Term.Machine Term.StreamDemux
open Term.HubLink (Half half)

def streamHiCap : ℕ := 64
def streamLoCap : ℕ := 16

def streamCap : Half → ℕ
  | .hi => streamHiCap
  | .lo => streamLoCap

inductive Phase where
  | opening
  /-- `lookup_or_spawn` has answered with a session. -/
  | found (session : ℕ)
  | attached (session : ℕ)
  /-- The `select!` of the two halves is over and the receiver is dropped. -/
  | stopped (session : ℕ)
  | returned
  /-- The `Close` of the task around it is sent. -/
  | closed
  | done
  deriving DecidableEq, Repr

structure Task where
  sid : UInt32
  phase : Phase
  queue : Half → List Body

def Task.live (t : Task) : Bool :=
  match t.phase with
  | .opening | .found _ | .attached _ => true
  | _ => false

def Phase.on (session : ℕ) (p : Phase) : Prop := p = .attached session ∨ p = .stopped session

structure Agent where
  reading : Bool
  tasks : List Task
  streams : AList fun _ : UInt32 => ℕ
  /-- The entries of this connection in the sessions' `attached` maps, with the task that
  made each of them. -/
  attached : AList fun _ : ℕ × UInt32 => ℕ
  /-- The `Close` frames sent to the hub, with the task that sent each of them. -/
  closes : List (UInt32 × ℕ)
  log : List (Event UInt32 Half Body)

def Agent.start : Agent := ⟨true,[],∅,∅,[],[]⟩

inductive Act where
  | hubFrame (f : Frame)
  /-- `lookup_or_spawn` of a task, with the session it answers. -/
  | lookup (k : ℕ) (session : Option ℕ)
  | attach (k : ℕ)
  /-- The inbound half takes a body. -/
  | take (k : ℕ)
  /-- One of the halves ends: end of input, a dead writer or a closed channel. -/
  | stop (k : ℕ)
  /-- The outbound half sees the session close and sends `Close`. -/
  | sessionClosed (k : ℕ)
  | detach (k : ℕ)
  | sendClose (k : ℕ)
  | remove (k : ℕ)
  /-- The reader loop ends: end of stream, an error or a timeout. -/
  | readEnds
  | teardown
  deriving DecidableEq, Repr

def openTask (s : Agent) (sid : UInt32) : Agent :=
  { s with
    tasks := s.tasks++[⟨sid,.opening,fun _ => []⟩]
    streams := s.streams.insert sid s.tasks.length
    log := s.log++[.opened sid] }

/-- `try_send` succeeds: the receiver is there and the queue of the class is not full. -/
def Task.takes (h : Half) (t : Task) : Bool := t.live && decide ((t.queue h).length < streamCap h)

def demux (s : Agent) (sid : UInt32) (body : Body) : Agent :=
  let h := half body.ty
  match s.streams.lookup sid with
  | none => { s with log := s.log++[.frame sid h body false] }
  | some k =>
    match s.tasks[k]?.filter (Task.takes h) with
    | some t =>
      { s with
        tasks := s.tasks.set k { t with queue := Function.update t.queue h (t.queue h++[body]) }
        log := s.log++[.frame sid h body true] }
    | none =>
      { s with
        streams := s.streams.erase sid
        log := s.log++[.frame sid h body false] }

def handleFrame (s : Agent) (f : Frame) : Agent :=
  if f.streamId = 0 then
    match f.body with
    | .ping _ | .pong _ | .listSessions _ | .killSession _ _ => s
    | _ => { s with reading := false }
  else
    match f.body with
    | .open_ _ _ => openTask s f.streamId
    | body => demux s f.streamId body

def setTask (s : Agent) (k : ℕ) (t : Task) : Agent := { s with tasks := s.tasks.set k t }

def withTask (s : Agent) (k : ℕ) (f : Task → Option Agent) : Option Agent := s.tasks[k]?.bind f

def took (s : Agent) (k session : ℕ) (t : Task) (h : Half) (b : Body) : Agent :=
  let queue := Function.update t.queue h (t.queue h).tail
  if b = .close then
    { setTask s k { t with phase := .stopped session, queue := queue } with
      log := s.log++[.took t.sid h]++[.dropped t.sid] }
  else { setTask s k { t with queue := queue } with log := s.log++[.took t.sid h] }

def step (s : Agent) : Act → Option Agent
  | .hubFrame f => if s.reading then some (handleFrame s f) else none
  | .lookup k session => withTask s k fun t =>
    match t.phase, session with
    | .opening, some m => some (setTask s k { t with phase := .found m })
    | .opening, none =>
      -- The refusal is sent as data and the task returns.
      some { setTask s k { t with phase := .returned } with log := s.log++[.dropped t.sid] }
    | _, _ => none
  | .attach k => withTask s k fun t =>
    match t.phase with
    | .found m =>
      some { setTask s k { t with phase := .attached m } with
        attached := s.attached.insert (m,t.sid) k }
    | _ => none
  | .take k => withTask s k fun t =>
    match t.phase, t.queue .hi, t.queue .lo with
    | .attached m, b::_, _ => some (took s k m t .hi b)
    | .attached m, [], b::_ => some (took s k m t .lo b)
    | _, _, _ => none
  | .stop k => withTask s k fun t =>
    match t.phase with
    | .attached m =>
      some { setTask s k { t with phase := .stopped m } with log := s.log++[.dropped t.sid] }
    | _ => none
  | .sessionClosed k => withTask s k fun t =>
    match t.phase with
    | .attached m =>
      some { setTask s k { t with phase := .stopped m } with
        closes := s.closes++[(t.sid,k)]
        log := s.log++[.dropped t.sid] }
    | _ => none
  | .detach k => withTask s k fun t =>
    match t.phase with
    | .stopped m =>
      some { setTask s k { t with phase := .returned } with
        attached := s.attached.erase (m,t.sid) }
    | _ => none
  | .sendClose k => withTask s k fun t =>
    if t.phase = .returned then
      some { setTask s k { t with phase := .closed } with closes := s.closes++[(t.sid,k)] }
    else none
  | .remove k => withTask s k fun t =>
    if t.phase = .closed then
      some { setTask s k { t with phase := .done } with
        streams := s.streams.erase t.sid
        log := s.log++[.removed t.sid] }
    else none
  | .readEnds => if s.reading then some { s with reading := false } else none
  | .teardown =>
    if s.reading = false then
      some { s with streams := ∅, log := s.log++[.cleared] }
    else none

inductive Effect (s : Agent) : Act → Agent → Prop where
  | idle (a : Act) (reading : Bool) (hreading : reading = true → s.reading = true) :
    Effect s a { s with reading := reading }
  | opened (f : Frame) (hreading : s.reading = true) (hty : f.ty = .open_) :
    Effect s (.hubFrame f) (openTask s f.streamId)
  | frame (f : Frame) (hreading : s.reading = true) :
    Effect s (.hubFrame f) (demux s f.streamId f.body)
  /-- A task outside of its session goes on to the next phase. -/
  | moved (a : Act) (k : ℕ) (t : Task) (phase : Phase) (closes : List (UInt32 × ℕ))
    (ht : s.tasks[k]? = some t) (hoff : ∀ m, ¬t.phase.on m) (halive : t.phase ≠ .done)
    (hphase : phase ≠ .done) (hlive : Task.live { t with phase := phase } = t.live) :
    Effect s a { setTask s k { t with phase := phase } with closes := closes }
  | refused (k : ℕ) (t : Task) (ht : s.tasks[k]? = some t) (hphase : t.phase = .opening) :
    Effect s (.lookup k none)
      { setTask s k { t with phase := .returned } with log := s.log++[.dropped t.sid] }
  | attached (k m : ℕ) (t : Task) (ht : s.tasks[k]? = some t) (hphase : t.phase = .found m) :
    Effect s (.attach k) { setTask s k { t with phase := .attached m } with
      attached := s.attached.insert (m,t.sid) k }
  | took (k m : ℕ) (t : Task) (h : Half) (b : Body) (ht : s.tasks[k]? = some t)
    (hphase : t.phase = .attached m) : Effect s (.take k) (took s k m t h b)
  | stopped (a : Act) (k m : ℕ) (t : Task) (closes : List (UInt32 × ℕ))
    (ht : s.tasks[k]? = some t) (hphase : t.phase = .attached m) :
    Effect s a { setTask s k { t with phase := .stopped m } with
      closes := closes
      log := s.log++[.dropped t.sid] }
  | detached (k m : ℕ) (t : Task) (ht : s.tasks[k]? = some t) (hphase : t.phase = .stopped m) :
    Effect s (.detach k) { setTask s k { t with phase := .returned } with
      attached := s.attached.erase (m,t.sid) }
  | removed (k : ℕ) (t : Task) (ht : s.tasks[k]? = some t) (hphase : t.phase = .closed) :
    Effect s (.remove k) { setTask s k { t with phase := .done } with
      streams := s.streams.erase t.sid
      log := s.log++[.removed t.sid] }
  | cleared (hreading : s.reading = false) :
    Effect s .teardown { s with streams := ∅, log := s.log++[.cleared] }

section Effects
variable {s s' : Agent}

theorem effect_hubFrame {f : Frame} (hreading : s.reading = true) :
    Effect s (.hubFrame f) (handleFrame s f) := by
  unfold handleFrame
  split
  · split
    · exact .idle _ s.reading id
    · exact .idle _ s.reading id
    · exact .idle _ s.reading id
    · exact .idle _ s.reading id
    · exact .idle _ false nofun
  · split
    · next hbody => exact .opened f hreading (by rw [Frame.ty, hbody]; rfl)
    · exact .frame f hreading

theorem effect_lookup {k : ℕ} {session : Option ℕ} (h : step s (.lookup k session) = some s') :
    Effect s (.lookup k session) s' := by
  obtain ⟨t,ht,h⟩ := Option.bind_eq_some_iff.mp h
  split at h
  · next m hphase _ =>
    cases h
    apply Effect.moved _ k t (.found m) s.closes ht
    · rw [hphase]
      rintro m' (heq | heq) <;> cases heq
    · rw [hphase]
      exact nofun
    · exact nofun
    · simp only [Task.live, hphase]
  · next hphase _ =>
    cases h
    exact .refused k t ht hphase
  · cases h

theorem effect_take {k : ℕ} (h : step s (.take k) = some s') : Effect s (.take k) s' := by
  obtain ⟨t,ht,h⟩ := Option.bind_eq_some_iff.mp h
  split at h
  · next hphase _ =>
    cases h
    exact .took k _ t _ _ ht hphase
  · next hphase _ _ =>
    cases h
    exact .took k _ t _ _ ht hphase
  · cases h

theorem effect_sendClose {k : ℕ} (h : step s (.sendClose k) = some s') :
    Effect s (.sendClose k) s' := by
  obtain ⟨t,ht,h⟩ := Option.bind_eq_some_iff.mp h
  simp only [Option.ite_none_right_eq_some, Option.some.injEq] at h
  obtain ⟨hphase,rfl⟩ := h
  apply Effect.moved _ k t .closed _ ht
  · rw [hphase]
    rintro m (heq | heq) <;> cases heq
  · rw [hphase]
    exact nofun
  · exact nofun
  · simp only [Task.live, hphase]

theorem effect_of_step {a : Act} (h : step s a = some s') : Effect s a s' := by
  cases a with
  | hubFrame f =>
    simp only [step, Option.ite_none_right_eq_some, Option.some.injEq] at h
    obtain ⟨hreading,rfl⟩ := h
    exact effect_hubFrame hreading
  | lookup k session => exact effect_lookup h
  | attach k =>
    obtain ⟨t,ht,h⟩ := Option.bind_eq_some_iff.mp h
    split at h
    · next m hphase =>
      cases h
      exact .attached k m t ht hphase
    · cases h
  | take k => exact effect_take h
  | stop k
  | sessionClosed k =>
    obtain ⟨t,ht,h⟩ := Option.bind_eq_some_iff.mp h
    split at h
    · next m hphase =>
      cases h
      exact .stopped _ k m t _ ht hphase
    · cases h
  | detach k =>
    obtain ⟨t,ht,h⟩ := Option.bind_eq_some_iff.mp h
    split at h
    · next m hphase =>
      cases h
      exact .detached k m t ht hphase
    · cases h
  | sendClose k => exact effect_sendClose h
  | remove k =>
    obtain ⟨t,ht,h⟩ := Option.bind_eq_some_iff.mp h
    simp only [Option.ite_none_right_eq_some, Option.some.injEq] at h
    obtain ⟨hphase,rfl⟩ := h
    exact .removed k t ht hphase
  | readEnds =>
    simp only [step, Option.ite_none_right_eq_some, Option.some.injEq] at h
    obtain ⟨-,rfl⟩ := h
    exact .idle _ false nofun
  | teardown =>
    simp only [step, Option.ite_none_right_eq_some, Option.some.injEq] at h
    obtain ⟨hreading,rfl⟩ := h
    exact .cleared hreading

end Effects

end Term.AgentStreams
