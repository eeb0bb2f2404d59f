import Mathlib.Data.List.AList
import TermMux.HubLink
import TermMux.StreamDemux

/-!
# Browser streams on the hub

`term_ws` looks the agent's link up, the upgrade completes later, and `run_proxy`
opens a stream: an entry of `link.streams` with the sender of a bounded queue. The
reader of the link hands every body to the queue of its stream. The proxy's two
loops end together; its return drops the receiver and the guard, whose clean-up
task removes the entry and sends `Close`. Teardown takes the link out of the agents
map and clears the entries once. A proxy is identified by its position, an id is
only what it carries. The reader is the only one to fill the queues, so its lookup,
`try_send` and removal are one step.
-/

set_option autoImplicit false

namespace Term.HubStreams
open Term.FrameModel Term.Machine Term.Outcome Term.StreamDemux
open Term.HubLink (WsMessage allocStreamId proxyFrame)

def streamChanCap : ℕ := 64
def maxStreamsPerAgent : ℕ := 256

inductive ProxyPhase where
  | running
  /-- The loops have ended and the browser's socket is being closed. -/
  | closing
  /-- The receiver and the guard are dropped. -/
  | returned
  | cleaned
  deriving DecidableEq, Repr

structure Proxy where
  sid : UInt32
  phase : ProxyPhase
  queue : List Body
  /-- A message read from the browser and not yet handed to the writer. -/
  pending : Option Body
  deriving DecidableEq, Repr

def Proxy.alive (p : Proxy) : Bool := p.phase == .running || p.phase == .closing

inductive Received where
  | item (b : Body)
  | ended
  | pending
  deriving DecidableEq, Repr

structure Hub where
  reading : Bool
  /-- The agents map holds this link. -/
  listed : Bool
  cleared : Bool
  /-- Upgrades that hold the link and have not opened their stream. -/
  upgrades : ℕ
  nextStreamId : UInt32
  proxies : List Proxy
  streams : AList fun _ : UInt32 => ℕ
  /-- Browser messages handed to the agent's writer, with their stream. -/
  forwarded : List (UInt32 × Body)
  /-- The streams for which the reader has processed a `Close`. -/
  closes : List UInt32
  log : List (Event UInt32 Unit Body)

def Hub.start : Hub := ⟨true,true,false,0,1,[],∅,[],[],[]⟩

inductive Act where
  /-- `term_ws` finds the link and passes the stream cap. -/
  | lookup
  | abandon
  | openStream
  | agentFrame (f : Frame)
  | sourceRecv (k : ℕ)
  | browser (k : ℕ) (m : WsMessage)
  /-- The send of the message just read completes. -/
  | forward (k : ℕ) (sent : Bool)
  /-- A loop of the proxy ends for a reason of its own. -/
  | finish (k : ℕ)
  | proxyReturn (k : ℕ)
  | guardDrop (k : ℕ)
  /-- The reader loop ends: end of stream, an error, a timeout or an eviction. -/
  | readEnds
  /-- The entry of the agents map is removed, or a newer link takes its place. -/
  | unlist
  | clear
  deriving DecidableEq, Repr

/-- `StreamSource::recv` of a proxy, given whether the map still has its sender. -/
def sourceRecv (s : Hub) (k : ℕ) (p : Proxy) : Received :=
  match p.queue with
  | b::_ => .item b
  | [] => if s.streams.lookup p.sid = some k then .pending else .ended

def openStream (s : Hub) : Hub :=
  let (id,next) := allocStreamId s.nextStreamId
  { s with
    upgrades := s.upgrades-1
    nextStreamId := next
    proxies := s.proxies++[⟨id,.running,[],none⟩]
    streams := s.streams.insert id s.proxies.length
    log := s.log++[.opened id] }

/-- `try_send` succeeds: the receiver is there and its queue is not full. -/
def Proxy.takes (p : Proxy) : Bool := p.alive && decide (p.queue.length < streamChanCap)

def demux (s : Hub) (sid : UInt32) (body : Body) : Hub :=
  match s.streams.lookup sid with
  | none => { s with log := s.log++[.frame sid () body false] }
  | some k =>
    match s.proxies[k]?.filter Proxy.takes with
    | some p =>
      { s with
        proxies := s.proxies.set k { p with queue := p.queue++[body] }
        log := s.log++[.frame sid () body true] }
    | none =>
      { s with
        streams := s.streams.erase sid
        log := s.log++[.frame sid () body false] }

def handleFrame (s : Hub) (f : Frame) : Hub :=
  if f.streamId = 0 then
    match f.body with
    | .ping _ | .pong _ | .sessionList _ _ | .killSessionAck _ _ => s
    | _ => { s with reading := false }
  else
    let t := demux s f.streamId f.body
    if f.body = .close then { t with closes := f.streamId::t.closes } else t

def setProxy (s : Hub) (k : ℕ) (p : Proxy) : Hub := { s with proxies := s.proxies.set k p }

def browserMessage (s : Hub) (k : ℕ) (p : Proxy) (m : WsMessage) : Hub :=
  match m with
  | .binary data =>
    match proxyFrame p.sid data with
    | .ok body => setProxy s k { p with pending := some body }
    | .err _ => setProxy s k { p with phase := .closing }
    | .panicked => setProxy s k { p with phase := .closing }
  | .ping | .pong => s
  | .text | .close | .error => setProxy s k { p with phase := .closing }

def withProxy (s : Hub) (k : ℕ) (f : Proxy → Option Hub) : Option Hub := s.proxies[k]?.bind f

def step (s : Hub) : Act → Option Hub
  | .lookup =>
    if s.listed ∧ s.streams.keys.length < maxStreamsPerAgent then
      some { s with upgrades := s.upgrades+1 }
    else none
  | .abandon => if 0 < s.upgrades then some { s with upgrades := s.upgrades-1 } else none
  | .openStream => if 0 < s.upgrades then some (openStream s) else none
  | .agentFrame f => if s.reading then some (handleFrame s f) else none
  | .sourceRecv k => withProxy s k fun p =>
    match p.phase, sourceRecv s k p with
    | .running, .item _ =>
      some { setProxy s k { p with queue := p.queue.tail } with log := s.log++[.took p.sid ()] }
    | .running, .ended => some (setProxy s k { p with phase := .closing, pending := none })
    | _, _ => none
  | .browser k m => withProxy s k fun p =>
    if p.phase = .running ∧ p.pending = none then some (browserMessage s k p m) else none
  | .forward k sent => withProxy s k fun p =>
    match p.phase, p.pending with
    | .running, some body =>
      if sent then
        some { setProxy s k { p with pending := none } with
          forwarded := s.forwarded++[(p.sid,body)] }
      else some (setProxy s k { p with phase := .closing, pending := none })
    | _, _ => none
  | .finish k => withProxy s k fun p =>
    if p.phase = .running then some (setProxy s k { p with phase := .closing, pending := none })
    else none
  | .proxyReturn k => withProxy s k fun p =>
    if p.phase = .closing then
      some { setProxy s k { p with phase := .returned } with log := s.log++[.dropped p.sid] }
    else none
  | .guardDrop k => withProxy s k fun p =>
    if p.phase = .returned then
      some { setProxy s k { p with phase := .cleaned } with
        streams := s.streams.erase p.sid
        log := s.log++[.removed p.sid] }
    else none
  | .readEnds => if s.reading then some { s with reading := false } else none
  | .unlist => if s.listed then some { s with listed := false } else none
  | .clear =>
    if s.reading = false ∧ s.listed = false ∧ s.cleared = false then
      some { s with cleared := true, streams := ∅, log := s.log++[.cleared] }
    else none

inductive Effect (s : Hub) : Act → Hub → Prop where
  | idle (a : Act) (reading listed : Bool) (upgrades : ℕ)
    (hreading : reading = true → s.reading = true) :
    Effect s a { s with reading := reading, listed := listed, upgrades := upgrades }
  | opened : Effect s .openStream (openStream s)
  | frame (f : Frame) (hsid : f.streamId ≠ 0) : Effect s (.agentFrame f) (handleFrame s f)
  /-- A proxy that is running reads a message or leaves its loops. -/
  | moved (a : Act) (k : ℕ) (p q : Proxy) (hp : s.proxies[k]? = some p)
    (hrunning : p.phase = .running) (hsid : q.sid = p.sid) (hqueue : q.queue = p.queue)
    (hlive : q.alive = true) : Effect s a (setProxy s k q)
  | took (k : ℕ) (p : Proxy) (hp : s.proxies[k]? = some p) (hrunning : p.phase = .running) :
    Effect s (.sourceRecv k)
      { setProxy s k { p with queue := p.queue.tail } with log := s.log++[.took p.sid ()] }
  | forwarded (k : ℕ) (p : Proxy) (body : Body) (hp : s.proxies[k]? = some p)
    (hrunning : p.phase = .running) :
    Effect s (.forward k true)
      { setProxy s k { p with pending := none } with forwarded := s.forwarded++[(p.sid,body)] }
  | returned (k : ℕ) (p : Proxy) (hp : s.proxies[k]? = some p) (hclosing : p.phase = .closing) :
    Effect s (.proxyReturn k)
      { setProxy s k { p with phase := .returned } with log := s.log++[.dropped p.sid] }
  | cleaned (k : ℕ) (p : Proxy) (hp : s.proxies[k]? = some p) (hreturned : p.phase = .returned) :
    Effect s (.guardDrop k)
      { setProxy s k { p with phase := .cleaned } with
        streams := s.streams.erase p.sid
        log := s.log++[.removed p.sid] }
  | cleared : Effect s .clear { s with cleared := true, streams := ∅, log := s.log++[.cleared] }

theorem effect_browser {s : Hub} {k : ℕ} {p : Proxy} {m : WsMessage}
    (hp : s.proxies[k]? = some p) (hrunning : p.phase = .running) :
    Effect s (.browser k m) (browserMessage s k p m) := by
  have hkeep : Effect s (.browser k m) s := .idle _ s.reading s.listed s.upgrades id
  cases m with
  | binary data =>
    cases hframe : proxyFrame p.sid data with
    | ok body =>
      simp only [browserMessage, hframe]
      exact .moved _ k p _ hp hrunning rfl rfl (by simp [Proxy.alive, hrunning])
    | err e
    | panicked =>
      simp only [browserMessage, hframe]
      exact .moved _ k p _ hp hrunning rfl rfl rfl
  | ping | pong => exact hkeep
  | text | close | error => exact .moved _ k p _ hp hrunning rfl rfl rfl

theorem effect_of_step {s t : Hub} {a : Act} (h : step s a = some t) : Effect s a t := by
  cases a with
  | lookup =>
    simp only [step, Option.ite_none_right_eq_some, Option.some.injEq] at h
    obtain ⟨-,rfl⟩ := h
    exact .idle _ s.reading s.listed _ id
  | abandon =>
    simp only [step, Option.ite_none_right_eq_some, Option.some.injEq] at h
    obtain ⟨-,rfl⟩ := h
    exact .idle _ s.reading s.listed _ id
  | openStream =>
    simp only [step, Option.ite_none_right_eq_some, Option.some.injEq] at h
    obtain ⟨-,rfl⟩ := h
    exact .opened
  | agentFrame f =>
    simp only [step, Option.ite_none_right_eq_some, Option.some.injEq] at h
    obtain ⟨-,rfl⟩ := h
    by_cases hsid : f.streamId = 0
    · unfold handleFrame
      rw [if_pos hsid]
      split
      · exact .idle _ s.reading s.listed s.upgrades id
      · exact .idle _ s.reading s.listed s.upgrades id
      · exact .idle _ s.reading s.listed s.upgrades id
      · exact .idle _ s.reading s.listed s.upgrades id
      · exact .idle _ false s.listed s.upgrades nofun
    · exact .frame f hsid
  | sourceRecv k =>
    obtain ⟨p,hp,h⟩ := Option.bind_eq_some_iff.mp h
    split at h
    · next hrunning _ =>
      cases h
      exact .took k p hp hrunning
    · next hrunning _ =>
      cases h
      exact .moved _ k p _ hp hrunning rfl rfl rfl
    · cases h
  | browser k m =>
    obtain ⟨p,hp,h⟩ := Option.bind_eq_some_iff.mp h
    simp only [Option.ite_none_right_eq_some, Option.some.injEq] at h
    obtain ⟨⟨hrunning,-⟩,rfl⟩ := h
    exact effect_browser hp hrunning
  | forward k sent =>
    obtain ⟨p,hp,h⟩ := Option.bind_eq_some_iff.mp h
    split at h
    · next body hrunning _ =>
      split at h
      · next hsent =>
        cases h
        rw [hsent]
        exact .forwarded k p body hp hrunning
      · cases h
        exact .moved _ k p _ hp hrunning rfl rfl rfl
    · cases h
  | finish k =>
    obtain ⟨p,hp,h⟩ := Option.bind_eq_some_iff.mp h
    simp only [Option.ite_none_right_eq_some, Option.some.injEq] at h
    obtain ⟨hrunning,rfl⟩ := h
    exact .moved _ k p _ hp hrunning rfl rfl rfl
  | proxyReturn k =>
    obtain ⟨p,hp,h⟩ := Option.bind_eq_some_iff.mp h
    simp only [Option.ite_none_right_eq_some, Option.some.injEq] at h
    obtain ⟨hclosing,rfl⟩ := h
    exact .returned k p hp hclosing
  | guardDrop k =>
    obtain ⟨p,hp,h⟩ := Option.bind_eq_some_iff.mp h
    simp only [Option.ite_none_right_eq_some, Option.some.injEq] at h
    obtain ⟨hreturned,rfl⟩ := h
    exact .cleaned k p hp hreturned
  | readEnds =>
    simp only [step, Option.ite_none_right_eq_some, Option.some.injEq] at h
    obtain ⟨-,rfl⟩ := h
    exact .idle _ false s.listed s.upgrades nofun
  | unlist =>
    simp only [step, Option.ite_none_right_eq_some, Option.some.injEq] at h
    obtain ⟨-,rfl⟩ := h
    exact .idle _ s.reading false s.upgrades id
  | clear =>
    simp only [step, Option.ite_none_right_eq_some, Option.some.injEq] at h
    obtain ⟨-,rfl⟩ := h
    exact .cleared

end Term.HubStreams
