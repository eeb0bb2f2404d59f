import TermMux.DownloadStream
import TermMux.Machine
import TermMux.OscStream
import TermMux.PasteUpload
import TermMux.SessionState

/-!
# Input to the PTY of a session

Everything that puts a block on the queue of the PTY's writer thread: keystrokes
through `write_input_from`, pasted paths through `inject_paste_paths`, and the
failure lines of downloads. A stream checks the control lease under the session
lock and puts its block on the queue later, in a step of its own; `write_internal`
also waits there for space. Each block is recorded with its origin and the
controller at the moment it goes on the queue. The last part says once what each
step can do.
-/

set_option autoImplicit false

namespace Term.SessionInput
open Term.ByteOrder Term.DownloadStream Term.FrameModel Term.OscStream Term.PasteNames
  Term.PasteUpload Term.SessionState

def bridgeQueueLen : ℕ := 32

structure Config where
  dlToken : String
  pasteStyle : PasteStyle
  pasteDir : Bytes
  limits : Limits

inductive Origin where
  | typed (sid : StreamId)
  | pasted (sid : StreamId)
  | download (path : String)
  deriving DecidableEq, Repr

structure Block where
  bytes : Bytes
  origin : Origin
  controller : Option StreamId
  deriving DecidableEq, Repr

inductive Inbound where
  | idle
  /-- `write_input_from`, past its check -/
  | typing (bytes : Bytes)
  /-- `inject_paste_paths`, before its check -/
  | finished (paths : List Bytes)
  /-- `inject_paste_paths`, past its check, in `write_internal` -/
  | injecting (seq : Bytes)
  deriving DecidableEq, Repr

inductive StreamPhase where
  | attached | winding | detached
  deriving DecidableEq, Repr

structure Stream where
  sid : StreamId
  phase : StreamPhase
  inbound : Inbound
  pending : Pending
  rejects : List Frame

/-- The session as its input sees it. `downloads` are the spawned download tasks,
`lines` their failure lines that wait for the queue. -/
structure Session where
  inner : SessionInner
  osc : OscScanner
  queue : List Bytes
  writerGone : Bool
  streams : List Stream
  nextDownloadId : UInt32
  downloads : List String
  downloadLog : List DownloadEvent
  lines : List (String × Bytes)
  blocks : List Block

def Session.spawn (initialSize : Size) (scrollbackCap now : ℕ) : Session :=
  ⟨SessionInner.spawn initialSize scrollbackCap now,OscScanner.new,[],false,[],1,[],[],[],[]⟩

def Session.put (s : Session) (block : Option (Bytes × Origin)) : Session :=
  { s with
    queue := s.queue++block.toList.map Prod.fst
    blocks := s.blocks++block.toList.map fun b => ⟨b.1,b.2,s.inner.controller⟩ }

inductive StreamAct where
  | op (op : Op)
  | data (bytes : Bytes)
  | trySend
  | pasteBegin (env : PasteEnv) (pasteId : UInt32) (totalSize : UInt64)
      (groupId groupSize : UInt32) (name : String)
  | pasteChunk (writeOk : Bool) (pasteId : UInt32) (bytes : Bytes)
  | pasteEnd (pasteId : UInt32) (status : UInt8)
  | checkInject
  | inject
  | stop
  | detach (now : ℕ)

structure Reaction where
  stream : Stream
  inner : SessionInner
  block : Option (Bytes × Origin)

def Stream.Ready (st : Stream) : Prop := st.phase = .attached ∧ st.inbound = .idle

instance (st : Stream) : Decidable st.Ready := inferInstanceAs (Decidable (_ ∧ _))

def Stream.handled (st : Stream) (pasteId : UInt32) (h : Handled) : Stream :=
  { st with
    pending := h.pending
    rejects := st.rejects++h.reject.toList.map (Frame.pasteReject st.sid pasteId)
    inbound := match h.inject with
      | some paths => .finished paths
      | none => .idle }

def handlePaste (cfg : Config) (inner : SessionInner) (st : Stream) : StreamAct → Option Stream
  | .pasteBegin env pasteId totalSize groupId groupSize name =>
    if inner.isController st.sid then
      some (st.handled pasteId (handlePasteBegin cfg.limits env cfg.pasteDir st.pending pasteId
        totalSize groupId groupSize name))
    else some (st.handled pasteId (st.pending.rejected pasteRejectNotController))
  | .pasteChunk writeOk pasteId bytes =>
    some (st.handled pasteId (handlePasteChunk writeOk st.pending pasteId bytes))
  | .pasteEnd pasteId status => some (st.handled pasteId (handlePasteEnd st.pending pasteId status))
  | _ => none

/-- A Data frame: the check of `write_input_from`. -/
def checkInput (s : Session) (st : Stream) (bytes : Bytes) : Option Reaction :=
  if st.Ready then
    if s.inner.isController st.sid then some ⟨{ st with inbound := .typing bytes },s.inner,none⟩
    else some ⟨st,s.inner,none⟩
  else none

def trySend (s : Session) (st : Stream) : Option Reaction :=
  match st.inbound with
  | .typing bytes =>
    if s.queue.length < bridgeQueueLen ∧ s.writerGone = false then
      some ⟨{ st with inbound := .idle },s.inner,some (bytes,.typed st.sid)⟩
    else some ⟨{ st with inbound := .idle },s.inner,none⟩
  | _ => none

def checkInject (cfg : Config) (s : Session) (st : Stream) : Option Reaction :=
  match st.inbound with
  | .finished paths =>
    if s.inner.isController st.sid then
      some ⟨{ st with inbound := .injecting (pasteSequence cfg.pasteStyle paths) },s.inner,none⟩
    else some ⟨{ st with inbound := .idle },s.inner,none⟩
  | _ => none

/-- The `write_internal` of `inject_paste_paths`, which waits for space. -/
def inject (s : Session) (st : Stream) : Option Reaction :=
  match st.inbound with
  | .injecting seq =>
    if s.writerGone then some ⟨{ st with inbound := .idle },s.inner,none⟩
    else if s.queue.length < bridgeQueueLen then
      some ⟨{ st with inbound := .idle },s.inner,some (seq,.pasted st.sid)⟩
    else none
  | _ => none

/-- The stream's `select!` ends; between the check of `write_input_from` and its
`try_send` nothing is awaited. -/
def stop (s : Session) (st : Stream) : Option Reaction :=
  match st.phase, st.inbound with
  | .attached, .typing _ => none
  | .attached, _ => some ⟨{ st with phase := .winding, inbound := .idle },s.inner,none⟩
  | _, _ => none

def detach (s : Session) (st : Stream) (now : ℕ) : Option Reaction :=
  if st.phase = .winding then
    some ⟨{ st with phase := .detached, pending := .empty },(s.inner.detach st.sid now).inner,none⟩
  else none

def streamStep (cfg : Config) (s : Session) (st : Stream) (act : StreamAct) : Option Reaction :=
  match act with
  | .op op => if st.Ready then some ⟨st,(op.locked s.inner st.sid).inner,none⟩ else none
  | .data bytes => checkInput s st bytes
  | .trySend => trySend s st
  | .checkInject => checkInject cfg s st
  | .inject => inject s st
  | .stop => stop s st
  | .detach now => detach s st now
  | act => if st.Ready then (handlePaste cfg s.inner st act).map fun u => ⟨u,s.inner,none⟩ else none

inductive Action where
  | attach (sid : StreamId) (size : Size) (now : ℕ)
  | stream (i : ℕ) (act : StreamAct)
  | read (chunk : Bytes)
  | download (k : ℕ) (env : FileEnv)
  | reportFailure (k : ℕ)
  | drain
  | writerExit

def step (cfg : Config) (s : Session) : Action → Option Session
  | .attach sid size now =>
    some { s with
      inner := (s.inner.attach sid size now).inner
      streams := s.streams++[⟨sid,.attached,.idle,.empty,[]⟩] }
  | .stream i act =>
    match s.streams[i]? with
    | none => none
    | some st =>
      (streamStep cfg s st act).map fun r =>
        { s.put r.block with inner := r.inner, streams := s.streams.set i r.stream }
  | .read chunk =>
    let (osc,out,paths) := readChunk cfg.dlToken s.osc chunk
    some { s with
      osc := osc
      inner := if out = [] then s.inner else s.inner.forward out
      downloads := s.downloads++paths }
  | .download k env =>
    match s.downloads[k]? with
    | none => none
    | some path =>
      let (events,line) := downloadTask s.nextDownloadId path env
      some { s with
        nextDownloadId := s.nextDownloadId+1
        downloads := s.downloads.eraseIdx k
        downloadLog := s.downloadLog++events
        lines := s.lines++line.toList.map (Prod.mk path) }
  | .reportFailure k =>
    match s.lines[k]? with
    | none => none
    | some (path,line) =>
      if s.writerGone then some { s with lines := s.lines.eraseIdx k }
      else if s.queue.length < bridgeQueueLen then
        some { s.put (some (line,.download path)) with lines := s.lines.eraseIdx k }
      else none
  | .drain => if s.queue = [] then none else some { s with queue := s.queue.tail }
  | .writerExit => some { s with writerGone := true }

theorem isController_iff {inner : SessionInner} {sid : StreamId} :
    inner.isController sid = true ↔ inner.controller = some sid := by
  simp [SessionInner.isController]

theorem forall_put {s : Session} {block : Option (Bytes × Origin)} {P : Block → Prop}
    (hold : ∀ b ∈ s.blocks, P b)
    (hnew : ∀ bytes origin, block = some (bytes,origin) → P ⟨bytes,origin,s.inner.controller⟩) :
    ∀ b ∈ (s.put block).blocks, P b := by
  intro b hb
  rcases List.mem_append.mp hb with hmem | hmem
  · exact hold b hmem
  · obtain ⟨p,hp,rfl⟩ := List.mem_map.mp hmem
    exact hnew p.1 p.2 (Option.mem_toList.mp hp)

def Session.Accepts (s : Session) : Prop := s.queue.length < bridgeQueueLen ∧ s.writerGone = false

section Reactions
variable {cfg : Config} {s s' : Session} {st u : Stream} {r : Reaction}

theorem handlePaste_cases {inner : SessionInner} {act : StreamAct}
    (h : handlePaste cfg inner st act = some u) :
    ∃ pasteId handled, u = st.handled pasteId handled ∧
      ((∃ env totalSize groupId groupSize name, inner.controller = some st.sid ∧
          handled = handlePasteBegin cfg.limits env cfg.pasteDir st.pending pasteId totalSize
            groupId groupSize name) ∨
        handled = st.pending.rejected pasteRejectNotController ∨
        (∃ writeOk bytes, handled = handlePasteChunk writeOk st.pending pasteId bytes) ∨
        ∃ status, handled = handlePasteEnd st.pending pasteId status) := by
  cases act with
  | pasteBegin env pasteId totalSize groupId groupSize name =>
    by_cases hc : inner.isController st.sid = true
    · simp only [handlePaste, if_pos hc, Option.some.injEq] at h
      exact ⟨pasteId,_,h.symm,.inl ⟨env,totalSize,groupId,groupSize,name,isController_iff.mp hc,rfl⟩⟩
    · simp only [handlePaste, if_neg hc, Option.some.injEq] at h
      exact ⟨pasteId,_,h.symm,.inr (.inl rfl)⟩
  | pasteChunk writeOk pasteId bytes =>
    cases h
    exact ⟨pasteId,_,rfl,.inr (.inr (.inl ⟨writeOk,bytes,rfl⟩))⟩
  | pasteEnd pasteId status =>
    cases h
    exact ⟨pasteId,_,rfl,.inr (.inr (.inr ⟨status,rfl⟩))⟩
  | _ => cases h

theorem paste_cases {act : StreamAct}
    (h : (if st.Ready then (handlePaste cfg s.inner st act).map fun u => ⟨u,s.inner,none⟩
      else none) = some r) :
    st.Ready ∧ ∃ u, handlePaste cfg s.inner st act = some u ∧ r = ⟨u,s.inner,none⟩ := by
  rw [Option.ite_none_right_eq_some, Option.map_eq_some_iff] at h
  obtain ⟨hr,u,hu,rfl⟩ := h
  exact ⟨hr,u,hu,rfl⟩

theorem checkInput_cases {bytes : Bytes} (h : checkInput s st bytes = some r) :
    st.Ready ∧ (s.inner.controller = some st.sid ∧
      r = ⟨{ st with inbound := .typing bytes },s.inner,none⟩ ∨ r = ⟨st,s.inner,none⟩) := by
  rw [checkInput, Option.ite_none_right_eq_some] at h
  obtain ⟨hr,h⟩ := h
  refine ⟨hr,?_⟩
  by_cases hc : s.inner.isController st.sid = true
  · rw [if_pos hc, Option.some.injEq] at h
    exact .inl ⟨isController_iff.mp hc,h.symm⟩
  · rw [if_neg hc, Option.some.injEq] at h
    exact .inr h.symm

theorem trySend_cases (h : trySend s st = some r) :
    ∃ bytes block, st.inbound = .typing bytes ∧
      (block = none ∨ s.Accepts ∧ block = some (bytes,.typed st.sid)) ∧
      r = ⟨{ st with inbound := .idle },s.inner,block⟩ := by
  unfold trySend at h
  split at h
  · next bytes hin =>
    by_cases hq : s.queue.length < bridgeQueueLen ∧ s.writerGone = false
    · rw [if_pos hq, Option.some.injEq] at h
      exact ⟨bytes,_,hin,.inr ⟨hq,rfl⟩,h.symm⟩
    · rw [if_neg hq, Option.some.injEq] at h
      exact ⟨bytes,none,hin,.inl rfl,h.symm⟩
  · cases h

theorem checkInject_cases (h : checkInject cfg s st = some r) :
    ∃ paths, st.inbound = .finished paths ∧ (s.inner.controller = some st.sid ∧
      r = ⟨{ st with inbound := .injecting (pasteSequence cfg.pasteStyle paths) },s.inner,none⟩ ∨
      r = ⟨{ st with inbound := .idle },s.inner,none⟩) := by
  unfold checkInject at h
  split at h
  · next paths hin =>
    refine ⟨paths,hin,?_⟩
    by_cases hc : s.inner.isController st.sid = true
    · rw [if_pos hc, Option.some.injEq] at h
      exact .inl ⟨isController_iff.mp hc,h.symm⟩
    · rw [if_neg hc, Option.some.injEq] at h
      exact .inr h.symm
  · cases h

theorem inject_cases (h : inject s st = some r) :
    ∃ seq block, st.inbound = .injecting seq ∧
      (block = none ∨ s.Accepts ∧ block = some (seq,.pasted st.sid)) ∧
      r = ⟨{ st with inbound := .idle },s.inner,block⟩ := by
  unfold inject at h
  split at h
  · next seq hin =>
    cases hw : s.writerGone with
    | true =>
      simp only [hw, if_true, Option.some.injEq] at h
      exact ⟨seq,none,hin,.inl rfl,h.symm⟩
    | false =>
      simp only [hw, Bool.false_eq_true, if_false, Option.ite_none_right_eq_some,
        Option.some.injEq] at h
      exact ⟨seq,_,hin,.inr ⟨⟨h.1,hw⟩,rfl⟩,h.2.symm⟩
  · cases h

theorem stop_cases (h : stop s st = some r) :
    st.phase = .attached ∧ r = ⟨{ st with phase := .winding, inbound := .idle },s.inner,none⟩ := by
  unfold stop at h
  split at h
  · cases h
  · next hp hin =>
    cases h
    exact ⟨hp,rfl⟩
  · cases h

theorem step_stream {i : ℕ} {act : StreamAct} (h : step cfg s (.stream i act) = some s') :
    ∃ st r, s.streams[i]? = some st ∧ streamStep cfg s st act = some r ∧
      s' = { s.put r.block with inner := r.inner, streams := s.streams.set i r.stream } := by
  unfold step at h
  cases hst : s.streams[i]? with
  | none => simp [hst] at h
  | some st =>
    simp only [hst, Option.map_eq_some_iff] at h
    obtain ⟨r,hr,heq⟩ := h
    exact ⟨st,r,rfl,hr,heq.symm⟩

theorem step_download {k : ℕ} {env : FileEnv} (h : step cfg s (.download k env) = some s') :
    ∃ path, s.downloads[k]? = some path ∧ s' = { s with
      nextDownloadId := s.nextDownloadId+1
      downloads := s.downloads.eraseIdx k
      downloadLog := s.downloadLog++(downloadTask s.nextDownloadId path env).1
      lines := s.lines++(downloadTask s.nextDownloadId path env).2.toList.map (Prod.mk path) } := by
  unfold step at h
  cases hk : s.downloads[k]? with
  | none => simp [hk] at h
  | some path =>
    simp only [hk, Option.some.injEq] at h
    exact ⟨path,rfl,h.symm⟩

theorem step_reportFailure {k : ℕ} (h : step cfg s (.reportFailure k) = some s') :
    ∃ path line, s.lines[k]? = some (path,line) ∧
      (s' = { s with lines := s.lines.eraseIdx k } ∨ s.Accepts ∧
        s' = { s.put (some (line,.download path)) with lines := s.lines.eraseIdx k }) := by
  unfold step at h
  cases hk : s.lines[k]? with
  | none => simp [hk] at h
  | some p =>
    refine ⟨p.1,p.2,rfl,?_⟩
    cases hw : s.writerGone with
    | true =>
      simp only [hk, hw, if_true, Option.some.injEq] at h
      exact .inl h.symm
    | false =>
      simp only [hk, hw, Bool.false_eq_true, if_false, Option.ite_none_right_eq_some,
        Option.some.injEq] at h
      exact .inr ⟨⟨h.1,hw⟩,h.2.symm⟩

theorem step_drain (h : step cfg s .drain = some s') : s' = { s with queue := s.queue.tail } := by
  simp only [step, Option.ite_none_left_eq_some, Option.some.injEq] at h
  exact h.2.symm

end Reactions

end Term.SessionInput
