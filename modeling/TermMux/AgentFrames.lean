import TermMux.DownloadStream
import TermMux.FrameCodec
import TermMux.PasteGroups
import TermMux.SessionManager

/-!
# The frames of the agent

Everything the agent queues for the hub on one link: the hello, pings and their answers, the
replies to the admin requests, and what the stream tasks send. The session list is gathered
session by session, each under its own lock, and goes out as one frame however many sessions there
are; the line that reports a failed open repeats the configured program. All other producers
keep to the limits of the wire format.
-/

set_option autoImplicit false

namespace Term.AgentFrames
open Term.AsciiText Term.Broadcast Term.ByteOrder Term.DownloadStream Term.FrameCodec Term.FrameModel
  Term.FrameWire Term.Machine Term.Outcome Term.PasteGroups Term.PasteUpload Term.SessionFanout
  Term.SessionManager Term.SessionState Term.Utf8Text

def writeHiBytes : ℕ := 4*1024*1024
def writeLoBytes : ℕ := 16*1024*1024

def helloVersion : ℕ := 2

def helloBytes : Bytes := asBytes "\x7b\"version\":"++decimal helloVersion++asBytes "\x7d"

structure Info where
  id : SessionId
  idleSecs : ℕ
  attached : ℕ
  hasController : Bool
  deriving DecidableEq, Repr

def hexDigit (n : ℕ) : UInt8 := if n < 10 then UInt8.ofNat (0x30+n) else UInt8.ofNat (0x57+n)

def escapeByte (b : UInt8) : Bytes :=
  if b = 0x22 then [0x5C,0x22]
  else if b = 0x5C then [0x5C,0x5C]
  else if b = 0x08 then [0x5C,0x62]
  else if b = 0x09 then [0x5C,0x74]
  else if b = 0x0A then [0x5C,0x6E]
  else if b = 0x0C then [0x5C,0x66]
  else if b = 0x0D then [0x5C,0x72]
  else if b < 0x20 then [0x5C,0x75,0x30,0x30,hexDigit (b.toNat/16),hexDigit (b.toNat%16)]
  else [b]

def jsonString (s : String) : Bytes := 0x22::((asBytes s).flatMap escapeByte++[0x22])

def jsonBool (b : Bool) : Bytes := asBytes (if b then "true" else "false")

def Info.json (i : Info) : Bytes :=
  asBytes "\x7b\"id\":"++(jsonString i.id++(asBytes ",\"idle_secs\":"++(decimal i.idleSecs++
    (asBytes ",\"attached\":"++(decimal i.attached++(asBytes ",\"has_controller\":"++
      (jsonBool i.hasController++asBytes "\x7d")))))))

def sessionListJson (infos : List Info) : Bytes :=
  asBytes "\x7b\"sessions\":["++(List.intercalate [0x2C] (infos.map Info.json)++asBytes "]\x7d")

structure Config where
  limits : SessionManager.Limits
  /-- The first word of the configured shell. -/
  program : String

def lookupErrorText (program : String) : LookupError → Bytes
  | .limitReached maxSessions => asBytes "session limit reached ("++decimal maxSessions++
      asBytes " live sessions on this host); close an existing tab first"
  | .spawnFailed => asBytes "spawn "++asBytes program

def refusalLine (program : String) (e : LookupError) : Bytes :=
  [0x0D,0x0A]++asBytes "term-agent: "++lookupErrorText program e++[0x0D,0x0A]

structure Listing where
  requestId : UInt32
  now : ℕ
  todo : List Entry
  out : List Info

structure Agent where
  host : Host
  /-- The streams whose task is running. -/
  streams : List StreamId
  /-- Streams whose task has not yet looked up its session. -/
  opens : List (StreamId × SessionId × Size)
  lists : List UInt32
  kills : List (UInt32 × SessionId)
  listings : List Listing
  /-- Every frame the writer has queued, in order. -/
  enqueued : List Frame

def Agent.new (limits : SessionManager.Limits) : Agent := ⟨Host.new limits,[],[],[],[],[],[]⟩

def writeCap (f : Frame) : ℕ :=
  match f.ty with
  | .downloadBegin | .downloadChunk | .downloadEnd => writeLoBytes
  | _ => writeHiBytes

namespace Agent

/-- `send_frame_to_hub`: a message over the budget of its half is refused. -/
def send (s : Agent) (f : Frame) : Agent :=
  if writeCap f < (encode f).length then s else { s with enqueued := s.enqueued++[f] }

def sendAll (s : Agent) (frames : List Frame) : Agent := frames.foldl send s

end Agent

def downloadFrame (sid : StreamId) : DownloadEvent → Frame
  | .begin_ id totalSize name => ⟨sid,.downloadBegin id totalSize name⟩
  | .chunk id bytes => ⟨sid,.downloadChunk id bytes⟩
  | .end_ id status => ⟨sid,.downloadEnd id status⟩

def pasteIdOf : PasteFrame → UInt32
  | .pasteBegin _ _ pasteId _ _ _ _ => pasteId
  | .pasteChunk _ pasteId _ => pasteId
  | .pasteEnd _ pasteId _ => pasteId

/-- A read returns no more than the buffer holds. -/
def Within : Read → Prop
  | .failed => True
  | .bytes b _ => b.length ≤ maxPasteChunkBytes

instance : DecidablePred Within
  | .failed => isTrue trivial
  | .bytes b _ => inferInstanceAs (Decidable (b.length ≤ maxPasteChunkBytes))

inductive StreamEvent where
  | attached (scrollback : Bytes) (controller : Option StreamId)
  | event (e : SessionEvent)
  /-- The `n`-th event of a download. -/
  | download (id : UInt32) (path : String) (env : FileEnv) (n : ℕ)
  | paste (limits : PasteUpload.Limits) (dir : Bytes) (p : Pending) (f : PasteFrame)
  | done

def StreamEvent.frames (sid : StreamId) : StreamEvent → List Frame
  | .attached scrollback controller =>
    dataFrames sid scrollback++[Frame.controllerChanged sid (initialStatus sid controller)]
  | .event e => eventFrames sid e
  | .download id path env n =>
    if ∀ r ∈ env.reads, Within r then
      (((downloadTask id path env).1[n]?).map (downloadFrame sid)).toList
    else []
  | .paste limits dir p f =>
    ((handle limits dir p f).reject.map (Frame.pasteReject sid (pasteIdOf f))).toList
  | .done => [Frame.close sid]

inductive Action where
  | hello
  | tick
  /-- A message of the hub. -/
  | hub (data : Bytes)
  | open_ (j now : ℕ) (spawns : Bool)
  | list (j now : ℕ)
  | inspect (i : ℕ)
  | reply (i : ℕ)
  | kill (j : ℕ)
  | stream (sid : StreamId) (e : StreamEvent)
  /-- Anything else the sessions do. -/
  | host (a : SessionManager.Action)

def receive (s : Agent) (f : Frame) : Agent :=
  match f.body with
  | .ping p => s.send (Frame.pong p)
  | .listSessions requestId => { s with lists := s.lists++[requestId] }
  | .killSession requestId sessionId => { s with kills := s.kills++[(requestId,sessionId)] }
  | .open_ sessionId initialSize =>
    { s with
      streams := f.streamId::s.streams
      opens := s.opens++[(f.streamId,sessionId,initialSize)] }
  | _ => s

def killStatus (m : Manager) (id : SessionId) : UInt8 :=
  if (m.map.lookup id).isSome then killStatusOk else killStatusNotFound

def info (now : ℕ) (id : SessionId) (s : Fanout) : Info :=
  ⟨id,now-s.inner.lastAttachedAt,s.inner.attached.keys.length,s.inner.controller.isSome⟩

def step (cfg : Config) (s : Agent) : Action → Option Agent
  | .hello =>
    let fresh := { s with streams := [], opens := [], lists := [], kills := [], listings := [] }
    some (fresh.send ⟨controlStream,.hello helloBytes⟩)
  | .tick => some (s.send ⟨controlStream,.ping []⟩)
  | .hub data =>
    match frameFromWsPayload data with
    | .ok (f,_) => some (receive s f)
    | _ => none
  | .open_ j now spawns =>
    match s.opens[j]? with
    | none => none
    | some (sid,id,size) =>
      (SessionManager.step s.host (.lookup id size now spawns)).map fun host =>
        let opened := { s with host := host, opens := s.opens.eraseIdx j }
        match (s.host.manager.lookupOrSpawn id size now spawns).2 with
        | .ok _ => opened
        | .error e => opened.send (Frame.data sid (refusalLine cfg.program e))
  | .list j now =>
    match s.lists[j]? with
    | none => none
    | some requestId =>
      if s.host.sweep.locksMap then none
      else
        let live := s.host.manager.map.entries.map fun e => (e.1,e.2)
        some { s with
          lists := s.lists.eraseIdx j
          listings := s.listings++[⟨requestId,now,live,[]⟩] }
  | .inspect i =>
    match s.listings[i]? with
    | some ⟨requestId,now,(id,k)::todo,out⟩ =>
      (s.host.manager.sessions[k]?).map fun session =>
        { s with listings := s.listings.set i ⟨requestId,now,todo,out++[info now id session]⟩ }
    | _ => none
  | .reply i =>
    match s.listings[i]? with
    | some ⟨requestId,_,[],out⟩ =>
      some ({ s with listings := s.listings.eraseIdx i }.send
        ⟨controlStream,.sessionList requestId (sessionListJson out)⟩)
    | _ => none
  | .kill j =>
    match s.kills[j]? with
    | none => none
    | some (requestId,id) =>
      (SessionManager.step s.host (.killSession id)).map fun host =>
        { s with host := host, kills := s.kills.eraseIdx j }.send
          ⟨controlStream,.killSessionAck requestId (killStatus s.host.manager id)⟩
  | .stream sid e =>
    if sid ∈ s.streams then
      let left := match e with
        | .done => s.streams.erase sid
        | _ => s.streams
      some ({ s with streams := left }.sendAll (e.frames sid))
    else none
  | .host (.lookup _ _ _ _) => none
  | .host a => (SessionManager.step s.host a).map fun host => { s with host := host }

def Info.size (i : Info) : ℕ :=
  50+(jsonString i.id).length+(decimal i.idleSecs).length+(decimal i.attached).length+
    if i.hasController then 4 else 5

/-- The list has room for what was gathered, and the program fits the line that names it. -/
def Fits (cfg : Config) (s : Agent) : Action → Prop
  | .open_ j now spawns =>
    match s.opens[j]? with
    | none => True
    | some (_,id,size) =>
      match (s.host.manager.lookupOrSpawn id size now spawns).2 with
      | .error .spawnFailed => (asBytes cfg.program).length+22 ≤ maxDataLen
      | _ => True
  | .reply i =>
    match s.listings[i]? with
    | none => True
    | some l => 15+(l.out.map Info.size).sum+(l.out.length-1) ≤ maxSessionListJsonLen
  | _ => True

instance (cfg : Config) (s : Agent) (a : Action) : Decidable (Fits cfg s a) := by
  unfold Fits
  split
  · split
    · infer_instance
    · split <;> infer_instance
  · split <;> infer_instance
  · infer_instance

section Text

theorem length_intercalate (sep : Bytes) (l : List Bytes) :
    (List.intercalate sep l).length = (l.map List.length).sum+sep.length*(l.length-1) := by
  induction l with
  | nil => rfl
  | cons a l ih =>
    cases l with
    | nil => simp
    | cons b l =>
      rw [List.intercalate_cons_cons, List.length_append, List.length_append, ih]
      simp only [List.map_cons, List.sum_cons, List.length_cons, Nat.add_sub_cancel]
      ring

theorem length_json (i : Info) : i.json.length = i.size := by
  have hid : (asBytes "\x7b\"id\":").length = 6 := by decide +kernel
  have hidle : (asBytes ",\"idle_secs\":").length = 13 := by decide +kernel
  have hattached : (asBytes ",\"attached\":").length = 12 := by decide +kernel
  have hcontrol : (asBytes ",\"has_controller\":").length = 18 := by decide +kernel
  have hend : (asBytes "\x7d").length = 1 := by decide +kernel
  have hbool : (jsonBool i.hasController).length = if i.hasController then 4 else 5 := by
    cases i.hasController <;> decide +kernel
  simp only [Info.json, Info.size, List.length_append, hid, hidle, hattached, hcontrol, hend, hbool]
  omega

theorem length_sessionListJson (infos : List Info) :
    (sessionListJson infos).length = 15+(infos.map Info.size).sum+(infos.length-1) := by
  have hopen : (asBytes "\x7b\"sessions\":[").length = 13 := by decide +kernel
  have hclose : (asBytes "]\x7d").length = 2 := by decide +kernel
  have hsizes : infos.map (List.length ∘ Info.json) = infos.map Info.size :=
    List.map_congr_left fun i _ => length_json i
  simp only [sessionListJson, List.length_append, hopen, hclose, length_intercalate, List.map_map,
    hsizes, List.length_map, List.length_singleton]
  omega

theorem length_refusalLine (program : String) (e : LookupError) :
    (refusalLine program e).length = 16+(lookupErrorText program e).length := by
  have hname : (asBytes "term-agent: ").length = 12 := by decide +kernel
  simp only [refusalLine, List.length_append, hname, List.length_cons, List.length_nil]
  omega

theorem length_spawnFailed (program : String) :
    (refusalLine program .spawnFailed).length = (asBytes program).length+22 := by
  have hspawn : (asBytes "spawn ").length = 6 := by decide +kernel
  rw [length_refusalLine, lookupErrorText, List.length_append, hspawn]
  omega

theorem length_limitReached {program : String} {n : ℕ} (hn : n < 2^64) :
    (refusalLine program (.limitReached n)).length ≤ maxDataLen := by
  have hfirst : (asBytes "session limit reached (").length = 23 := by decide +kernel
  have hlast : (asBytes " live sessions on this host); close an existing tab first").length = 57 := by
    decide +kernel
  have hdigits := decimal_length hn
  rw [length_refusalLine, lookupErrorText, List.length_append, List.length_append, hfirst, hlast,
    maxDataLen]
  omega

end Text

def FromAgent : Body → Prop
  | .resize .. | .open_ .. | .pasteBegin .. | .pasteChunk .. | .pasteEnd .. | .acquireControl
  | .releaseControl | .takeControl | .listSessions .. | .killSession .. => False
  | _ => True

def Good (f : Frame) : Prop := FromAgent f.body ∧ WellFormed ⟨f.streamId,cutBody f.body⟩

section Producers

theorem good_stream {sid : StreamId} {body : Body} (hfrom : FromAgent body) (hsid : sid ≠ 0)
    (hcontrol : ¬IsControl (cutBody body).ty) (hbody : BodyOk (cutBody body)) :
    Good ⟨sid,body⟩ := by
  refine ⟨hfrom,?_,hbody⟩
  change (if IsControl (cutBody body).ty then sid = 0 else sid ≠ 0)
  rw [if_neg hcontrol]
  exact hsid

theorem good_control (body : Body) (hfrom : FromAgent body)
    (hcontrol : IsControl (cutBody body).ty) (hbody : BodyOk (cutBody body)) :
    Good ⟨controlStream,body⟩ := by
  refine ⟨hfrom,?_,hbody⟩
  change (if IsControl (cutBody body).ty then controlStream = 0 else controlStream ≠ 0)
  rw [if_pos hcontrol]
  rfl

theorem good_dataFrames {sid : StreamId} (hsid : sid ≠ 0) (bytes : Bytes) :
    ∀ f ∈ dataFrames sid bytes, Good f := by
  intro f hf
  obtain ⟨c,hc,rfl⟩ := List.mem_map.mp hf
  exact good_stream trivial hsid not_false (length_of_mem_chunks hc)

theorem initialStatus_le (sid : StreamId) (controller : Option StreamId) :
    initialStatus sid controller ≤ controllerStatusOther := by
  unfold initialStatus
  split
  · decide
  · split <;> decide

theorem changedStatus_le (sid controller : StreamId) :
    changedStatus sid controller ≤ controllerStatusOther := by
  unfold changedStatus
  split_ifs <;> decide

theorem good_eventFrames {sid : StreamId} (hsid : sid ≠ 0) (e : SessionEvent) :
    ∀ f ∈ eventFrames sid e, Good f := by
  cases e with
  | data bytes => exact good_dataFrames hsid bytes
  | controllerChanged controller =>
    intro f hf
    cases List.mem_singleton.mp hf
    exact good_stream trivial hsid not_false (changedStatus_le sid controller)
  | closed =>
    intro f hf
    cases List.mem_singleton.mp hf
    exact good_stream trivial hsid not_false trivial

def EventOk : DownloadEvent → Prop
  | .begin_ _ totalSize _ => totalSize.toNat ≤ maxPasteTotalBytes
  | .chunk _ bytes => bytes.length ≤ maxPasteChunkBytes
  | .end_ _ status => status = downloadStatusOk ∨ status = downloadStatusCancel

theorem endOfFile_ok (id : UInt32) (total sent : ℕ) : ∀ e ∈ (endOfFile id total sent).1, EventOk e := by
  unfold endOfFile
  split
  · simp
  · intro e he
    cases List.mem_singleton.mp he
    exact .inl rfl

theorem readLoop_ok (id : UInt32) (total sent : ℕ) (reads : List Read)
    (h : ∀ r ∈ reads, Within r) : ∀ e ∈ (readLoop id total sent reads).1, EventOk e := by
  induction reads generalizing sent with
  | nil => exact endOfFile_ok id total sent
  | cons r rest ih =>
    cases r with
    | failed => simp [readLoop]
    | bytes b heard =>
      have hb : b.length ≤ maxPasteChunkBytes := h _ List.mem_cons_self
      unfold readLoop
      split_ifs
      · exact endOfFile_ok id total sent
      · simp
      · simp
      · intro e he
        rcases List.mem_cons.mp he with rfl | he
        · exact hb
        · exact ih _ (fun r hr => h r (List.mem_cons_of_mem _ hr)) e he

theorem downloadTask_ok (id : UInt32) (path : String) (env : FileEnv)
    (h : ∀ r ∈ env.reads, Within r) : ∀ e ∈ (downloadTask id path env).1, EventOk e := by
  have hstream : ∀ e ∈ (streamDownload id path env).1, EventOk e := by
    unfold streamDownload
    split
    · simp
    split
    · simp
    next isFile len hm =>
    split
    · simp
    split
    · simp
    next hsize =>
    split
    · simp
    intro e he
    rcases List.mem_cons.mp he with rfl | he
    · exact not_lt.mp hsize
    · exact readLoop_ok id len.toNat 0 env.reads h e he
  unfold downloadTask
  split
  · next events heq =>
    rw [heq] at hstream
    exact hstream
  · next events error heq =>
    rw [heq] at hstream
    intro e he
    rcases List.mem_append.mp he with he | he
    · exact hstream e he
    · cases List.mem_singleton.mp he
      exact .inr rfl

theorem good_downloadFrame {sid : StreamId} (hsid : sid ≠ 0) {e : DownloadEvent} (h : EventOk e) :
    Good (downloadFrame sid e) := by
  cases e with
  | begin_ id totalSize name => exact good_stream trivial hsid not_false ⟨h,length_cutName name⟩
  | chunk id bytes => exact good_stream trivial hsid not_false h
  | end_ id status => exact good_stream trivial hsid not_false h

theorem openPaste_reject_le {env : PasteNames.PasteEnv} {dir : Bytes} {p : Pending}
    {pasteId groupId : UInt32} {totalSize : UInt64} {name : String} {reason : UInt8}
    (h : (openPaste env dir p pasteId totalSize groupId name).reject = some reason) :
    reason ≤ pasteRejectMaxReason := by
  unfold openPaste at h
  split at h
  · cases h
  · cases h
    decide

theorem handlePasteBegin_reject_le {limits : PasteUpload.Limits} {env : PasteNames.PasteEnv}
    {dir : Bytes} {p : Pending} {pasteId groupId groupSize : UInt32} {totalSize : UInt64}
    {name : String} {reason : UInt8} (h : (handlePasteBegin limits env dir p pasteId totalSize
      groupId groupSize name).reject = some reason) : reason ≤ pasteRejectMaxReason := by
  unfold handlePasteBegin at h
  split at h
  · cases h
    decide
  split at h
  · cases h
    decide
  split at h
  · simp only at h
    split at h
    · cases h
      decide
    · exact openPaste_reject_le h
  · split at h
    · cases h
      decide
    split at h
    · cases h
      decide
    · exact openPaste_reject_le h

theorem handlePasteChunk_reject_le {writeOk : Bool} {p : Pending} {pasteId : UInt32}
    {bytes : Bytes} {reason : UInt8}
    (h : (handlePasteChunk writeOk p pasteId bytes).reject = some reason) :
    reason ≤ pasteRejectMaxReason := by
  unfold handlePasteChunk at h
  split at h
  · cases h
  split at h
  · cases h
    decide
  split at h
  · cases h
    decide
  · cases h

theorem handlePasteEnd_reject_le {p : Pending} {pasteId : UInt32} {status reason : UInt8}
    (h : (handlePasteEnd p pasteId status).reject = some reason) :
    reason ≤ pasteRejectMaxReason := by
  unfold handlePasteEnd at h
  split at h
  · cases h
  simp only at h
  split at h
  · cases h
  split at h
  · cases h
    decide
  split at h
  · split at h <;> cases h
  · cases h

theorem reject_le {limits : PasteUpload.Limits} {dir : Bytes} {p : Pending} {f : PasteFrame}
    {reason : UInt8} (h : (handle limits dir p f).reject = some reason) :
    reason ≤ pasteRejectMaxReason := by
  cases f with
  | pasteBegin controller env pasteId totalSize groupId groupSize name =>
    simp only [handle] at h
    split at h
    · exact handlePasteBegin_reject_le h
    · cases h
      decide
  | pasteChunk writeOk pasteId bytes => exact handlePasteChunk_reject_le h
  | pasteEnd controller pasteId status => exact handlePasteEnd_reject_le h

theorem good_frames {sid : StreamId} (hsid : sid ≠ 0) (e : StreamEvent) :
    ∀ f ∈ e.frames sid, Good f := by
  intro f hf
  cases e with
  | attached scrollback controller =>
    rcases List.mem_append.mp hf with hf | hf
    · exact good_dataFrames hsid scrollback f hf
    · cases List.mem_singleton.mp hf
      exact good_stream trivial hsid not_false (initialStatus_le sid controller)
  | event e => exact good_eventFrames hsid e f hf
  | download id path env n =>
    simp only [StreamEvent.frames] at hf
    split at hf
    · next hreads =>
      obtain ⟨e,he,rfl⟩ := Option.map_eq_some_iff.mp (Option.mem_toList.mp hf)
      exact good_downloadFrame hsid (downloadTask_ok id path env hreads e (List.mem_of_getElem? he))
    · cases hf
  | paste limits dir p frame =>
    obtain ⟨reason,hreason,rfl⟩ := Option.map_eq_some_iff.mp (Option.mem_toList.mp hf)
    exact good_stream trivial hsid not_false (reject_le hreason)
  | done =>
    cases List.mem_singleton.mp hf
    exact good_stream trivial hsid not_false trivial

end Producers

/-- The streams of the link are those of the hub, and what is queued can be decoded. -/
structure Inv (cfg : Config) (s : Agent) : Prop where
  limits : s.host.manager.limits = cfg.limits
  streams : ∀ sid ∈ s.streams, sid ≠ 0
  opens : ∀ o ∈ s.opens, o.1 ≠ 0
  enqueued : ∀ f ∈ s.enqueued, Good f

section Steps
variable {cfg : Config} {s s' : Agent}

theorem new_inv (cfg : Config) : Inv cfg (Agent.new cfg.limits) :=
  ⟨rfl,by simp [Agent.new],by simp [Agent.new],by simp [Agent.new]⟩

theorem send_inv {f : Frame} (h : Inv cfg s) (hf : Good f) : Inv cfg (s.send f) := by
  unfold Agent.send
  split
  · exact h
  · exact { h with enqueued := forall_mem_concat h.enqueued hf }

theorem sendAll_inv {frames : List Frame} (h : Inv cfg s) (hf : ∀ f ∈ frames, Good f) :
    Inv cfg (s.sendAll frames) := by
  induction frames generalizing s with
  | nil => exact h
  | cons f rest ih =>
    exact ih (send_inv h (hf f List.mem_cons_self)) fun g hg => hf g (List.mem_cons_of_mem _ hg)

theorem receive_inv {f : Frame} (h : Inv cfg s) (hf : WellFormed f) : Inv cfg (receive s f) := by
  obtain ⟨sid,body⟩ := f
  cases body with
  | ping p => exact send_inv h (good_control (.pong p) trivial trivial hf.2)
  | listSessions requestId => exact { h with }
  | killSession requestId sessionId => exact { h with }
  | open_ sessionId initialSize =>
    have hsid : sid ≠ 0 := hf.1
    refine { h with streams := ?_, opens := forall_mem_concat h.opens hsid }
    intro t ht
    rcases List.mem_cons.mp ht with rfl | ht
    · exact hsid
    · exact h.streams t ht
  | _ => exact h

theorem limitReached_eq {m : Manager} {id : SessionId} {size : Size} {now n : ℕ} {spawns : Bool}
    (h : (m.lookupOrSpawn id size now spawns).2 = .error (.limitReached n)) :
    n = m.limits.maxSessions := by
  have hspawn : ∀ m' : Manager, m'.limits = m.limits →
      (m'.spawn id size now spawns).2 = .error (.limitReached n) → n = m.limits.maxSessions := by
    intro m' hl hs
    unfold Manager.spawn at hs
    split_ifs at hs
    · cases hs
      rw [hl]
    · cases hs
  unfold Manager.lookupOrSpawn at h
  cases hl : m.map.lookup id with
  | none =>
    simp only [hl] at h
    exact hspawn m rfl h
  | some k =>
    simp only [hl] at h
    split at h
    · exact hspawn (m.remove id) rfl h
    · cases h

theorem open_inv (hmax : cfg.limits.maxSessions < 2^64) (h : Inv cfg s) {j now : ℕ}
    {spawns : Bool} (hfits : Fits cfg s (.open_ j now spawns))
    (hs : step cfg s (.open_ j now spawns) = some s') : Inv cfg s' := by
  simp only [step] at hs
  split at hs
  · cases hs
  next sid id size ho =>
  obtain ⟨host,hhost,rfl⟩ := Option.map_eq_some_iff.mp hs
  have hsid : sid ≠ 0 := h.opens _ (List.mem_of_getElem? ho)
  have hopened : Inv cfg { s with host := host, opens := s.opens.eraseIdx j } := by
    refine { h with limits := (step_limits hhost).trans h.limits, opens := ?_ }
    exact fun o ho => h.opens o (List.mem_of_mem_eraseIdx ho)
  split
  · exact hopened
  · next e he =>
    refine send_inv hopened (good_stream trivial hsid not_false ?_)
    change (refusalLine cfg.program e).length ≤ maxDataLen
    cases e with
    | spawnFailed =>
      rw [length_spawnFailed]
      simpa only [Fits, ho, he] using hfits
    | limitReached n =>
      apply length_limitReached
      rw [limitReached_eq he, h.limits]
      exact hmax

theorem reply_inv (h : Inv cfg s) {i : ℕ} (hfits : Fits cfg s (.reply i))
    (hs : step cfg s (.reply i) = some s') : Inv cfg s' := by
  simp only [step] at hs
  split at hs
  · next requestId now out hl =>
    cases hs
    have hlen : (sessionListJson out).length ≤ maxSessionListJsonLen := by
      rw [length_sessionListJson]
      simpa only [Fits, hl] using hfits
    exact send_inv { h with } (good_control (.sessionList requestId _) trivial trivial hlen)
  · cases hs

theorem killStatus_le (m : Manager) (id : SessionId) : killStatus m id ≤ killStatusMax := by
  unfold killStatus
  split <;> decide

theorem step_inv (hmax : cfg.limits.maxSessions < 2^64) {a : Action} (h : Inv cfg s)
    (hfits : Fits cfg s a) (hs : step cfg s a = some s') : Inv cfg s' := by
  cases a with
  | hello =>
    cases hs
    have hhello : 1 ≤ helloBytes.length ∧ helloBytes.length ≤ maxHelloLen := by decide +kernel
    refine send_inv ?_ (good_control (.hello helloBytes) trivial trivial hhello)
    exact { h with streams := by simp, opens := by simp }
  | tick =>
    cases hs
    exact send_inv h (good_control (.ping []) trivial trivial (Nat.zero_le _))
  | hub data =>
    simp only [step] at hs
    split at hs
    · next f n hf =>
      cases hs
      exact receive_inv h ((frameFromWsPayload_eq_ok data f n).mp hf).1
    · cases hs
  | open_ j now spawns => exact open_inv hmax h hfits hs
  | list j now =>
    simp only [step] at hs
    split at hs
    · cases hs
    split at hs
    · cases hs
    · cases hs
      exact { h with }
  | inspect i =>
    simp only [step] at hs
    split at hs
    · obtain ⟨session,-,rfl⟩ := Option.map_eq_some_iff.mp hs
      exact { h with }
    · cases hs
  | reply i => exact reply_inv h hfits hs
  | kill j =>
    simp only [step] at hs
    split at hs
    · cases hs
    next requestId id hk =>
    obtain ⟨host,hhost,rfl⟩ := Option.map_eq_some_iff.mp hs
    refine send_inv { h with limits := (step_limits hhost).trans h.limits } ?_
    exact good_control (.killSessionAck requestId _) trivial trivial (killStatus_le _ id)
  | stream sid e =>
    simp only [step, Option.ite_none_right_eq_some, Option.some.injEq] at hs
    obtain ⟨hsid,rfl⟩ := hs
    refine sendAll_inv { h with streams := ?_ } (good_frames (h.streams sid hsid) e)
    intro t ht
    refine h.streams t ?_
    cases e with
    | done => exact List.mem_of_mem_erase ht
    | _ => exact ht
  | host a =>
    have hhost : ∃ host, SessionManager.step s.host a = some host ∧ s' = { s with host := host } := by
      cases a with
      | lookup id size now spawns => cases hs
      | _ =>
        obtain ⟨host,hhost,rfl⟩ := Option.map_eq_some_iff.mp hs
        exact ⟨host,hhost,rfl⟩
    obtain ⟨host,hhost,rfl⟩ := hhost
    exact { h with limits := (step_limits hhost).trans h.limits }

end Steps

def Decodes (f : Frame) : Prop :=
  ∃ body, frameFromWsPayload (encode f) = .ok (⟨f.streamId,body⟩,(encode f).length) ∧
    (body = f.body ∨ ∃ id totalSize name, f.body = .downloadBegin id totalSize name ∧
      maxPasteNameLen < (asBytes name).length ∧ body = .downloadBegin id totalSize (cutName name))

theorem decodes_of_good {f : Frame} (h : Good f) : Decodes f := by
  obtain ⟨sid,body⟩ := f
  obtain ⟨hfrom,hwf⟩ := h
  have hdec : frameFromWsPayload (encode ⟨sid,body⟩) =
      .ok (⟨sid,cutBody body⟩,(encode ⟨sid,body⟩).length) := by
    rw [frameFromWsPayload_eq_ok]
    exact ⟨hwf,(encode_cutBody sid body).symm,rfl⟩
  refine ⟨cutBody body,hdec,?_⟩
  cases body with
  | downloadBegin id totalSize name =>
    by_cases hname : (asBytes name).length ≤ maxPasteNameLen
    · left
      rw [cutBody, cutName_of_le hname]
    · exact .inr ⟨id,totalSize,name,rfl,not_le.mp hname,rfl⟩
  | pasteBegin => cases hfrom
  | _ => exact .inl rfl

/-- In a run in which every session list has room and every failed spawn is of a program that fits
its line, the hub decodes every frame the agent has queued. -/
theorem agent_frames_decode (cfg : Config) (hmax : cfg.limits.maxSessions < 2^64)
    {actions : List Action} {s : Agent}
    (hok : Along (step cfg) (Fits cfg) (Agent.new cfg.limits) actions)
    (hrun : run (step cfg) (Agent.new cfg.limits) actions = some s) :
    ∀ f ∈ s.enqueued, Decodes f := by
  have hinv : Inv cfg s := by
    refine run_along (step cfg) (fun s a t h hfits hs => ?_) (new_inv cfg) hok hrun
    exact step_inv hmax h hfits hs
  exact fun f hf => decodes_of_good (hinv.enqueued f hf)

def defaults : Config := ⟨SessionManager.Limits.default,"sh"⟩

def openAndList : List Action :=
  [.hello,.hub (encode ⟨1,.open_ "main" (24,80)⟩),.open_ 0 0 true,.hub (encode (Frame.listSessions 7)),
    .list 0 0,.inspect 0,.reply 0]

theorem open_and_list_decode : ∃ s, run (step defaults) (Agent.new defaults.limits) openAndList = some s ∧
    s.enqueued.length = 2 ∧ ∀ f ∈ s.enqueued, Decodes f := by
  have hfacts : ((run (step defaults) (Agent.new defaults.limits) openAndList).map fun s =>
      s.enqueued.length) = some 2 := by
    decide +kernel
  obtain ⟨s,hs,hlen⟩ := Option.map_eq_some_iff.mp hfacts
  have hok : Along (step defaults) (Fits defaults) (Agent.new defaults.limits) openAndList := by
    decide +kernel
  exact ⟨s,hs,hlen,agent_frames_decode defaults (by decide) hok hs⟩

section ManySessions

def sessionName (k : ℕ) : SessionId := ofAscii (decimal k)

theorem asBytes_sessionName (k : ℕ) : asBytes (sessionName k) = decimal k :=
  asBytes_ofAscii (forall_decimal (by decide) k)

theorem sessionName_inj {j k : ℕ} (hj : j < 2^64) (hk : k < 2^64) (h : sessionName j = sessionName k) : j = k := by
  have hbytes := congrArg asBytes h
  rw [asBytes_sessionName, asBytes_sessionName] at hbytes
  have hparse := congrArg parseU64 hbytes
  have hnum : ∀ n, n < 2^64 → decimal n = decimal (UInt64.ofNat n).toNat := by
    intro n hn
    rw [UInt64.toNat_ofNat_of_lt' hn]
  rw [hnum j hj, hnum k hk, parseU64_decimal, parseU64_decimal] at hparse
  have htoNat := congrArg UInt64.toNat (Option.some.inj hparse)
  rwa [UInt64.toNat_ofNat_of_lt' hj, UInt64.toNat_ofNat_of_lt' hk] at htoNat

theorem sessionId_sessionName {k : ℕ} (hk : k < 2^64) : FrameCodec.SessionId (sessionName k) := by
  unfold FrameCodec.SessionId
  rw [asBytes_sessionName]
  refine ⟨List.length_pos_of_ne_nil (decimal_ne_nil k),?_,forall_decimal (by decide) k⟩
  exact Nat.le_trans (decimal_length hk) (by decide)

def Short (i : Info) : Prop := 58 ≤ i.size ∧ i.size ≤ 98

theorem short_info {k : ℕ} (hk : k < 2^64) {session : Fanout} (h : session.inner.attached = ∅) :
    Short (info 0 (sessionName k) session) := by
  have hid : (jsonString (sessionName k)).length = 2+(decimal k).length := by
    have hplain : (decimal k).flatMap escapeByte = decimal k := by
      have hbyte : ∀ b ∈ decimal k, escapeByte b = [b] := forall_decimal (by decide) k
      rw [List.flatMap_congr hbyte, List.flatMap_singleton']
    rw [jsonString, asBytes_sessionName, hplain]
    simp
    omega
  have hpos := List.length_pos_of_ne_nil (decimal_ne_nil k)
  have hle := decimal_length hk
  have hzero : (decimal 0).length = 1 := by decide
  have hinfo : (info 0 (sessionName k) session).size = 50+(2+(decimal k).length)+1+1+
      if session.inner.controller.isSome then 4 else 5 := by
    simp [Info.size, info, hid, h, hzero]
  unfold Short
  rw [hinfo]
  split <;> omega

structure Ready (cfg : Config) (n : ℕ) (s : Agent) : Prop where
  limits : s.host.manager.limits = cfg.limits
  sweep : s.host.sweep = .idle
  opens : s.opens = []
  lists : s.lists = []
  listings : s.listings = []
  count : s.host.manager.map.entries.length = n
  named : ∀ e ∈ s.host.manager.map.entries, ∃ k < n, e.1 = sessionName k
  spawned : ∀ e ∈ s.host.manager.map.entries, ∃ session,
    s.host.manager.sessions[e.2]? = some session ∧ session.inner.attached = ∅

variable {cfg : Config} {s : Agent} {n : ℕ}

theorem hub_step {f : Frame} (hf : WellFormed f) :
    step cfg s (.hub (encode f)) = some (receive s f) := by
  have hdec := (frameFromWsPayload_eq_ok _ f _).mpr ⟨hf,rfl,rfl⟩
  simp only [step, hdec]

theorem open_ready (hmax : cfg.limits.maxSessions < 2^64) (hn : n < cfg.limits.maxSessions)
    (h : Ready cfg n s) : ∃ s', run (step cfg) s
      [.hub (encode ⟨1,.open_ (sessionName n) (24,80)⟩),.open_ 0 0 true] = some s' ∧
        Ready cfg (n+1) s' := by
  have hwf : WellFormed ⟨1,.open_ (sessionName n) (24,80)⟩ :=
    ⟨show (1 : UInt32) ≠ 0 by decide,sessionId_sessionName (by omega)⟩
  have hnew : sessionName n ∉ s.host.manager.map := by
    intro hmem
    obtain ⟨e,he,hid⟩ := List.mem_map.mp (AList.mem_keys.mp hmem)
    obtain ⟨k,hk,heq⟩ := h.named e he
    have hkn := sessionName_inj (by omega) (by omega) (heq.symm.trans hid)
    omega
  have hcap : ¬s.host.manager.limits.maxSessions ≤ s.host.manager.map.keys.length := by
    have hkeys : s.host.manager.map.keys.length = n := (List.length_map _).trans h.count
    rw [hkeys, h.limits]
    omega
  have hfound : s.host.manager.lookupOrSpawn (sessionName n) (24,80) 0 true =
      (s.host.manager.insert (sessionName n) (Fanout.spawn (24,80)
        s.host.manager.limits.scrollbackCapBytes 0),.ok s.host.manager.sessions.length) := by
    simp [Manager.lookupOrSpawn, AList.lookup_eq_none.mpr hnew, Manager.spawn, hcap]
  refine ⟨{ s with
    streams := 1::s.streams
    opens := []
    host := { s.host with
      manager := s.host.manager.insert (sessionName n) (Fanout.spawn (24,80)
        s.host.manager.limits.scrollbackCapBytes 0)
      opened := s.host.opened++[s.host.manager.sessions.length] } },?_,?_⟩
  · refine (run_cons (step cfg)).mpr ⟨_,hub_step hwf,(run_cons (step cfg)).mpr ⟨_,?_,rfl⟩⟩
    simp [step, receive, h.opens, h.sweep, hfound, SessionManager.step, Sweep.locksMap]
  · have hentries : (s.host.manager.insert (sessionName n) (Fanout.spawn (24,80)
        s.host.manager.limits.scrollbackCapBytes 0)).map.entries =
        ⟨sessionName n,s.host.manager.sessions.length⟩::s.host.manager.map.entries :=
      AList.entries_insert_of_notMem hnew
    refine ⟨h.limits,h.sweep,rfl,h.lists,h.listings,?_,?_,?_⟩
    · rw [hentries, List.length_cons, h.count]
    · intro e he
      rw [hentries] at he
      rcases List.mem_cons.mp he with rfl | he
      · exact ⟨n,Nat.lt_succ_self n,rfl⟩
      · obtain ⟨k,hk,heq⟩ := h.named e he
        exact ⟨k,Nat.lt_succ_of_lt hk,heq⟩
    · intro e he
      rw [hentries] at he
      rcases List.mem_cons.mp he with rfl | he
      · exact ⟨_,List.getElem?_concat_length,rfl⟩
      · obtain ⟨session,hsession,hattached⟩ := h.spawned e he
        refine ⟨session,?_,hattached⟩
        exact (List.getElem?_append_left (List.getElem?_eq_some_iff.mp hsession).1).trans hsession

theorem reach_ready (hmax : cfg.limits.maxSessions < 2^64) (hn : n ≤ cfg.limits.maxSessions) :
    ∃ actions s, run (step cfg) (Agent.new cfg.limits) actions = some s ∧ Ready cfg n s := by
  induction n with
  | zero => exact ⟨[],_,rfl,rfl,rfl,rfl,rfl,rfl,rfl,nofun,nofun⟩
  | succ n ih =>
    obtain ⟨actions,s,hrun,hready⟩ := ih (by omega)
    obtain ⟨s',hrun',hready'⟩ := open_ready hmax hn hready
    exact ⟨_,s',(run_append (step cfg)).mpr ⟨s,hrun,hrun'⟩,hready'⟩

theorem inspect_all {requestId : UInt32} {todo : List Entry} {out : List Info}
    (hl : s.listings = [⟨requestId,0,todo,out⟩]) (hout : ∀ i ∈ out, Short i)
    (htodo : ∀ e ∈ todo, ∃ k < 2^64, e.1 = sessionName k ∧ ∃ session,
      s.host.manager.sessions[e.2]? = some session ∧ session.inner.attached = ∅) :
    ∃ actions s' out', run (step cfg) s actions = some s' ∧
      s'.listings = [⟨requestId,0,[],out'⟩] ∧ out'.length = out.length+todo.length ∧
      ∀ i ∈ out', Short i := by
  induction todo generalizing s out with
  | nil => exact ⟨[],s,out,rfl,hl,rfl,hout⟩
  | cons e todo ih =>
    obtain ⟨k,hk,hname,session,hsession,hattached⟩ := htodo e List.mem_cons_self
    obtain ⟨id,j⟩ := e
    have hstep : step cfg s (.inspect 0) =
        some { s with listings := [⟨requestId,0,todo,out++[info 0 id session]⟩] } := by
      have hsession' : s.host.manager.sessions[j]? = some session := hsession
      simp [step, hl, hsession']
    have hshort : Short (info 0 id session) := by
      obtain rfl : id = sessionName k := hname
      exact short_info hk hattached
    obtain ⟨actions,s',out',hrun,hl',hlen,hall⟩ := ih (s := { s with
      listings := [⟨requestId,0,todo,out++[info 0 id session]⟩] }) rfl
      (forall_mem_concat hout hshort) fun e he => htodo e (List.mem_cons_of_mem _ he)
    refine ⟨.inspect 0::actions,s',out',(run_cons (step cfg)).mpr ⟨_,hstep,hrun⟩,hl',?_,hall⟩
    rw [hlen, List.length_append, List.length_singleton, List.length_cons]
    omega

theorem sum_size {out : List Info} (h : ∀ i ∈ out, Short i) :
    58*out.length ≤ (out.map Info.size).sum ∧ (out.map Info.size).sum ≤ 98*out.length := by
  induction out with
  | nil => simp
  | cons i out ih =>
    obtain ⟨hlo,hhi⟩ := h i List.mem_cons_self
    obtain ⟨hlo',hhi'⟩ := ih fun j hj => h j (List.mem_cons_of_mem _ hj)
    simp only [List.map_cons, List.sum_cons, List.length_cons]
    omega

/-- The hub has no decoding for a list that is too long. -/
theorem long_not_decoded {requestId : UInt32} {json : Bytes}
    (h : maxSessionListJsonLen < json.length) (g : Frame) (n : ℕ) :
    frameFromWsPayload (encode ⟨controlStream,.sessionList requestId json⟩) ≠ .ok (g,n) := by
  intro hdec
  obtain ⟨hwf,henc,-⟩ := (frameFromWsPayload_eq_ok _ g n).mp hdec
  obtain ⟨hty,hpayload⟩ := encode_inj henc
  have hlen := payload_lenOk g.body hwf.2
  have hty' : g.body.ty = .sessionList := hty.symm
  rw [hty', ← hpayload] at hlen
  have hle := hlen.2
  simp only [payload, List.length_append, be32_length, maxSessionListLen] at hle
  omega

theorem list_ready (hmax : cfg.limits.maxSessions < 2^64) (hn : n ≤ cfg.limits.maxSessions)
    (h : Ready cfg n s) (hcap : 99*n+32 ≤ writeHiBytes) :
    ∃ actions s' requestId json, run (step cfg) s actions = some s' ∧
      ⟨controlStream,.sessionList requestId json⟩ ∈ s'.enqueued ∧ 58*n ≤ json.length := by
  have hwf : WellFormed (Frame.listSessions 7) := ⟨rfl,trivial⟩
  obtain ⟨live,hlive⟩ : ∃ live, live = s.host.manager.map.entries.map fun e => (e.1,e.2) := ⟨_,rfl⟩
  have hlist : step cfg (receive s (Frame.listSessions 7)) (.list 0 0) =
      some { s with listings := [⟨7,0,live,[]⟩] } := by
    simp [step, receive, Frame.listSessions, h.lists, h.listings, h.sweep, Sweep.locksMap, hlive]
  have htodo : ∀ e ∈ live, ∃ k < 2^64, e.1 = sessionName k ∧ ∃ session,
      s.host.manager.sessions[e.2]? = some session ∧ session.inner.attached = ∅ := by
    intro e he
    rw [hlive] at he
    obtain ⟨e',he',rfl⟩ := List.mem_map.mp he
    obtain ⟨k,hk,hname⟩ := h.named e' he'
    exact ⟨k,by omega,hname,h.spawned e' he'⟩
  obtain ⟨actions,t,out,hrun,hl,hlen,hshort⟩ := @inspect_all cfg
    { s with listings := [⟨7,0,live,[]⟩] } 7 live [] rfl nofun htodo
  have hlen' : out.length = n := by
    rw [hlen, hlive, List.length_map, h.count]
    exact Nat.zero_add n
  obtain ⟨hlo,hhi⟩ := sum_size hshort
  have hjson := length_sessionListJson out
  have hsmall : ¬writeCap ⟨controlStream,.sessionList 7 (sessionListJson out)⟩ <
      (encode ⟨controlStream,.sessionList 7 (sessionListJson out)⟩).length := by
    rw [encode_length]
    simp only [payload, List.length_append, be32_length, writeCap, Frame.ty, Body.ty, headerLen]
    omega
  have hreply : step cfg t (.reply 0) = some { t with
      listings := []
      enqueued := t.enqueued++[⟨controlStream,.sessionList 7 (sessionListJson out)⟩] } := by
    simp [step, hl, Agent.send, hsmall]
  refine ⟨.hub (encode (Frame.listSessions 7))::.list 0 0::(actions++[.reply 0]),{ t with
    listings := []
    enqueued := t.enqueued++[⟨controlStream,.sessionList 7 (sessionListJson out)⟩] },7,
    sessionListJson out,?_,List.mem_append_right _ List.mem_cons_self,by omega⟩
  refine (run_cons (step cfg)).mpr ⟨_,hub_step hwf,(run_cons (step cfg)).mpr ⟨_,hlist,?_⟩⟩
  exact (run_append (step cfg)).mpr ⟨t,hrun,(run_cons (step cfg)).mpr ⟨_,hreply,rfl⟩⟩

end ManySessions

def raised : Config := ⟨{ SessionManager.Limits.default with maxSessions := 5000 },"sh"⟩

/-- The list of 5000 sessions is one frame that the hub cannot decode. -/
theorem long_list_not_decoded : ∃ actions s,
    run (step raised) (Agent.new raised.limits) actions = some s ∧
      ∃ f ∈ s.enqueued, ∀ g n, frameFromWsPayload (encode f) ≠ .ok (g,n) := by
  have hmax : raised.limits.maxSessions < 2^64 := by decide
  obtain ⟨opening,s,hopen,hready⟩ := reach_ready hmax (Nat.le_refl raised.limits.maxSessions)
  obtain ⟨listing,t,requestId,json,hlist,hmem,hlong⟩ :=
    list_ready hmax (Nat.le_refl _) hready (by decide)
  refine ⟨opening++listing,t,(run_append (step raised)).mpr ⟨s,hopen,hlist⟩,_,hmem,?_⟩
  refine long_not_decoded (Nat.lt_of_lt_of_le ?_ hlong)
  decide

end Term.AgentFrames
