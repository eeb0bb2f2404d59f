import TermMux.DownloadPath
import TermMux.WebDownloads

/-!
# A saved download is the whole file

A session numbers its downloads and broadcasts their events, which interleave. One
connection takes them to the browser: the stream task, the writer of the link, the hub and
the web client, each of which may lose some. The client counts bytes. Since chunks are not
empty and a download that ends well has sent as much as it declared, a complete count means
that no chunk is missing.
-/

set_option autoImplicit false

namespace Term.SavedDownloads
open Term.AgentFrames Term.ByteOrder Term.DownloadPath Term.DownloadStream Term.FrameCodec
open Term.FrameModel Term.FrameWire Term.Machine Term.PrioLink Term.StreamClose Term.WebDownloads
open Term.Utf8Text

structure Started where
  id : UInt32
  path : String
  env : FileEnv
  todo : List DownloadEvent
  deriving DecidableEq, Repr

structure Session where
  nextDownloadId : UInt32
  started : List Started
  log : List DownloadEvent
  deriving DecidableEq, Repr

def Session.new : Session := ⟨1,[],[]⟩

inductive SessionAct where
  /-- A task takes its id with `fetch_add` and streams the file. -/
  | download (path : String) (env : FileEnv)
  | send (k : ℕ)
  deriving DecidableEq, Repr

def Session.step (s : Session) : SessionAct → Option Session
  | .download path env =>
    let id := s.nextDownloadId
    some { s with
      nextDownloadId := id+1
      started := s.started++[⟨id,path,env,(downloadTask id path env).1⟩] }
  | .send k => s.started[k]?.bind fun d =>
    match d.todo with
    | [] => none
    | e::rest =>
      some { s with started := s.started.set k { d with todo := rest }, log := s.log++[e] }

structure Connection where
  session : Session
  stream : Stream
  /-- The hub reads the link. -/
  linked : Bool
  /-- How many of the delivered messages the hub is done with. -/
  hubRead : ℕ
  tab : Tab

/-- A stream is attached to a session in use, for a tab without downloads. -/
def Connection.attach (session : Session) (sid : UInt32)
    (eventLog : List SessionFanout.SessionEvent) (scrollback : Bytes)
    (controller : Option UInt32) : Connection :=
  ⟨session,Stream.start sid eventLog session.log scrollback controller,true,0,Tab.new⟩

inductive Act where
  | session (a : SessionAct)
  /-- The stream task, another user of the writer or the writer itself. -/
  | stream (a : StreamClose.Act)
  /-- The hub reads the next message and hands it to the browser. -/
  | deliver
  /-- The message is for a stream that was reset, or is lost with the connection. -/
  | lose
  deriving DecidableEq, Repr

/-- Download events are published by the session, and the download frames of the stream are
sent by its own task. -/
def allowed (sid : UInt32) : StreamClose.Act → Bool
  | .publishDownload _ => false
  | .other a =>
    match a.grants with
    | some f => !isDownloadOf sid f
    | none => true
  | _ => true

/-- A message of the agent at the hub: decoded, and encoded again for the browser. -/
def handToBrowser (s : Connection) (message : Bytes) : Connection :=
  match frameFromWsPayload message with
  | .ok (f,_) =>
    if f.streamId = s.stream.sid then { s with tab := onMessage s.tab (encode ⟨0,f.body⟩) } else s
  | _ => { s with linked := false }

def step (s : Connection) : Act → Option Connection
  | .session a => (s.session.step a).map fun session =>
    { s with session := session, stream := { s.stream with downloadLog := session.log } }
  | .stream a =>
    if allowed s.stream.sid a then
      (StreamClose.step s.stream a).map fun stream => { s with stream := stream }
    else none
  | .deliver =>
    if s.linked then
      s.stream.writer.delivered[s.hubRead]?.map fun p =>
        { handToBrowser s (encode p.2.item) with hubRead := s.hubRead+1 }
    else none
  | .lose =>
    if s.hubRead < s.stream.writer.delivered.length then some { s with hubRead := s.hubRead+1 }
    else none

section Events

def eventId : DownloadEvent → UInt32
  | .begin_ id _ _ => id
  | .chunk id _ => id
  | .end_ id _ => id

def incomingId : Incoming → UInt32
  | .begin_ id _ _ => id
  | .chunk id _ => id
  | .end_ id _ => id

def unnamed : Incoming → Incoming
  | .begin_ id totalSize _ => .begin_ id totalSize ""
  | m => m

def bare : DownloadEvent → Incoming
  | .begin_ id totalSize _ => .begin_ id totalSize.toNat ""
  | .chunk id bytes => .chunk id bytes
  | .end_ id status => .end_ id status

def declared : Incoming → Option ℕ
  | .begin_ _ totalSize _ => some totalSize
  | _ => none

def chunkBytes : Incoming → Option Bytes
  | .chunk _ bytes => some bytes
  | _ => none

theorem incomingId_bare (e : DownloadEvent) : incomingId (bare e) = eventId e := by
  cases e <;> rfl

theorem eventId_chunks (id : UInt32) (chunks : List Bytes) :
    ∀ e ∈ chunks.map (DownloadEvent.chunk id), eventId e = id := by
  intro e he
  obtain ⟨c,-,rfl⟩ := List.mem_map.mp he
  rfl

theorem readLoop_ids (id : UInt32) (total sent : ℕ) (reads : List Read) :
    ∀ e ∈ (readLoop id total sent reads).1, eventId e = id := by
  obtain ⟨chunks,-,⟨heq,-⟩ | ⟨result,heq⟩⟩ := readLoop_chunks id total sent reads
  · rw [heq]
    exact forall_mem_concat (eventId_chunks id chunks) rfl
  · rw [heq]
    exact eventId_chunks id chunks

theorem downloadTask_cases (id : UInt32) (path : String) (env : FileEnv) :
    (∃ totalSize name, env.metadata = some (true,totalSize) ∧
      (streamDownload id path env).1 =
        .begin_ id totalSize name::(readLoop id totalSize.toNat 0 env.reads).1 ∧
      ((readLoop id totalSize.toNat 0 env.reads).2 = none ∧
          (downloadTask id path env).1 = (streamDownload id path env).1 ∨
        (readLoop id totalSize.toNat 0 env.reads).2 ≠ none ∧ (downloadTask id path env).1 =
          (streamDownload id path env).1++[.end_ id downloadStatusCancel])) ∨
      (downloadTask id path env).1 = [] ∨
      (downloadTask id path env).1 = [.end_ id downloadStatusCancel] := by
  unfold downloadTask streamDownload
  by_cases hopens : env.opens = false
  · rw [if_pos hopens]
    exact .inr (.inr rfl)
  rw [if_neg hopens]
  cases hmeta : env.metadata with
  | none => exact .inr (.inr rfl)
  | some m =>
    obtain ⟨isFile,len⟩ := m
    simp only
    by_cases hfile : isFile = false
    · rw [if_pos hfile]
      exact .inr (.inr rfl)
    rw [if_neg hfile]
    by_cases hlarge : maxPasteTotalBytes < len.toNat
    · rw [if_pos hlarge]
      exact .inr (.inr rfl)
    rw [if_neg hlarge]
    by_cases hheard : env.heard = false
    · rw [if_pos hheard]
      exact .inr (.inl rfl)
    rw [if_neg hheard]
    have hregular : isFile = true := by simpa using hfile
    refine .inl ⟨len,_,by rw [hregular],rfl,?_⟩
    cases hresult : (readLoop id len.toNat 0 env.reads).2 with
    | none => exact .inl ⟨rfl,rfl⟩
    | some e => exact .inr ⟨nofun,rfl⟩

theorem downloadTask_ids (id : UInt32) (path : String) (env : FileEnv) :
    ∀ e ∈ (downloadTask id path env).1, eventId e = id := by
  rcases downloadTask_cases id path env with ⟨totalSize,name,-,hstream,hcases⟩ | hnil | hcancel
  · have hids : ∀ e ∈ (streamDownload id path env).1, eventId e = id := by
      rw [hstream]
      exact List.forall_mem_cons.mpr ⟨rfl,readLoop_ids _ _ _ _⟩
    rcases hcases with ⟨-,heq⟩ | ⟨-,heq⟩
    · rw [heq]
      exact hids
    · rw [heq]
      exact forall_mem_concat hids rfl
  · rw [hnil]
    exact nofun
  · rw [hcancel]
    exact List.forall_mem_singleton.mpr rfl

/-- Among nonempty chunks no proper part has their whole length. -/
theorem eq_of_sublist_of_length {α : Type} {xs ys : List (List α)} (h : xs.Sublist ys)
    (hne : ∀ y ∈ ys, y ≠ []) (hlen : xs.flatten.length = ys.flatten.length) : xs = ys := by
  induction h with
  | slnil => rfl
  | @cons xs ys y h ih =>
    have hle : xs.flatten.length ≤ ys.flatten.length := (h.flatten).length_le
    have hpos : 0 < y.length := List.length_pos_iff.mpr (hne y List.mem_cons_self)
    rw [List.flatten_cons, List.length_append] at hlen
    omega
  | @cons_cons xs ys y h ih =>
    rw [List.flatten_cons, List.flatten_cons, List.length_append, List.length_append,
      Nat.add_left_cancel_iff] at hlen
    rw [ih (fun z hz => hne z (List.mem_cons_of_mem y hz)) hlen]

structure Whole (d : Started) (bytes : Bytes) : Prop where
  file : ∃ totalSize name, d.env.metadata = some (true,totalSize) ∧
    .begin_ d.id totalSize name ∈ (streamDownload d.id d.path d.env).1 ∧
    bytes = bytesRead totalSize.toNat 0 d.env.reads ∧ bytes.length = totalSize.toNat
  ended : .end_ d.id downloadStatusOk ∈ (streamDownload d.id d.path d.env).1

def course (id : UInt32) (totalSize : ℕ) (chunks : List Bytes) (status : UInt8) :
    List Incoming :=
  opening id totalSize "" chunks++[.end_ id status]

theorem incomingId_course {id : UInt32} {totalSize : ℕ} {chunks : List Bytes} {status : UInt8} :
    ∀ m ∈ course id totalSize chunks status, incomingId m = id := by
  apply forall_mem_concat
  · intro m hm
    rcases List.mem_cons.mp hm with rfl | hchunk
    · rfl
    · obtain ⟨c,-,rfl⟩ := List.mem_map.mp hchunk
      rfl
  · rfl

theorem declared_course (id : UInt32) (totalSize : ℕ) (chunks : List Bytes) (status : UInt8) :
    (course id totalSize chunks status).filterMap declared = [totalSize] := by
  have hchunks : (chunks.map (Incoming.chunk id)).filterMap declared = [] := by
    rw [List.filterMap_map]
    exact List.filterMap_eq_nil_iff.mpr fun _ _ => rfl
  simp only [course, opening, List.filterMap_cons, List.filterMap_append, hchunks]
  rfl

theorem chunkBytes_course (id : UInt32) (totalSize : ℕ) (chunks : List Bytes)
    (status : UInt8) : (course id totalSize chunks status).filterMap chunkBytes = chunks := by
  have hchunks : (chunks.map (Incoming.chunk id)).filterMap chunkBytes = chunks := by
    rw [List.filterMap_map]
    exact List.filterMap_some
  simp only [course, opening, List.filterMap_cons, List.filterMap_append, hchunks, chunkBytes,
    List.filterMap_nil, List.append_nil]

theorem map_bare_chunks (id : UInt32) (chunks : List Bytes) :
    (chunks.map (DownloadEvent.chunk id)).map bare = chunks.map (.chunk id) := by
  rw [List.map_map]
  rfl

/-- Only a task that has read its whole file sends an end that is no cancel. -/
theorem course_of_task {d : Started} {id : UInt32} {status : UInt8}
    (hend : .end_ id status ∈ (downloadTask d.id d.path d.env).1.map bare)
    (hstatus : status ≠ downloadStatusCancel) :
    ∃ totalSize name sent, d.env.metadata = some (true,totalSize) ∧
      (streamDownload d.id d.path d.env).1 =
        .begin_ d.id totalSize name::(sent.map (.chunk d.id)++[.end_ d.id downloadStatusOk]) ∧
      (downloadTask d.id d.path d.env).1.map bare =
        course d.id totalSize.toNat sent downloadStatusOk ∧
      (∀ c ∈ sent, c ≠ []) ∧ sent.flatten = bytesRead totalSize.toNat 0 d.env.reads ∧
      sent.flatten.length = totalSize.toNat := by
  have hcancel : ∀ es : List Incoming, (downloadTask d.id d.path d.env).1.map bare =
      es++[.end_ d.id downloadStatusCancel] → (∀ st, .end_ id st ∉ es) → False := by
    intro es heq hes
    rw [heq] at hend
    rcases List.mem_append.mp hend with hold | hlast
    · exact hes status hold
    · cases List.mem_singleton.mp hlast
      exact hstatus rfl
  rcases downloadTask_cases d.id d.path d.env with ⟨total,name,hmeta,hstream,hcases⟩ | hnil | hone
  · obtain ⟨sent,hne,⟨hloop,hbytes,hsent⟩ | ⟨result,hloop⟩⟩ :=
      readLoop_chunks d.id total.toNat 0 d.env.reads
    · rw [hloop] at hstream hcases
      rw [Nat.zero_add] at hsent
      refine ⟨total,name,sent,hmeta,hstream,?_,hne,hbytes,hsent⟩
      rcases hcases with ⟨-,heq⟩ | ⟨hfailed,-⟩
      · rw [heq, hstream, List.map_cons, List.map_append, map_bare_chunks]
        rfl
      · exact absurd rfl hfailed
    · exfalso
      have hquiet : ∀ st, .end_ id st ∉ (streamDownload d.id d.path d.env).1.map bare := by
        intro st
        rw [hstream, hloop, List.map_cons, map_bare_chunks]
        simp [bare]
      rcases hcases with ⟨-,heq⟩ | ⟨-,heq⟩
      · rw [heq] at hend
        exact hquiet status hend
      · apply hcancel _ _ hquiet
        rw [heq, List.map_append]
        rfl
  · rw [hnil] at hend
    cases hend
  · exfalso
    apply hcancel [] _ (fun _ => List.not_mem_nil)
    rw [hone]
    rfl

/-- A begin, as many bytes as it declares and an end that is no cancel, in the order of one
task, are all of its chunks. -/
theorem whole_of_course {d : Started} {id : UInt32} {totalSize : ℕ} {chunks : List Bytes}
    {status : UInt8}
    (hsub : (course id totalSize chunks status).Sublist
      ((downloadTask d.id d.path d.env).1.map bare))
    (hstatus : status ≠ downloadStatusCancel)
    (hlen : chunks.flatten.length = totalSize) : Whole d chunks.flatten := by
  have hend : .end_ id status ∈ (downloadTask d.id d.path d.env).1.map bare :=
    hsub.subset (by simp [course])
  obtain ⟨total,name,sent,hmeta,hstream,htask,hne,hbytes,hsent⟩ := course_of_task hend hstatus
  rw [htask] at hsub
  have htotal := hsub.filterMap declared
  rw [declared_course, declared_course] at htotal
  have hchunks := hsub.filterMap chunkBytes
  rw [chunkBytes_course, chunkBytes_course] at hchunks
  have hsize : totalSize = total.toNat := by simpa using htotal
  have hall : chunks = sent := by
    apply eq_of_sublist_of_length hchunks hne
    rw [hlen, hsize, ← hsent]
  refine ⟨⟨total,name,hmeta,?_,?_,?_⟩,?_⟩
  · rw [hstream]
    exact List.mem_cons_self
  · rw [hall]
    exact hbytes
  · rw [hlen, hsize]
  · rw [hstream]
    simp

end Events

section Sessions
variable {s t : Session} {a : SessionAct}

structure Accounted (s : Session) : Prop where
  next : s.nextDownloadId = UInt32.ofNat (s.started.length+1)
  ids : ∀ (k : ℕ) d, s.started[k]? = some d → d.id = UInt32.ofNat (k+1)
  known : ∀ e ∈ s.log, ∃ d ∈ s.started, eventId e = d.id
  waiting : ∀ d ∈ s.started, ∀ e ∈ d.todo, eventId e = d.id
  events : s.started.length < 2^32 → ∀ d ∈ s.started, (downloadTask d.id d.path d.env).1 =
    s.log.filter (fun e => eventId e = d.id)++d.todo

theorem id_inj {i j : ℕ} (hi : i < 2^32) (hj : j < 2^32)
    (h : UInt32.ofNat (i+1) = UInt32.ofNat (j+1)) : i = j := by
  have hnat := congrArg UInt32.toNat h
  simp only [UInt32.toNat_ofNat'] at hnat
  omega

theorem accounted_download {path : String} {env : FileEnv} (h : Accounted s)
    (hstep : s.step (.download path env) = some t) : Accounted t := by
  cases hstep
  have hlen : (s.started++[(⟨s.nextDownloadId,path,env,
      (downloadTask s.nextDownloadId path env).1⟩ : Started)]).length = s.started.length+1 := by
    simp
  refine ⟨?_,?_,?_,?_,?_⟩
  · simp only [h.next]
    apply UInt32.toNat_inj.mp
    simp [UInt32.toNat_add, UInt32.toNat_ofNat']
  · intro k d hd
    rcases getElem?_concat_cases hd with hold | ⟨rfl,rfl⟩
    · exact h.ids k d hold
    · exact h.next
  · intro e he
    obtain ⟨d,hd,heq⟩ := h.known e he
    exact ⟨d,List.mem_append_left _ hd,heq⟩
  · exact forall_mem_concat h.waiting (downloadTask_ids _ _ _)
  · intro hfew
    rw [hlen] at hfew
    have hold := h.events (by omega)
    apply forall_mem_concat hold
    -- No event of the new id was sent, since ids do not repeat below 2^32 downloads.
    have hnone : s.log.filter (fun e => eventId e = s.nextDownloadId) = [] := by
      apply List.filter_eq_nil_iff.mpr
      intro e he
      obtain ⟨d,hd,heq⟩ := h.known e he
      obtain ⟨k,hk⟩ := List.mem_iff_getElem?.mp hd
      have hlt : k < s.started.length := (List.getElem?_eq_some_iff.mp hk).1
      simp only [decide_eq_true_eq]
      rw [heq, h.ids k d hk, h.next]
      intro hsame
      have := id_inj (by omega) (by omega) hsame
      omega
    rw [hnone]
    rfl

theorem send_event {k : ℕ} (hstep : s.step (.send k) = some t) :
    ∃ d e rest, s.started[k]? = some d ∧ d.todo = e::rest ∧
      t = { s with started := s.started.set k { d with todo := rest }, log := s.log++[e] } := by
  obtain ⟨d,hd,hstep⟩ := Option.bind_eq_some_iff.mp hstep
  cases htodo : d.todo with
  | nil =>
    rw [htodo] at hstep
    cases hstep
  | cons e rest =>
    rw [htodo] at hstep
    cases hstep
    exact ⟨d,e,rest,hd,htodo,rfl⟩

theorem accounted_send {k : ℕ} (h : Accounted s) (hstep : s.step (.send k) = some t) :
    Accounted t := by
  obtain ⟨d,e,rest,hd,htodo,rfl⟩ := send_event hstep
  have hwaiting := h.waiting d (List.mem_of_getElem? hd)
  rw [htodo] at hwaiting
  obtain ⟨hid,hrest⟩ := List.forall_mem_cons.mp hwaiting
  refine ⟨?_,?_,?_,?_,?_⟩
  · simpa using h.next
  · intro j d' hd'
    rcases getElem?_set_cases hd' with ⟨rfl,rfl⟩ | ⟨-,hold⟩
    · exact h.ids j d hd
    · exact h.ids j d' hold
  · apply forall_mem_concat
    · intro e' he'
      obtain ⟨d',hd',heq⟩ := h.known e' he'
      rcases mem_set_or_eq { d with todo := rest } hd hd' with hmem | rfl
      · exact ⟨d',hmem,heq⟩
      · exact ⟨_,mem_set_self _ hd,heq⟩
    · exact ⟨_,mem_set_self _ hd,hid⟩
  · exact forall_mem_set h.waiting hrest
  · intro hfew d' hd'
    rw [List.length_set] at hfew
    obtain ⟨j,hj⟩ := List.mem_iff_getElem?.mp hd'
    rcases getElem?_set_cases hj with ⟨-,rfl⟩ | ⟨hjk,hold⟩
    · have hevents := h.events hfew d (List.mem_of_getElem? hd)
      rw [htodo] at hevents
      simp only [List.filter_append, List.filter_cons, hid, decide_true, if_true,
        List.filter_nil, List.append_assoc, List.singleton_append]
      exact hevents
    · have hother : eventId e ≠ d'.id := by
        rw [hid, h.ids k d hd, h.ids j d' hold]
        intro hsame
        have hklt := (List.getElem?_eq_some_iff.mp hd).1
        have hjlt := (List.getElem?_eq_some_iff.mp hold).1
        exact hjk (id_inj (by omega) (by omega) hsame.symm)
      have hevents := h.events hfew d' (List.mem_of_getElem? hold)
      simpa [List.filter_append, hother] using hevents

theorem accounted_new : Accounted Session.new := by
  refine ⟨rfl,?_,nofun,nofun,?_⟩
  · simp [Session.new]
  · simp [Session.new]

theorem accounted_step (h : Accounted s) (hstep : s.step a = some t) : Accounted t := by
  cases a with
  | download path env => exact accounted_download h hstep
  | send k => exact accounted_send h hstep

theorem log_step (hstep : s.step a = some t) : ∃ more, t.log = s.log++more := by
  cases a with
  | download path env =>
    cases hstep
    exact ⟨[],(List.append_nil _).symm⟩
  | send k =>
    obtain ⟨d,e,rest,-,-,rfl⟩ := send_event hstep
    exact ⟨[e],rfl⟩

end Sessions

section Wire

def bodyEvent (body : Body) : Option Incoming := (ofBody body).map unnamed

def wireEvent (ty : FrameType) (p : Bytes) : Option Incoming :=
  match ty with
  | .downloadBegin => some (.begin_ (ofBe32 (p.take 4)) (ofBe64 ((p.drop 4).take 8)).toNat "")
  | .downloadChunk => some (.chunk (ofBe32 (p.take 4)) (p.drop 4))
  | .downloadEnd => some (.end_ (ofBe32 (p.take 4)) (p.getD 4 0))
  | _ => none

theorem bodyEvent_eq (body : Body) : bodyEvent body = wireEvent body.ty (payload body) := by
  cases body with
  | downloadBegin id totalSize name =>
    simp only [bodyEvent, ofBody, Option.map_some, unnamed, Body.ty, wireEvent, payload]
    rw [List.take_left' (be32_length id), List.drop_left' (be32_length id),
      List.take_left' (be64_length totalSize), ofBe32_be32, ofBe64_be64]
  | downloadChunk id bytes =>
    simp only [bodyEvent, ofBody, Option.map_some, unnamed, Body.ty, wireEvent, payload]
    rw [List.take_left' (be32_length id), List.drop_left' (be32_length id), ofBe32_be32]
  | downloadEnd id status =>
    simp only [bodyEvent, ofBody, Option.map_some, unnamed, Body.ty, wireEvent, payload]
    rw [List.take_left' (be32_length id), ofBe32_be32]
    simp
  | _ => rfl

/-- Frames with one encoding are of one stream and stand for one message. -/
theorem event_of_encode {f g : Frame} (h : encode f = encode g) :
    f.streamId = g.streamId ∧ bodyEvent f.body = bodyEvent g.body := by
  obtain ⟨hty,hpayload⟩ := encode_inj h
  refine ⟨?_,?_⟩
  · have hstream := (List.append_inj h (by simp)).1
    rw [← ofBe32_be32 f.streamId, hstream, ofBe32_be32]
  · rw [bodyEvent_eq, bodyEvent_eq, hpayload]
    exact congrArg (fun ty => wireEvent ty (payload g.body)) hty

def frameEvent (sid : UInt32) (f : Frame) : Option Incoming :=
  if f.streamId = sid then bodyEvent f.body else none

theorem frameEvent_of_not {sid : UInt32} {f : Frame} (h : isDownloadOf sid f = false) :
    frameEvent sid f = none := by
  unfold frameEvent
  split_ifs with hsid
  · obtain ⟨streamId,body⟩ := f
    cases body with
    | downloadBegin id totalSize name
    | downloadChunk id bytes
    | downloadEnd id status =>
      have hne : streamId ≠ sid := by simpa [isDownloadOf, Frame.ty, Body.ty] using h
      exact absurd hsid hne
    | _ => rfl
  · rfl

theorem frameEvent_downloadFrame (sid : UInt32) (e : DownloadEvent) :
    frameEvent sid (downloadFrame sid e) = some (bare e) := by
  cases e <;> simp [frameEvent, downloadFrame, bodyEvent, ofBody, unnamed, bare]

theorem filterMap_framesOf (sid : UInt32) (log : List (HubLink.Half × PriorityChannel.Sent Frame)) :
    (framesOf (isDownloadOf sid) log).filterMap (frameEvent sid) =
      log.filterMap fun p => frameEvent sid p.2.item := by
  induction log with
  | nil => rfl
  | cons p log ih =>
    rw [framesOf, List.map_cons, List.filter_cons, List.filterMap_cons]
    cases hdl : isDownloadOf sid p.2.item with
    | true =>
      rw [if_pos rfl, List.filterMap_cons, ← ih]
      rfl
    | false =>
      rw [frameEvent_of_not hdl, ← ih]
      rfl

end Wire

section Runs
variable {s t : Connection} {a : Act}

def handled (s : Connection) : List Incoming :=
  (s.stream.writer.delivered.take s.hubRead).filterMap fun p => frameEvent s.stream.sid p.2.item

structure Inv (s : Connection) : Prop where
  session : Accounted s.session
  log : s.stream.downloadLog = s.session.log
  stream : Forwarded s.stream
  tab : ∃ history, Traced history s.tab ∧
    ∀ c, ((history c).map unnamed).Sublist (handled s)

theorem stream_step {s t : Stream} {a : StreamClose.Act} (h : StreamClose.step s a = some t) :
    t.sid = s.sid ∧ ∃ more, t.writer.delivered = s.writer.delivered++more := by
  obtain ⟨hsid,hcases⟩ := StreamClose.step_cases h
  refine ⟨hsid,?_⟩
  rcases hcases with ⟨hwriter,-⟩ | ⟨b,hb,-⟩ | ⟨f,u,sent,hsend,hwriter,-⟩
  · exact ⟨[],by rw [hwriter, List.append_nil]⟩
  · obtain ⟨-,heq | ⟨p,heq⟩⟩ := step_logs hb
    · exact ⟨[],by rw [heq, List.append_nil]⟩
    · exact ⟨[p],heq⟩
  · obtain ⟨w,hnow,rfl,-⟩ := send_writer hsend
    exact ⟨[],by rw [hwriter, (sendNow_logs hnow).1, List.append_nil]⟩

theorem stream_log {s t : Stream} {a : StreamClose.Act} (h : StreamClose.step s a = some t)
    (ha : ∀ e, a ≠ .publishDownload e) : t.downloadLog = s.downloadLog := by
  cases effect_of_step h with
  | downloaded e => exact absurd rfl (ha e)
  | sent t hsend =>
    obtain ⟨_,_,_,_,⟨_,_,_,hlog,_⟩,_⟩ := sendNext_cases hsend
    exact hlog
  | published
  | event
  | download
  | moved
  | other => rfl

theorem allowed_apart {stream : Stream} {a : StreamClose.Act} (h : allowed stream.sid a = true) :
    OthersApart stream a ∧ ∀ e, a ≠ .publishDownload e := by
  cases a with
  | publishDownload e => cases h
  | other b =>
    refine ⟨?_,nofun⟩
    intro f hf
    simpa [allowed, hf] using h
  | _ => exact ⟨trivial,nofun⟩

/-- What is handled only grows. -/
theorem tab_of_handled (h : ∃ history, Traced history s.tab ∧
      ∀ c, ((history c).map unnamed).Sublist (handled s)) (htab : t.tab = s.tab)
    (hhandled : (handled s).Sublist (handled t)) : ∃ history, Traced history t.tab ∧
      ∀ c, ((history c).map unnamed).Sublist (handled t) := by
  obtain ⟨history,htraced,hsub⟩ := h
  rw [htab]
  exact ⟨history,htraced,fun c => (hsub c).trans hhandled⟩

theorem handled_sublist (hsid : t.stream.sid = s.stream.sid)
    (hdelivered : ∃ more, t.stream.writer.delivered = s.stream.writer.delivered++more)
    (hread : s.hubRead ≤ t.hubRead) : (handled s).Sublist (handled t) := by
  obtain ⟨more,hmore⟩ := hdelivered
  unfold handled
  rw [hsid, hmore]
  apply List.Sublist.filterMap
  apply List.Sublist.trans _ (List.take_prefix_take_left hread).sublist
  rw [List.take_append]
  exact List.sublist_append_left _ _

theorem inv_session {sa : SessionAct} (h : Inv s) (hstep : step s (.session sa) = some t) :
    Inv t := by
  obtain ⟨session,hsession,rfl⟩ := Option.map_eq_some_iff.mp hstep
  obtain ⟨more,hmore⟩ := log_step hsession
  refine ⟨accounted_step h.session hsession,rfl,?_,?_⟩
  · refine forwarded_of_todo h.stream rfl rfl ⟨more,?_⟩ rfl (List.Sublist.refl _)
    rw [h.log]
    exact hmore
  · exact tab_of_handled h.tab rfl (List.Sublist.refl _)

theorem inv_stream {b : StreamClose.Act} (h : Inv s) (hstep : step s (.stream b) = some t) :
    Inv t := by
  simp only [step] at hstep
  split_ifs at hstep with hallowed
  obtain ⟨stream,hstream,rfl⟩ := Option.map_eq_some_iff.mp hstep
  obtain ⟨hapart,hpublish⟩ := allowed_apart hallowed
  obtain ⟨hsid,hdelivered⟩ := stream_step hstream
  refine ⟨h.session,?_,forwarded_step h.stream hapart hstream,?_⟩
  · exact (stream_log hstream hpublish).trans h.log
  · exact tab_of_handled h.tab rfl (handled_sublist hsid hdelivered (Nat.le_refl _))

theorem handToBrowser_tab {f : Frame}
    (h : ∃ history, Traced history s.tab ∧
      ∀ c, ((history c).map unnamed).Sublist (handled s)) :
    ∃ history, Traced history (handToBrowser s (encode f)).tab ∧
      ∀ c, ((history c).map unnamed).Sublist
        (handled s++(frameEvent s.stream.sid f).toList) := by
  obtain ⟨history,htraced,hsub⟩ := h
  have hkeep : ∀ c, ((history c).map unnamed).Sublist
      (handled s++(frameEvent s.stream.sid f).toList) :=
    fun c => (hsub c).trans (List.sublist_append_left _ _)
  unfold handToBrowser
  split
  · next g n hdecode =>
    obtain ⟨hwell,hencode,-⟩ := (frameFromWsPayload_eq_ok _ g n).mp hdecode
    obtain ⟨hstream,hevent⟩ := event_of_encode hencode
    split_ifs with hsid
    · show ∃ history, Traced history (onMessage s.tab (encode ⟨0,g.body⟩)) ∧ _
      rw [onMessage_encode (f := ⟨0,g.body⟩) hwell.2]
      cases hbody : ofBody g.body with
      | none => exact ⟨history,htraced,hkeep⟩
      | some m =>
        refine ⟨heard history s.tab.connection m,traced_take htraced m,fun c => ?_⟩
        by_cases hc : c = s.tab.connection
        · rw [hc, heard_self, List.map_append]
          apply (hsub _).append
          rw [frameEvent, if_pos (hstream.trans hsid), hevent, bodyEvent, hbody]
          exact List.Sublist.refl _
        · rw [heard, Function.update_of_ne hc]
          exact hkeep c
    · exact ⟨history,htraced,hkeep⟩
  · exact ⟨history,htraced,hkeep⟩

theorem handToBrowser_same (s : Connection) (message : Bytes) :
    (handToBrowser s message).session = s.session ∧
      (handToBrowser s message).stream = s.stream := by
  unfold handToBrowser
  split
  · split_ifs <;> exact ⟨rfl,rfl⟩
  · exact ⟨rfl,rfl⟩

theorem inv_deliver (h : Inv s) (hstep : step s .deliver = some t) : Inv t := by
  simp only [step] at hstep
  split_ifs at hstep with hlinked
  obtain ⟨p,hp,rfl⟩ := Option.map_eq_some_iff.mp hstep
  obtain ⟨hsession,hstream⟩ := handToBrowser_same s (encode p.2.item)
  refine ⟨?_,?_,?_,?_⟩
  · rw [hsession]
    exact h.session
  · rw [hsession, hstream]
    exact h.log
  · rw [hstream]
    exact h.stream
  · have hhandled : handled { handToBrowser s (encode p.2.item) with hubRead := s.hubRead+1 } =
        handled s++(frameEvent s.stream.sid p.2.item).toList := by
      simp only [handled, hstream]
      rw [List.take_add_one, hp, List.filterMap_append]
      simp only [Option.toList_some, List.filterMap_cons, List.filterMap_nil]
      cases frameEvent s.stream.sid p.2.item <;> rfl
    rw [hhandled]
    exact handToBrowser_tab h.tab

theorem inv_step (h : Inv s) (hstep : step s a = some t) : Inv t := by
  cases a with
  | session sa => exact inv_session h hstep
  | stream b => exact inv_stream h hstep
  | deliver => exact inv_deliver h hstep
  | lose =>
    simp only [step] at hstep
    split_ifs at hstep
    cases hstep
    refine ⟨h.session,h.log,h.stream,?_⟩
    exact tab_of_handled h.tab rfl
      (handled_sublist rfl ⟨[],(List.append_nil _).symm⟩ (Nat.le_succ _))

/-- The events that reach the tab were broadcast, in their order. -/
theorem handled_log (h : Inv s) : (handled s).Sublist (s.session.log.map bare) := by
  have hdelivered := (delivered_sublist h.stream).filterMap (frameEvent s.stream.sid)
  rw [filterMap_framesOf, List.filterMap_map, h.log] at hdelivered
  have hevents : s.session.log.filterMap
      (frameEvent s.stream.sid ∘ downloadFrame s.stream.sid) = s.session.log.map bare := by
    rw [← List.filterMap_eq_map]
    exact List.filterMap_congr fun e _ => frameEvent_downloadFrame s.stream.sid e
  rw [hevents] at hdelivered
  exact ((List.take_sublist _ _).filterMap _).trans hdelivered

theorem unnamed_opening (id : UInt32) (totalSize : ℕ) (name : String)
    (chunks : List Bytes) (status : UInt8) :
    (opening id totalSize name chunks++[Incoming.end_ id status]).map unnamed =
      course id totalSize chunks status := by
  have hchunks : (chunks.map (Incoming.chunk id)).map unnamed = chunks.map (.chunk id) := by
    rw [List.map_map]
    rfl
  simp only [opening, course, List.map_append, List.map_cons, hchunks, unnamed, List.map_nil]

/-- The course of a download in the log is one of a task that was started. -/
theorem course_of_log {session : Session} (h : Accounted session)
    (hfew : session.started.length < 2^32) {id : UInt32} {totalSize : ℕ}
    {chunks : List Bytes} {status : UInt8}
    (hsub : (course id totalSize chunks status).Sublist (session.log.map bare)) :
    ∃ d ∈ session.started, d.id = id ∧ (course id totalSize chunks status).Sublist
      ((downloadTask d.id d.path d.env).1.map bare) := by
  have hbegin : .begin_ id totalSize "" ∈ session.log.map bare :=
    hsub.subset List.mem_cons_self
  obtain ⟨e,he,hbare⟩ := List.mem_map.mp hbegin
  have hid : eventId e = id := by
    rw [← incomingId_bare, hbare]
    rfl
  obtain ⟨d,hd,hknown⟩ := h.known e he
  refine ⟨d,hd,hknown.symm.trans hid,?_⟩
  have hown : (course id totalSize chunks status).filter (fun m => incomingId m = d.id) =
      course id totalSize chunks status := by
    apply List.filter_eq_self.mpr
    rw [← hknown, hid]
    exact fun m hm => decide_eq_true (incomingId_course m hm)
  have hlog : (session.log.map bare).filter (fun m => incomingId m = d.id) =
      (session.log.filter fun e => eventId e = d.id).map bare := by
    rw [List.filter_map]
    simp only [Function.comp_def, incomingId_bare]
  rw [← hown, h.events hfew d hd, List.map_append]
  apply (hsub.filter _).trans
  rw [hlog]
  exact List.sublist_append_left _ _

/-- On one connection, whatever is lost on the way and however downloads interleave, a saved
file is the whole file of one download. -/
theorem saved_download_whole (before : List SessionAct) (session : Session) (sid : UInt32)
    (eventLog : List SessionFanout.SessionEvent) (scrollback : Bytes)
    (controller : Option UInt32) (as : List Act) (s : Connection)
    (hbefore : run Session.step Session.new before = some session)
    (hrun : run step (Connection.attach session sid eventLog scrollback controller) as = some s)
    (hfew : s.session.started.length < 2^32) :
    ∀ b ∈ s.tab.saved, ∃ d ∈ s.session.started, d.id = b.downloadId ∧ Whole d b.bytes := by
  have hsession : Accounted session :=
    run_invariant Session.step (fun _ _ _ h hstep => accounted_step h hstep) accounted_new hbefore
  have hstart : Inv (Connection.attach session sid eventLog scrollback controller) := by
    refine ⟨hsession,rfl,start_forwarded sid eventLog session.log scrollback controller,?_⟩
    exact ⟨fun _ => [],traced_new _,fun _ => List.nil_sublist _⟩
  have hinv : Inv s := run_invariant step (fun _ _ _ h hstep => inv_step h hstep) hstart hrun
  intro b hb
  obtain ⟨history,htraced,hheard⟩ := hinv.tab
  obtain ⟨chunks,status,hpart,hstatus,hbytes⟩ := htraced.saved b hb
  have hcourse := hpart.map unnamed
  rw [unnamed_opening] at hcourse
  obtain ⟨d,hd,hid,hown⟩ := course_of_log hinv.session hfew
    ((hcourse.trans (hheard _)).trans (handled_log hinv))
  have hlen : chunks.flatten.length = b.bytes.length := congrArg List.length hbytes.symm
  rw [hbytes]
  exact ⟨d,hd,hid,whole_of_course hown hstatus hlen⟩

def smallFile (b : UInt8) : FileEnv := ⟨true,some (true,2),true,[.bytes [b,b] true]⟩

def twoDownloads : List Act :=
  [.stream .sendNext,.session (.download "a" (smallFile 7)),.session (.download "b" (smallFile 9)),
    .session (.send 0),.session (.send 1),.session (.send 0),.session (.send 1),.session (.send 1),
    .session (.send 0)]++
    (List.replicate 6 [.stream .recvDownload,.stream .sendNext,.stream (.other .recv)]).flatten++
    [.stream (.other .recv),.deliver,.deliver,.deliver,.lose,.deliver,.deliver,.deliver]

theorem second_download_whole :
    ∃ s, run step (Connection.attach Session.new 1 [] [] none) twoDownloads = some s ∧
      s.tab.saved = [⟨2,"b",[9,9],0⟩] ∧
      ∀ b ∈ s.tab.saved, ∃ d ∈ s.session.started, d.id = b.downloadId ∧ Whole d b.bytes := by
  have hfacts : ((run step (Connection.attach Session.new 1 [] [] none) twoDownloads).map fun s =>
      (s.tab.saved,s.session.started.length)) = some ([⟨2,"b",[9,9],0⟩],2) := by
    decide +kernel
  obtain ⟨s,hrun,hs⟩ := Option.map_eq_some_iff.mp hfacts
  obtain ⟨hsaved,hstarted⟩ := Prod.mk.inj hs
  refine ⟨s,hrun,hsaved,?_⟩
  apply saved_download_whole [] Session.new 1 [] [] none twoDownloads s rfl hrun
  rw [hstarted]
  decide

end Runs

end Term.SavedDownloads
