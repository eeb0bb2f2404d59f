import TermMux.HubLinkFrames

/-!
# Re-framing of browser messages

A browser message is a frame of stream zero. The proxy checks it under its own
stream id, decodes it into a body and encodes the body again. What reaches the
writer is the message with its first four bytes replaced, and the state of the
link that other frames come from is left alone. The end of the stream adds one
`Close` of the same id.
-/

set_option autoImplicit false

namespace Term.ProxyFrames
open Term.ByteOrder Term.FrameCodec Term.FrameModel Term.FrameWire Term.HubLink Term.HubLinkFrames
  Term.Machine Term.Outcome

def reframed (sid : UInt32) (data : Bytes) : Bytes := be32 sid++data.drop 4

def enqueue (s : Link) (h : Half) (b : Bytes) : Link :=
  { s.setQueue h { s.queue h with items := (s.queue h).items++[b] } with
    enqueued := s.enqueued++[b] }

inductive Forwards (s : Link) (sid : UInt32) : WsMessage → Option Link → Prop where
  | sent (data : Bytes) (ty : FrameType) (hstream : data.take 4 = be32 0)
    (hty : data[4]? = some ty.code) (hscoped : ¬IsControl ty) :
    Forwards s sid (.binary data) (some (enqueue s (half ty) (reframed sid data)))
  | ended (m : WsMessage) (hping : m ≠ .ping) (hpong : m ≠ .pong) :
    Forwards s sid m (some (endProxy s sid))
  | ignored (m : WsMessage) (hm : m = .ping ∨ m = .pong) : Forwards s sid m (some s)
  /-- The half of the writer is full. -/
  | waits (data : Bytes) (h : Half) (hopen : (s.queue h).closed = false)
    (hfull : (s.queue h).cap < (s.queue h).used+(reframed sid data).length) :
    Forwards s sid (.binary data) none

theorem proxyFrame_header (sid inStream : UInt32) (tb : UInt8) (len : UInt32) (p : Bytes)
    (body : Body) :
    proxyFrame sid (be32 inStream++(tb::(be32 len++p))) = .ok body ↔
      inStream = 0 ∧ ∃ ty, tb = ty.code ∧ Scoped ty sid ∧ LenOk ty len.toNat ∧
        p.length = len.toNat ∧ ∃ f, fromPayload sid ty p = .ok f ∧ f.body = body := by
  simp only [proxyFrame, header_length, header_slice, header_len, bind_eq_ok, rejectIf_eq_ok,
    u32At_be32, ok_bind, index_skip32, index_cons, pure_eq_ok, Prod.exists, mapErr_eq_ok,
    validateHeader_eq_ok, exists_const]
  constructor
  · rintro ⟨-,hin,ty,_,⟨htb,rfl,hsc,hok⟩,heq,f,hf,rfl⟩
    exact ⟨by simpa using hin,ty,htb,hsc,hok,by omega,f,hf,rfl⟩
  · rintro ⟨hin,ty,htb,hsc,hok,heq,f,hf,rfl⟩
    exact ⟨by omega,by simpa using hin,ty,len,⟨htb,rfl,hsc,hok⟩,by omega,f,hf,rfl⟩

/-- An accepted message is the encoding of its body on stream zero. -/
theorem proxyFrame_eq_encode {sid : UInt32} {data : Bytes} {body : Body}
    (h : proxyFrame sid data = .ok body) : data = encode ⟨0,body⟩ ∧ Scoped body.ty sid := by
  by_cases hlen : headerLen ≤ data.length
  · obtain ⟨inStream,tb,len,p,rfl⟩ := exists_header hlen
    obtain ⟨rfl,ty,rfl,hsc,hok,hp,f,hf,rfl⟩ := (proxyFrame_header _ _ _ _ _ _).mp h
    rw [← hp] at hok
    obtain ⟨-,hty,-,rfl⟩ := (fromPayload_eq_ok hsc hok).mp hf
    have hbody : f.body.ty = ty := hty
    have hcount : len = asU32 (payload f.body).length := by
      apply UInt32.toNat_inj.mp
      rw [asU32_toNat hok, hp]
    rw [hcount, hbody]
    refine ⟨?_,hsc⟩
    rw [← hbody]
    rfl
  · simp only [proxyFrame, bind_eq_ok, rejectIf_eq_ok] at h
    omega

theorem encode_eq_reframed (sid : UInt32) (body : Body) :
    encode ⟨sid,body⟩ = reframed sid (encode ⟨0,body⟩) := by
  unfold reframed encode
  rw [List.drop_left' (be32_length 0)]
  rfl

theorem encode_stream (body : Body) :
    (encode ⟨0,body⟩).take 4 = be32 0 ∧ (encode ⟨0,body⟩)[4]? = some body.ty.code := by
  unfold encode
  refine ⟨List.take_left' (be32_length 0),?_⟩
  rw [List.getElem?_append_right (by simp), be32_length]
  rfl

theorem send_cases (q : BytesQueue) (b : Bytes) :
    q.send b = .queued { q with items := q.items++[b] } ∨ q.send b = .refused ∨
      q.send b = .waiting ∧ q.closed = false ∧ q.cap < q.used+b.length := by
  unfold BytesQueue.send
  by_cases hlarge : q.cap < b.length
  · rw [if_pos hlarge]
    exact .inr (.inl rfl)
  by_cases hclosed : q.closed = true
  · rw [if_neg hlarge, if_pos hclosed]
    exact .inr (.inl rfl)
  by_cases hroom : q.used+b.length ≤ q.cap
  · rw [if_neg hlarge, if_neg hclosed, if_pos hroom]
    exact .inl rfl
  · rw [if_neg hlarge, if_neg hclosed, if_neg hroom]
    exact .inr (.inr ⟨rfl,by simpa using hclosed,by omega⟩)

theorem sendFrame_cases (s : Link) (f : Frame) :
    sendFrame s f = some (enqueue s (half f.ty) (encode f),true) ∨
      sendFrame s f = some (s,false) ∨
      sendFrame s f = none ∧ (s.queue (half f.ty)).closed = false ∧
        (s.queue (half f.ty)).cap < (s.queue (half f.ty)).used+(encode f).length := by
  unfold sendFrame
  rcases send_cases (s.queue (half f.ty)) (encode f) with hq | hq | ⟨hq,hopen,hfull⟩
  · simp only [hq]
    exact .inl rfl
  · simp only [hq]
    exact .inr (.inl trivial)
  · simp only [hq]
    exact .inr (.inr ⟨trivial,hopen,hfull⟩)

theorem forwards_browser {s : Link} {sid : UInt32} (hmem : sid ∈ s.proxies) (hsid : sid ≠ 0)
    (m : WsMessage) : Forwards s sid m (step s (.browser sid m)) := by
  simp only [step, proxyStep, hmem, not_true_eq_false, if_false]
  cases m with
  | binary data =>
    simp only
    cases hframe : proxyFrame sid data with
    | err e
    | panicked => exact .ended _ (by simp) (by simp)
    | ok body =>
      obtain ⟨rfl,hscoped⟩ := proxyFrame_eq_encode hframe
      have hcontrol : ¬IsControl body.ty := by
        intro hcontrol
        rw [Scoped, if_pos hcontrol] at hscoped
        exact hsid hscoped
      simp only
      rcases sendFrame_cases s ⟨sid,body⟩ with hsent | hrefused | ⟨hwait,hopen,hfull⟩
      · rw [hsent, encode_eq_reframed]
        exact .sent _ body.ty (encode_stream body).1 (encode_stream body).2 hcontrol
      · rw [hrefused]
        exact .ended _ (by simp) (by simp)
      · rw [hwait]
        rw [encode_eq_reframed] at hfull
        exact .waits _ (half body.ty) hopen hfull
  | ping => exact .ignored _ (.inl rfl)
  | pong => exact .ignored _ (.inr rfl)
  | text | close | error => exact .ended _ (by simp) (by simp)

section Runs
variable {s t : Link} {a : Act}

structure NonZero (s : Link) : Prop where
  proxies : ∀ sid ∈ s.proxies, sid ≠ 0
  dropped : ∀ sid ∈ s.dropped, sid ≠ 0

theorem nonZero_same (h : NonZero s) (hproxies : t.proxies = s.proxies)
    (hdropped : t.dropped = s.dropped) : NonZero t := by
  refine ⟨?_,?_⟩
  · rw [hproxies]
    exact h.proxies
  · rw [hdropped]
    exact h.dropped

theorem enqueue_same (s : Link) (h : Half) (b : Bytes) :
    (enqueue s h b).proxies = s.proxies ∧ (enqueue s h b).dropped = s.dropped := by
  cases h <;> exact ⟨rfl,rfl⟩

theorem sendFrame_enqueued {f : Frame} {sent : Bool} (hsend : sendFrame s f = some (t,sent)) :
    t.enqueued = s.enqueued ∨ t.enqueued = s.enqueued++[encode f] := by
  rcases sendFrame_cases s f with heq | heq | ⟨heq,-⟩
  · rw [heq] at hsend
    cases hsend
    exact .inr rfl
  · rw [heq] at hsend
    cases hsend
    exact .inl rfl
  · rw [heq] at hsend
    cases hsend

theorem sendFrame_same {f : Frame} {sent : Bool} (hsend : sendFrame s f = some (t,sent)) :
    t.proxies = s.proxies ∧ t.dropped = s.dropped := by
  rcases sendFrame_cases s f with heq | heq | ⟨heq,-⟩
  · rw [heq] at hsend
    cases hsend
    exact enqueue_same s _ _
  · rw [heq] at hsend
    cases hsend
    exact ⟨rfl,rfl⟩
  · rw [heq] at hsend
    cases hsend

theorem sendCall_same {f : Frame} (hstep : sendCall s f = some t) :
    t.proxies = s.proxies ∧ t.dropped = s.dropped := by
  unfold sendCall at hstep
  split_ifs at hstep
  obtain ⟨⟨u,sent⟩,hsend,rfl⟩ := Option.map_eq_some_iff.mp hstep
  have hsame := sendFrame_same hsend
  cases sent with
  | true => exact hsame
  | false => exact hsame

theorem readAgent_same {data : Bytes} (hstep : readAgent s data = some t) :
    t.proxies = s.proxies ∧ t.dropped = s.dropped := by
  unfold readAgent at hstep
  split_ifs at hstep
  split at hstep
  · cases hstep
    unfold handleAgentFrame
    split
    · split <;> exact ⟨rfl,rfl⟩
    · exact ⟨rfl,rfl⟩
  · cases hstep
    exact ⟨rfl,rfl⟩

theorem sendPong_same (hstep : sendPong s = some t) :
    t.proxies = s.proxies ∧ t.dropped = s.dropped := by
  obtain ⟨f,-,hsend⟩ := Option.bind_eq_some_iff.mp hstep
  obtain ⟨⟨u,sent⟩,hsent,rfl⟩ := Option.map_eq_some_iff.mp hsend
  have hsame := sendFrame_same hsent
  exact hsame

theorem writerStep_same (hstep : writerStep s = some t) :
    t.proxies = s.proxies ∧ t.dropped = s.dropped := by
  unfold writerStep at hstep
  split at hstep
  · cases hstep
    exact ⟨rfl,rfl⟩
  · cases hstep
    exact ⟨rfl,rfl⟩
  · cases hstep

theorem agentRead_same (hstep : agentRead s = some t) :
    t.proxies = s.proxies ∧ t.dropped = s.dropped := by
  unfold agentRead at hstep
  split at hstep
  · split at hstep <;> cases hstep <;> exact ⟨rfl,rfl⟩
  · cases hstep

theorem nonZero_endProxy {sid : UInt32} (h : NonZero s) (hsid : sid ≠ 0) :
    NonZero (endProxy s sid) := by
  refine ⟨?_,?_⟩
  · exact fun i hi => h.proxies i (List.mem_of_mem_erase hi)
  · intro i hi
    rcases List.mem_cons.mp hi with rfl | hold
    · exact hsid
    · exact h.dropped i hold

theorem nonZero_step (h : NonZero s) (hstep : step s a = some t) : NonZero t := by
  cases a with
  | openStream =>
    cases hstep
    refine ⟨?_,h.dropped⟩
    intro i hi
    rcases List.mem_cons.mp hi with rfl | hold
    · exact allocStreamId_ne_zero s.nextStreamId
    · exact h.proxies i hold
  | browser sid m =>
    have hmem : sid ∈ s.proxies := by
      by_contra hout
      simp [step, proxyStep, hout] at hstep
    have hforwards := forwards_browser hmem (h.proxies sid hmem) m
    rw [hstep] at hforwards
    cases hforwards with
    | sent data ty hstream hty hscoped =>
      exact nonZero_same h (enqueue_same s _ _).1 (enqueue_same s _ _).2
    | ended m hping hpong => exact nonZero_endProxy h (h.proxies sid hmem)
    | ignored m hm => exact h
  | browserGone sid =>
    simp only [step] at hstep
    split_ifs at hstep with hmem
    exact Option.some.inj hstep ▸ nonZero_endProxy h (h.proxies sid hmem)
  | guardDrop sid =>
    simp only [step, guardDrop] at hstep
    split_ifs at hstep with hmem
    obtain ⟨⟨u,sent⟩,hsend,rfl⟩ := Option.map_eq_some_iff.mp hstep
    obtain ⟨hproxies,hdropped⟩ := sendFrame_same hsend
    apply nonZero_same _ hproxies hdropped
    exact ⟨h.proxies,fun i hi => h.dropped i (List.mem_of_mem_erase hi)⟩
  | sendCall f => exact nonZero_same h (sendCall_same hstep).1 (sendCall_same hstep).2
  | agentFrame data => exact nonZero_same h (readAgent_same hstep).1 (readAgent_same hstep).2
  | sendPong => exact nonZero_same h (sendPong_same hstep).1 (sendPong_same hstep).2
  | writer => exact nonZero_same h (writerStep_same hstep).1 (writerStep_same hstep).2
  | agentRead => exact nonZero_same h (agentRead_same hstep).1 (agentRead_same hstep).2
  | listSessions
  | killSession sessionId
  | callTimeout rid
  | reset sid
  | teardown =>
    cases hstep
    exact nonZero_same h rfl rfl

theorem nonZero_of_run {acts : List Act} (hrun : run step Link.start acts = some s) : NonZero s := by
  have hstart : NonZero Link.start := ⟨by simp [Link.start],by simp [Link.start]⟩
  exact run_invariant step (fun _ _ _ h hstep => nonZero_step h hstep) hstart hrun

/-- In every reachable state of the link, a message of a proxy's browser ends the stream, is
ignored, or is queued with its first four bytes replaced by the proxy's own stream id. The
end of a stream queues at most the `Close` of that id. -/
theorem browser_message_confined (acts : List Act) (s : Link)
    (hrun : run step Link.start acts = some s) :
    (∀ sid ∈ s.proxies, ∀ m, sid ≠ 0 ∧ Forwards s sid m (step s (.browser sid m))) ∧
      ∀ sid ∈ s.dropped, sid ≠ 0 ∧ ∀ t, step s (.guardDrop sid) = some t →
        t.enqueued = s.enqueued ∨ t.enqueued = s.enqueued++[encode (Frame.close sid)] := by
  have hids := nonZero_of_run hrun
  refine ⟨fun sid hmem m => ⟨hids.proxies sid hmem,?_⟩,fun sid hmem => ⟨hids.dropped sid hmem,?_⟩⟩
  · exact forwards_browser hmem (hids.proxies sid hmem) m
  · intro t hstep
    simp only [step, guardDrop, hmem, not_true_eq_false, if_false] at hstep
    obtain ⟨⟨u,sent⟩,hsend,rfl⟩ := Option.map_eq_some_iff.mp hstep
    have henqueued := sendFrame_enqueued hsend
    exact henqueued

/-- A browser's key press on the first stream of a link. -/
theorem key_press_confined : ∃ s, run step Link.start [.openStream] = some s ∧
    step s (.browser 1 (.binary (encode (Frame.data 0 [0x6C])))) =
      some (enqueue s .hi (encode (Frame.data 1 [0x6C]))) ∧
    Forwards s 1 (.binary (encode (Frame.data 0 [0x6C])))
      (step s (.browser 1 (.binary (encode (Frame.data 0 [0x6C]))))) := by
  refine ⟨_,rfl,rfl,?_⟩
  exact ((browser_message_confined [.openStream] _ rfl).1 1 (by decide) _).2

end Runs

end Term.ProxyFrames
