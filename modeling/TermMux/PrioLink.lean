import TermMux.HubLink
import TermMux.PriorityChannel

/-!
# The writer queue of a link

Hub and agent each own a writer task fed through a `PrioTx` with a high and a low
half, bounded in bytes. `send_frame` on the hub and `send_frame_to_hub` on the
agent choose the half by the type of the frame. A queued frame stands for its
encoding, whose length is what its permit counts.
-/

set_option autoImplicit false

namespace Term.PrioLink
open Term.ByteOrder Term.FrameModel Term.FrameWire Term.HubLink Term.Machine Term.PriorityChannel

inductive Side where
  | hub | agent
  deriving DecidableEq, Repr

/-- The half `send_frame_to_hub` chooses. -/
def halfToHub (ty : FrameType) : Half :=
  match ty with
  | .downloadBegin | .downloadChunk | .downloadEnd => .lo
  | _ => .hi

def Side.half : Side → FrameType → Half
  | .hub => HubLink.half
  | .agent => halfToHub

abbrev Writer := Channel Half Frame

/-- The order of the biased `select!` in `PrioRx::recv`. -/
def biased : List Half := [.hi,.lo]

def frameSize (f : Frame) : ℕ := (encode f).length

def prioChannel (capHi capLo : ℕ) : Writer :=
  Channel.new fun
    | .hi => min capHi (2^32-1)
    | .lo => min capLo (2^32-1)

def recv (w : Writer) : Received Frame × Writer := Channel.recv biased w

def encodeDownloadChunk (streamId downloadId : UInt32) (bytes : Bytes) : Bytes :=
  let payloadLen := 4+bytes.length
  be32 streamId++(FrameType.downloadChunk.code::(be32 (asU32 payloadLen)++
    (be32 downloadId++bytes)))

theorem encodeDownloadChunk_eq (streamId downloadId : UInt32) (bytes : Bytes) :
    encodeDownloadChunk streamId downloadId bytes =
      encode ⟨streamId,.downloadChunk downloadId bytes⟩ := by
  simp only [encodeDownloadChunk, encode, Frame.ty, Body.ty, payload, List.length_append,
    be32_length]

inductive Act where
  /-- `send_frame` is granted its permit. -/
  | send (f : Frame)
  /-- `writer.lo.send(encode_download_chunk(..))` is granted its permit. -/
  | sendChunk (streamId downloadId : UInt32) (bytes : Bytes)
  | push (h : Half) (f : Frame)
  | clone (h : Half)
  | drop (h : Half)
  | recv
  | dropReceiver
  deriving DecidableEq, Repr

def Act.onChannel (side : Side) : Act → Option (PriorityChannel.Act Half Frame)
  | .send f => some (.grant (side.half f.ty) f)
  | .sendChunk streamId downloadId bytes =>
    if side = .agent then some (.grant .lo ⟨streamId,.downloadChunk downloadId bytes⟩) else none
  | .push h f => some (.push h f)
  | .clone h => some (.clone h)
  | .drop h => some (.drop h)
  | .recv => some .recv
  | .dropReceiver => some .dropReceiver

def step (side : Side) (w : Writer) (a : Act) : Option Writer :=
  (a.onChannel side).bind (Channel.step frameSize biased w)

/-- A whole send: refused at once, or granted and pushed. Its result says whether the
frame was queued. It is `none` while the send waits for room. -/
def sendNow (side : Side) (w : Writer) (f : Frame) : Option (Writer × Bool) :=
  let h := side.half f.ty
  if (w.queue h).cap < frameSize f then some (w,false)
  else
    (step side w (.send f)).bind fun w' => (step side w' (.push h f)).map fun w'' =>
      (w'',w.receiving)

structure Routed (side : Side) (w : Writer) : Prop where
  granted : ∀ h, ∀ f ∈ (w.queue h).granted, side.half f.ty = h
  sent : ∀ p ∈ w.sent, side.half p.2.item.ty = p.1

section Routing
variable {side : Side} {w w' : Writer}

theorem setQueue_granted {k k' : Half} {q : Queue Frame} (hq : q.granted ⊆ (w.queue k).granted) :
    ((w.setQueue k q).queue k').granted ⊆ (w.queue k').granted := by
  by_cases heq : k' = k
  · rw [heq, Channel.setQueue_self]
    exact hq
  · rw [Channel.setQueue_ne w q heq]
    exact List.Subset.refl _

theorem recv_granted (w : Writer) :
    (recv w).2.sent = w.sent ∧ ∀ k, ((recv w).2.queue k).granted ⊆ (w.queue k).granted := by
  obtain ⟨closed,-,hcases⟩ := recv_cases biased w
  rcases hcases with ⟨-,heq⟩ | heq | ⟨k,-,x,rest,-,-,heq⟩
  · rw [recv, heq]
    exact ⟨rfl,fun _ => List.Subset.refl _⟩
  · rw [recv, heq]
    exact ⟨rfl,fun _ => List.Subset.refl _⟩
  · rw [recv, heq]
    refine ⟨rfl,fun k' => ?_⟩
    exact setQueue_granted (List.Subset.refl _)

theorem push_granted (w : Writer) (k : Half) (f : Frame) :
    (∀ k', ((w.push k f).queue k').granted ⊆ (w.queue k').granted) ∧
      ((w.push k f).sent = w.sent ∨ (w.push k f).sent = w.sent++[(k,⟨w.sent.length,f⟩)]) := by
  unfold Channel.push
  split
  · exact ⟨fun _ => setQueue_granted List.erase_subset,.inr rfl⟩
  · exact ⟨fun _ => setQueue_granted List.erase_subset,.inl rfl⟩

def Act.grants : Act → Option Frame
  | .send f => some f
  | .sendChunk streamId downloadId bytes => some ⟨streamId,.downloadChunk downloadId bytes⟩
  | _ => none

theorem grant_cases {k : Half} {f : Frame}
    (hstep : Channel.step frameSize biased w (.grant k f) = some w') : w'.sent = w.sent ∧
      ∀ k', ∀ g ∈ (w'.queue k').granted, g ∈ (w.queue k').granted ∨ k' = k ∧ g = f := by
  simp only [Channel.step, Option.ite_none_right_eq_some, Option.some.injEq] at hstep
  obtain ⟨-,rfl⟩ := hstep
  refine ⟨rfl,fun k' g hg => ?_⟩
  by_cases heq : k' = k
  · rw [heq] at hg ⊢
    rw [Channel.setQueue_self] at hg
    rcases List.mem_cons.mp hg with hnew | hold
    · exact .inr ⟨rfl,hnew⟩
    · exact .inl hold
  · rw [Channel.setQueue_ne w _ heq] at hg
    exact .inl hg

/-- A step obtains a permit, pushes a frame that has one, or adds no frame. -/
theorem step_cases {a : Act} (hstep : step side w a = some w') :
    (∃ f, a.grants = some f ∧ w'.sent = w.sent ∧ ∀ k, ∀ g ∈ (w'.queue k).granted,
      g ∈ (w.queue k).granted ∨ k = side.half f.ty ∧ g = f) ∨
    (∀ k, (w'.queue k).granted ⊆ (w.queue k).granted) ∧
      (w'.sent = w.sent ∨ ∃ k f, f ∈ (w.queue k).granted ∧
        w'.sent = w.sent++[(k,⟨w.sent.length,f⟩)]) := by
  cases a with
  | send f => exact .inl ⟨f,rfl,grant_cases hstep⟩
  | sendChunk streamId downloadId bytes =>
    simp only [step, Act.onChannel] at hstep
    by_cases hagent : side = .agent
    · rw [if_pos hagent] at hstep
      refine .inl ⟨_,rfl,?_⟩
      rw [hagent]
      exact grant_cases hstep
    · rw [if_neg hagent] at hstep
      cases hstep
  | push k f =>
    simp only [step, Act.onChannel, Option.bind_some, Channel.step,
      Option.ite_none_right_eq_some, Option.some.injEq] at hstep
    obtain ⟨hf,rfl⟩ := hstep
    obtain ⟨hgranted,hsent⟩ := push_granted w k f
    exact .inr ⟨hgranted,hsent.imp_right fun hsent => ⟨k,f,hf,hsent⟩⟩
  | recv =>
    simp only [step, Act.onChannel, Option.bind_some, Channel.step,
      Option.ite_none_right_eq_some, Option.some.injEq] at hstep
    obtain ⟨-,rfl⟩ := hstep
    obtain ⟨hsent,hgranted⟩ := recv_granted w
    exact .inr ⟨hgranted,.inl hsent⟩
  | clone k
  | drop k =>
    simp only [step, Act.onChannel, Option.bind_some, Channel.step,
      Option.ite_none_right_eq_some, Option.some.injEq] at hstep
    obtain ⟨-,rfl⟩ := hstep
    exact .inr ⟨fun _ => setQueue_granted (List.Subset.refl _),.inl rfl⟩
  | dropReceiver =>
    simp only [step, Act.onChannel, Option.bind_some, Channel.step,
      Option.ite_none_right_eq_some, Option.some.injEq] at hstep
    obtain ⟨-,rfl⟩ := hstep
    exact .inr ⟨fun _ => List.Subset.refl _,.inl rfl⟩

theorem routed_step {a : Act} (h : Routed side w) (hstep : step side w a = some w') :
    Routed side w' := by
  rcases step_cases hstep with ⟨f,-,hsent,hgranted⟩ | ⟨hgranted,hsent⟩
  · refine ⟨fun k g hg => ?_,hsent ▸ h.sent⟩
    rcases hgranted k g hg with hold | ⟨rfl,rfl⟩
    · exact h.granted k g hold
    · rfl
  · refine ⟨fun k g hg => h.granted k g (hgranted k hg),?_⟩
    rcases hsent with hsent | ⟨k,f,hf,hsent⟩
    · exact hsent ▸ h.sent
    · rw [hsent]
      exact forall_mem_concat h.sent (h.granted k f hf)

theorem inOrder_step {a : Act} (h : InOrder biased w) (hstep : step side w a = some w') :
    InOrder biased w' := by
  obtain ⟨b,-,hb⟩ := Option.bind_eq_some_iff.mp hstep
  exact step_inOrder h hb

theorem sendNow_cases {f : Frame} {sent : Bool} (hsend : sendNow side w f = some (w',sent)) :
    (w' = w ∧ sent = false) ∨ sent = w.receiving ∧ ∃ w₁, step side w (.send f) = some w₁ ∧
      step side w₁ (.push (side.half f.ty) f) = some w' := by
  simp only [sendNow] at hsend
  split at hsend
  · cases hsend
    exact .inl ⟨rfl,rfl⟩
  · obtain ⟨w₁,hgrant,hpush⟩ := Option.bind_eq_some_iff.mp hsend
    obtain ⟨w₂,hstep,heq⟩ := Option.map_eq_some_iff.mp hpush
    cases heq
    exact .inr ⟨rfl,w₁,hgrant,hstep⟩

theorem step_send {f : Frame} (hstep : step side w (.send f) = some w') :
    w' = w.setQueue (side.half f.ty) { w.queue (side.half f.ty) with
      granted := f::(w.queue (side.half f.ty)).granted } := by
  simp only [step, Act.onChannel, Option.bind_some, Channel.step, Option.ite_none_right_eq_some,
    Option.some.injEq] at hstep
  exact hstep.2.symm

theorem step_push {k : Half} {f : Frame} (hstep : step side w (.push k f) = some w') :
    w' = w.push k f := by
  simp only [step, Act.onChannel, Option.bind_some, Channel.step, Option.ite_none_right_eq_some,
    Option.some.injEq] at hstep
  exact hstep.2.symm

theorem sendNow_inOrder {f : Frame} {sent : Bool} (h : InOrder biased w)
    (hsend : sendNow side w f = some (w',sent)) : InOrder biased w' := by
  rcases sendNow_cases hsend with ⟨rfl,-⟩ | ⟨-,w₁,hgrant,hpush⟩
  · exact h
  · exact inOrder_step (inOrder_step h hgrant) hpush

theorem sendNow_logs {f : Frame} {sent : Bool} (hsend : sendNow side w f = some (w',sent)) :
    w'.delivered = w.delivered ∧ w'.receiving = w.receiving ∧
      (sent = false ∧ w'.sent = w.sent ∨
        sent = true ∧ w.receiving = true ∧
          w'.sent = w.sent++[(side.half f.ty,⟨w.sent.length,f⟩)]) := by
  rcases sendNow_cases hsend with ⟨rfl,rfl⟩ | ⟨rfl,w₁,hgrant,hpush⟩
  · exact ⟨rfl,rfl,.inl ⟨rfl,rfl⟩⟩
  · rw [step_push hpush, step_send hgrant]
    by_cases hr : w.receiving = true
    · simp [Channel.push, Channel.setQueue, hr]
    · simp [Channel.push, Channel.setQueue, hr]

/-- No step but a receive delivers, and a receive delivers at most one frame. -/
theorem step_logs {a : Act} (hstep : step side w a = some w') :
    (∃ more, w'.sent = w.sent++more) ∧
      (w'.delivered = w.delivered ∨ ∃ p, w'.delivered = w.delivered++[p]) := by
  obtain ⟨b,-,hb⟩ := Option.bind_eq_some_iff.mp hstep
  cases b with
  | push k f =>
    simp only [Channel.step, Option.ite_none_right_eq_some, Option.some.injEq] at hb
    obtain ⟨-,rfl⟩ := hb
    unfold Channel.push
    split
    · exact ⟨⟨_,rfl⟩,.inl rfl⟩
    · exact ⟨⟨[],(List.append_nil _).symm⟩,.inl rfl⟩
  | recv =>
    simp only [Channel.step, Option.ite_none_right_eq_some, Option.some.injEq] at hb
    obtain ⟨-,rfl⟩ := hb
    obtain ⟨closed,-,hcases⟩ := recv_cases biased w
    rcases hcases with ⟨-,heq⟩ | heq | ⟨k,-,x,rest,-,-,heq⟩
    · rw [heq]
      exact ⟨⟨[],(List.append_nil _).symm⟩,.inl rfl⟩
    · rw [heq]
      exact ⟨⟨[],(List.append_nil _).symm⟩,.inl rfl⟩
    · rw [heq]
      exact ⟨⟨[],(List.append_nil _).symm⟩,.inr ⟨(k,x),rfl⟩⟩
  | grant k f
  | clone k
  | drop k
  | dropReceiver =>
    simp only [Channel.step, Option.ite_none_right_eq_some, Option.some.injEq] at hb
    obtain ⟨-,rfl⟩ := hb
    exact ⟨⟨[],(List.append_nil _).symm⟩,.inl rfl⟩

end Routing

def framesOf (select : Frame → Bool) (log : List (Half × Sent Frame)) : List Frame :=
  (log.map fun p => p.2.item).filter select

def isPasteOf (sid : UInt32) (f : Frame) : Bool :=
  f.streamId == sid && f.ty ∈ [FrameType.pasteBegin,.pasteChunk,.pasteEnd]

def isDownloadOf (sid : UInt32) (f : Frame) : Bool :=
  f.streamId == sid && f.ty ∈ [FrameType.downloadBegin,.downloadChunk,.downloadEnd]

theorem framesOf_on {select : Frame → Bool} {h : Half} {log : List (Half × Sent Frame)}
    (hlog : ∀ p ∈ log, select p.2.item = true → p.1 = h) :
    framesOf select log = ((on h log).map Sent.item).filter select := by
  induction log with
  | nil => rfl
  | cons p log ih =>
    have hrest := ih fun q hq => hlog q (List.mem_cons_of_mem _ hq)
    rw [on_cons, List.map_append, List.filter_append, ← hrest]
    unfold framesOf
    rw [List.map_cons, List.filter_cons]
    by_cases hp : p.1 = h
    · obtain ⟨k,x⟩ := p
      cases hp
      rw [on_self]
      by_cases hs : select x.item = true <;> simp [hs]
    · have hs : select p.2.item = false := by
        by_contra hs
        exact hp (hlog p List.mem_cons_self (by simpa using hs))
      obtain ⟨k,x⟩ := p
      rw [on_other hp]
      simp [hs]

/-- Frames that the routing keeps on one half are delivered in send order. -/
theorem framesOf_prefix {side : Side} {w : Writer} {select : Frame → Bool} {h : Half}
    (hselect : ∀ f, select f = true → side.half f.ty = h) (hrouted : Routed side w)
    (horder : InOrder biased w) : framesOf select w.delivered <+: framesOf select w.sent := by
  have hdelivered : ∀ p ∈ w.delivered, p ∈ w.sent := fun p hp =>
    mem_on.mp ((horder.part p.1).subset (mem_on.mpr hp))
  have hsent : ∀ p ∈ w.sent, select p.2.item = true → p.1 = h := fun p hp hs =>
    (hrouted.sent p hp).symm.trans (hselect _ hs)
  rw [framesOf_on hsent, framesOf_on fun p hp => hsent p (hdelivered p hp)]
  exact ((horder.part h).map Sent.item).filter select

theorem recv_hi {w : Writer} {x : Sent Frame} {rest : List (Sent Frame)}
    (horder : InOrder biased w) (hitems : (w.queue .hi).items = x::rest) :
    recv w = (.item x,w.deliver .hi x rest) := by
  have hopen : w.closed .hi = false := by
    by_contra hclosed
    have hnil := (horder.drained .hi (by simpa using hclosed)).2
    rw [hitems] at hnil
    cases hnil
  have hscan : w.scan biased = .item .hi x rest := by
    simp [biased, Channel.scan, hopen, hitems]
  have hall : biased.all w.closed = false := by simp [biased, hopen]
  simp [recv, Channel.recv, Channel.recvLoop, hall, hscan]

theorem recv_finished {w : Writer} (horder : InOrder biased w) (h : (recv w).1 = .finished) :
    ∀ k, (w.queue k).senders = 0 ∧ (w.queue k).items = [] := by
  obtain ⟨closed,hcloses,hcases⟩ := recv_cases biased w
  rcases hcases with ⟨hall,-⟩ | heq | ⟨k,-,x,rest,-,-,heq⟩
  · intro k
    have hk : k ∈ biased := by cases k <;> decide
    rcases hcloses k (hall k hk) with hold | hended
    · exact horder.drained k hold
    · exact hended
  · rw [recv, heq] at h
    cases h
  · rw [recv, heq] at h
    cases h

structure LinkOrder (side : Side) (w : Writer) : Prop where
  /-- Each push has its own number. -/
  numbered : Rising w.sent
  /-- A half has delivered what was pushed on it, in that order, up to what is queued. -/
  fifo : w.receiving = true → ∀ h, on h w.sent = on h w.delivered++(w.queue h).items
  part : ∀ h, on h w.delivered <+: on h w.sent
  /-- No receive takes from the low half while the high half has a frame. -/
  urgent : (w.queue .hi).items ≠ [] → ∀ x, (recv w).2.delivered ≠ w.delivered++[(.lo,x)]
  hiFirst : ∀ ds h y es, w.delivered = ds++(h,y)::es →
    ∀ x, (.hi,x) ∈ w.sent → x.seq < y.seq → (.hi,x) ∈ ds
  openFirst : ∀ ds h y es, w.delivered = ds++(h,y)::es →
    ∀ h' x, (h',x) ∈ w.sent → x.item.ty = .open_ → x.seq < y.seq → (h',x) ∈ ds
  pastes : side = .hub → ∀ sid,
    framesOf (isPasteOf sid) w.delivered <+: framesOf (isPasteOf sid) w.sent
  downloads : side = .agent → ∀ sid,
    framesOf (isDownloadOf sid) w.delivered <+: framesOf (isDownloadOf sid) w.sent
  finished : (recv w).1 = .finished → ∀ h, (w.queue h).senders = 0 ∧ (w.queue h).items = []

theorem half_paste {sid : UInt32} {f : Frame} (h : isPasteOf sid f = true) :
    Side.hub.half f.ty = .lo := by
  simp only [isPasteOf, Bool.and_eq_true, decide_eq_true_eq, List.mem_cons, List.not_mem_nil,
    or_false] at h
  rcases h.2 with hty | hty | hty <;> rw [hty] <;> rfl

theorem half_download {sid : UInt32} {f : Frame} (h : isDownloadOf sid f = true) :
    Side.agent.half f.ty = .lo := by
  simp only [isDownloadOf, Bool.and_eq_true, decide_eq_true_eq, List.mem_cons, List.not_mem_nil,
    or_false] at h
  rcases h.2 with hty | hty | hty <;> rw [hty] <;> rfl

theorem half_open (side : Side) : side.half .open_ = .hi := by
  cases side <;> rfl

theorem hi_first {w : Writer} (horder : InOrder biased w) {ds es : List (Half × Sent Frame)}
    {h : Half} {x y : Sent Frame} (hd : w.delivered = ds++(h,y)::es) (hx : (.hi,x) ∈ w.sent)
    (hlt : x.seq < y.seq) : (.hi,x) ∈ ds := by
  apply horder.first ds h y es hd .hi x hx _ hlt
  simp [biased]

/-- In every run of senders and receiver the writer keeps the order of the link. -/
theorem priority_link_order (side : Side) (capHi capLo : ℕ) (as : List Act) (w : Writer)
    (hrun : run (step side) (prioChannel capHi capLo) as = some w) : LinkOrder side w := by
  have horder : InOrder biased w :=
    run_invariant (step side) (fun _ _ _ h hstep => inOrder_step h hstep) (new_inOrder _) hrun
  have hrouted : Routed side w := by
    apply run_invariant (step side) (fun _ _ _ h hstep => routed_step h hstep) _ hrun
    constructor <;> simp [prioChannel, Channel.new]
  constructor
  · exact horder.rising
  · exact horder.fifo
  · exact horder.part
  · intro hne x heq
    obtain ⟨y,rest,hitems⟩ := List.exists_cons_of_ne_nil hne
    rw [recv_hi horder hitems] at heq
    have hlast := List.append_cancel_left heq
    cases hlast
  · intro ds h y es hd x hx hlt
    exact hi_first horder hd hx hlt
  · intro ds h y es hd h' x hx hopen hlt
    have hhi := hrouted.sent _ hx
    simp only [hopen, half_open] at hhi
    rw [← hhi] at hx ⊢
    exact hi_first horder hd hx hlt
  · rintro rfl sid
    exact framesOf_prefix (fun f hf => half_paste hf) hrouted horder
  · rintro rfl sid
    exact framesOf_prefix (fun f hf => half_download hf) hrouted horder
  · exact recv_finished horder

def pasteAndKey : List Act :=
  let opened : Frame := ⟨1,.open_ "main" (24,80)⟩
  let begun : Frame := ⟨1,.pasteBegin 1 2 1 1 "a"⟩
  let chunk : Frame := ⟨1,.pasteChunk 1 [7,7]⟩
  let key : Frame := Frame.data 1 [97]
  [.send opened,.push .hi opened,.send begun,.push .lo begun,.send chunk,.push .lo chunk,
    .recv,.send key,.push .hi key,.recv,.recv,.drop .hi,.drop .lo,.recv]

theorem pasteAndKey_in_order : ∃ w, run (step .hub) (prioChannel hubWriterHiBytes hubWriterLoBytes)
    pasteAndKey = some w ∧ w.delivered.map (fun p => p.2.item.ty) =
      [.open_,.data,.pasteBegin,.pasteChunk] ∧ (recv w).1 = .finished ∧ LinkOrder .hub w := by
  have hfacts : ((run (step .hub) (prioChannel hubWriterHiBytes hubWriterLoBytes) pasteAndKey).map
      fun w => (w.delivered.map (fun p => p.2.item.ty),(recv w).1)) =
      some ([.open_,.data,.pasteBegin,.pasteChunk],.finished) := by
    decide +kernel
  obtain ⟨w,hrun,hw⟩ := Option.map_eq_some_iff.mp hfacts
  obtain ⟨hdelivered,hfinished⟩ := Prod.mk.inj hw
  exact ⟨w,hrun,hdelivered,hfinished,priority_link_order .hub _ _ _ w hrun⟩

end Term.PrioLink
