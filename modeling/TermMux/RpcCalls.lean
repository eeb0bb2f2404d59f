import TermMux.FrameModel
import TermMux.KeyedMap
import TermMux.Machine

/-!
# Calls to the agent

`AgentLink::rpc` parks the sender of a one-shot channel under a fresh request id and waits for
the other end; the reader takes the sender out of the map when a response with that id arrives.
Callers, the reader and the timeouts take turns in any order. A frame that arrives is numbered by
its place, and `sent` records which frame went to which caller.
-/

set_option autoImplicit false

namespace Term.RpcCalls
open Term.FrameModel Term.KeyedMap Term.Machine

inductive RpcResult where
  | body (frame : ℕ) (body : Body)
  | writerClosed
  | agentDropped
  | noResponse
  deriving DecidableEq, Repr

/-- Where a call stands: before the insertion, in `send_frame`, behind a failed send, waiting
with a deadline, behind the end of the wait, and over. -/
inductive Phase where
  | allocated
  | sending
  | refused
  | waiting
  | dropped
  | expired
  | returned (r : RpcResult)
  | cancelled
  deriving DecidableEq, Repr

def Phase.listening : Phase → Bool
  | .sending | .waiting => true
  | _ => false

def Phase.over : Phase → Bool
  | .returned _ | .cancelled => true
  | _ => false

def Phase.failure : Phase → Option RpcResult
  | .refused => some .writerClosed
  | .dropped => some .agentDropped
  | .expired => some .noResponse
  | _ => none

structure Call where
  requestId : UInt32
  phase : Phase
  /-- What the sender has put into the channel, with the number of its frame. -/
  slot : Option (ℕ × Body)
  deriving DecidableEq, Repr

/-- The reader waits for a frame, for the map, or holds the sender of a call. -/
inductive Reader where
  | idle
  | routing (requestId : UInt32) (body : Body)
  | firing (call : ℕ) (body : Body)
  | ended
  deriving DecidableEq, Repr

structure Link where
  nextRequestId : UInt32 := 1
  /-- Each sender is that of the call with the given number. -/
  pendingRpcs : AList fun _ : UInt32 => ℕ := ∅
  calls : List Call := []
  reader : Reader := .idle
  arrived : List Frame := []
  sent : List (ℕ × ℕ) := []

/-- The sender of the call exists: it is parked, or the reader holds it. -/
def senderAlive (s : Link) (i : ℕ) : Bool :=
  s.pendingRpcs.entries.any (fun e => e.2 = i) ||
    match s.reader with
    | .firing j _ => j = i
    | _ => false

def setPhase (s : Link) (i : ℕ) (c : Call) (p : Phase) : Link :=
  { s with calls := s.calls.set i { c with phase := p } }

inductive Move where
  | insert
  | sendDone (ok : Bool)
  | receive
  | expire
  | cleanUp
  | cancel
  deriving DecidableEq, Repr

def rpc (s : Link) (i : ℕ) (c : Call) : Move → Option Link
  | .insert =>
    if c.phase = .allocated then
      some { setPhase s i c .sending with pendingRpcs := s.pendingRpcs.insert c.requestId i }
    else none
  | .sendDone ok =>
    if c.phase = .sending then some (setPhase s i c (if ok then .waiting else .refused)) else none
  | .receive =>
    if c.phase = .waiting then
      match c.slot with
      | some (n,b) => some (setPhase s i c (.returned (.body n b)))
      | none => if senderAlive s i then none else some (setPhase s i c .dropped)
    else none
  | .expire =>
    -- The deadline counts when the receiver has nothing to say.
    if c.phase = .waiting ∧ c.slot = none ∧ senderAlive s i then some (setPhase s i c .expired)
    else none
  | .cleanUp =>
    c.phase.failure.map fun r =>
      { setPhase s i c (.returned r) with pendingRpcs := s.pendingRpcs.erase c.requestId }
  | .cancel => if c.phase.over then none else some (setPhase s i c .cancelled)

def responseId : Body → Option UInt32
  | .sessionList requestId _ => some requestId
  | .killSessionAck requestId _ => some requestId
  | _ => none

def recv (s : Link) (f : Frame) : Link :=
  let s := { s with arrived := s.arrived++[f] }
  if f.streamId ≠ 0 then s
  else match responseId f.body with
    | some requestId => { s with reader := .routing requestId f.body }
    | none =>
      match f.body with
      | .ping _ | .pong _ => s
      | _ => { s with reader := .ended }

/-- `pending_rpcs.lock().await.remove(&request_id)` -/
def route (s : Link) (requestId : UInt32) (body : Body) : Link :=
  match s.pendingRpcs.lookup requestId with
  | some i => { s with pendingRpcs := s.pendingRpcs.erase requestId, reader := .firing i body }
  | none => { s with reader := .idle }

def fire (s : Link) (i : ℕ) (c : Call) (body : Body) : Link :=
  if c.phase.listening then
    { s with
      calls := s.calls.set i { c with slot := some (s.arrived.length-1,body) },
      reader := .idle,
      sent := s.sent++[(s.arrived.length-1,i)] }
  else { s with reader := .idle }

inductive Act where
  | call
  | caller (i : ℕ) (m : Move)
  | recv (f : Frame)
  | route
  | fire
  | readerEnds
  deriving DecidableEq, Repr

def step (s : Link) : Act → Option Link
  | .call => some
      { s with
        nextRequestId := s.nextRequestId+1,
        calls := s.calls++[⟨s.nextRequestId,.allocated,none⟩] }
  | .caller i m => s.calls[i]?.bind fun c => rpc s i c m
  | .recv f => if s.reader = .idle then some (recv s f) else none
  | .route =>
    match s.reader with
    | .routing requestId body => some (route s requestId body)
    | _ => none
  | .fire =>
    match s.reader with
    | .firing i body => s.calls[i]?.map fun c => fire s i c body
    | _ => none
  | .readerEnds => if s.reader = .idle then some { s with reader := .ended } else none

def Unsent (s : Link) (i : ℕ) : Prop :=
  i ∉ s.sent.map Prod.snd ∧ ∀ b, s.reader ≠ .firing i b

def Phase.parks : Phase → Bool
  | .sending | .refused | .waiting | .expired | .cancelled => true
  | _ => false

def Call.holds (c : Call) (n : ℕ) (b : Body) : Prop :=
  c.slot = some (n,b) ∨ c.phase = .returned (.body n b)

def Reader.response : Reader → Option Body
  | .routing _ b | .firing _ b => some b
  | _ => none

structure Inv (s : Link) : Prop where
  next : s.nextRequestId = UInt32.ofNat (s.calls.length+1)
  ids : ∀ i c, s.calls[i]? = some c → c.requestId = UInt32.ofNat (i+1)
  parked : ∀ requestId i, s.pendingRpcs.lookup requestId = some i →
    ∃ c, s.calls[i]? = some c ∧ c.requestId = requestId ∧ c.phase.parks = true ∧ Unsent s i
  routing : ∀ requestId b, s.reader = .routing requestId b → responseId b = some requestId
  firing : ∀ i b, s.reader = .firing i b → ∃ c, s.calls[i]? = some c ∧
    responseId b = some c.requestId ∧ c.phase ≠ .allocated ∧ i ∉ s.sent.map Prod.snd
  current : ∀ b, s.reader.response = some b → s.arrived.getLast? = some ⟨0,b⟩
  holds : ∀ i c n b, s.calls[i]? = some c → c.holds n b →
    responseId b = some c.requestId ∧ (n,i) ∈ s.sent ∧ s.arrived[n]? = some ⟨0,b⟩
  sentCall : ∀ n i, (n,i) ∈ s.sent → ∃ c, s.calls[i]? = some c ∧ c.phase ≠ .allocated
  sentFrame : ∀ n i, (n,i) ∈ s.sent → n < s.arrived.length ∧
    (s.reader.response ≠ none → n+1 < s.arrived.length)
  frames : (s.sent.map Prod.fst).Nodup
  callers : (s.sent.map Prod.snd).Nodup

section Preservation
variable {s t : Link} {i : ℕ} {c d : Call}

/-- With fewer than `2^32` calls no id comes twice. -/
theorem Inv.same (h : Inv s) (hfew : s.calls.length < 2^32) {j : ℕ} (hi : s.calls[i]? = some c)
    (hj : s.calls[j]? = some d) (hid : c.requestId = d.requestId) : i = j := by
  rw [h.ids i c hi, h.ids j d hj] at hid
  have hi' := (List.getElem?_eq_some_iff.mp hi).1
  have hj' := (List.getElem?_eq_some_iff.mp hj).1
  have hnat := congrArg UInt32.toNat hid
  rw [UInt32.toNat_ofNat_of_lt' (show i+1 < UInt32.size by change _ < 2^32; omega),
    UInt32.toNat_ofNat_of_lt' (show j+1 < UInt32.size by change _ < 2^32; omega)] at hnat
  omega

theorem unsent_congr (hsent : t.sent = s.sent) (hreader : t.reader = s.reader) (h : Unsent s i) :
    Unsent t i := by
  unfold Unsent
  rw [hsent, hreader]
  exact h

theorem inv_move (h : Inv s) (hi : s.calls[i]? = some c) (hcalls : t.calls = s.calls.set i d)
    (hnext : t.nextRequestId = s.nextRequestId) (hreader : t.reader = s.reader)
    (harrived : t.arrived = s.arrived) (hsent : t.sent = s.sent)
    (hid : d.requestId = c.requestId) (hphase : d.phase ≠ .allocated)
    (hholds : ∀ n b, d.holds n b → c.holds n b)
    (hparked : ∀ requestId j, t.pendingRpcs.lookup requestId = some j →
      j = i ∧ requestId = c.requestId ∧ d.phase.parks = true ∧ Unsent s i ∨
        s.pendingRpcs.lookup requestId = some j ∧ (j = i → d.phase.parks = true)) : Inv t := by
  have hself : t.calls[i]? = some d := by
    rw [hcalls]
    exact List.getElem?_set_self (List.getElem?_eq_some_iff.mp hi).1
  have hother : ∀ j, j ≠ i → t.calls[j]? = s.calls[j]? := by
    intro j hj
    rw [hcalls]
    exact List.getElem?_set_ne (Ne.symm hj)
  -- A call of the old list is still there, under its id.
  have hkept : ∀ (j : ℕ) (e : Call), s.calls[j]? = some e → ∃ e' : Call, t.calls[j]? = some e' ∧
      e'.requestId = e.requestId ∧ (e.phase ≠ .allocated → e'.phase ≠ .allocated) ∧
      (j ≠ i → e' = e) := by
    intro j e hj
    by_cases heq : j = i
    · subst heq
      cases hi.symm.trans hj
      exact ⟨d,hself,hid,fun _ => hphase,fun hne => absurd rfl hne⟩
    · exact ⟨e,by rw [hother j heq, hj],rfl,id,fun _ => rfl⟩
  constructor
  · rw [hnext, hcalls, List.length_set]
    exact h.next
  · intro j e hj
    by_cases heq : j = i
    · subst heq
      cases hself.symm.trans hj
      rw [hid]
      exact h.ids j c hi
    · rw [hother j heq] at hj
      exact h.ids j e hj
  · intro requestId j hj
    rcases hparked requestId j hj with ⟨rfl,hrid,hparks,hunsent⟩ | ⟨hold,hparks⟩
    · exact ⟨d,hself,hid.trans hrid.symm,hparks,unsent_congr hsent hreader hunsent⟩
    · obtain ⟨e,he,hrid,hpark,hunsent⟩ := h.parked requestId j hold
      obtain ⟨e',he',hid',-,hsame⟩ := hkept j e he
      refine ⟨e',he',hid'.trans hrid,?_,unsent_congr hsent hreader hunsent⟩
      by_cases heq : j = i
      · subst heq
        cases hself.symm.trans he'
        exact hparks rfl
      · rwa [hsame heq]
  · rw [hreader]
    exact h.routing
  · intro j b hj
    rw [hreader] at hj
    obtain ⟨e,he,hb,hne,hnot⟩ := h.firing j b hj
    obtain ⟨e',he',hid',hph,-⟩ := hkept j e he
    rw [hsent]
    exact ⟨e',he',by rw [hid', hb],hph hne,hnot⟩
  · rw [hreader, harrived]
    exact h.current
  · intro j e n b hj hb
    rw [hsent, harrived]
    by_cases heq : j = i
    · subst heq
      cases hself.symm.trans hj
      rw [hid]
      exact h.holds j c n b hi (hholds n b hb)
    · rw [hother j heq] at hj
      exact h.holds j e n b hj hb
  · intro n j hj
    rw [hsent] at hj
    obtain ⟨e,he,hne⟩ := h.sentCall n j hj
    obtain ⟨e',he',-,hph,-⟩ := hkept j e he
    exact ⟨e',he',hph hne⟩
  · rw [hsent, hreader, harrived]
    exact h.sentFrame
  · rw [hsent]
    exact h.frames
  · rw [hsent]
    exact h.callers

theorem senderAlive_of_lookup {requestId : UInt32} (h : s.pendingRpcs.lookup requestId = some i) :
    senderAlive s i = true := by
  have hmem := AList.mem_lookup_iff.mp (Option.mem_def.mpr h)
  rw [senderAlive, Bool.or_eq_true]
  exact .inl (List.any_eq_true.mpr ⟨_,hmem,decide_eq_true rfl⟩)

theorem Inv.unsent_of_allocated (h : Inv s) (hi : s.calls[i]? = some c)
    (hphase : c.phase = .allocated) : Unsent s i := by
  constructor
  · intro hmem
    obtain ⟨⟨n,j⟩,hn,rfl⟩ := List.mem_map.mp hmem
    obtain ⟨e,he,hne⟩ := h.sentCall n j hn
    cases hi.symm.trans he
    exact hne hphase
  · intro b hfiring
    obtain ⟨e,he,-,hne,-⟩ := h.firing i b hfiring
    cases hi.symm.trans he
    exact hne hphase

theorem inv_rpc (h : Inv s) (hi : s.calls[i]? = some c) {m : Move}
    (hm : rpc s i c m = some t) : Inv t := by
  -- No other call has an entry under the id of this one.
  have howner : ∀ {requestId}, s.pendingRpcs.lookup requestId = some i →
      requestId = c.requestId ∧ c.phase.parks = true ∧ Unsent s i := by
    intro requestId hl
    obtain ⟨e,he,hrid,hparks,hunsent⟩ := h.parked requestId i hl
    cases hi.symm.trans he
    exact ⟨hrid.symm,hparks,hunsent⟩
  have hold : ∀ {p : Phase}, (∀ n b, p = .returned (.body n b) → c.holds n b) →
      ∀ n b, Call.holds { c with phase := p } n b → c.holds n b := by
    rintro p hp n b (hslot | hphase)
    · exact .inl hslot
    · exact hp n b hphase
  cases m with
  | insert =>
    simp only [rpc] at hm
    split_ifs at hm with hphase
    cases hm
    refine inv_move h hi rfl rfl rfl rfl rfl rfl nofun (hold nofun) ?_
    intro requestId j hj
    rcases lookup_of_insert hj with ⟨rfl,rfl⟩ | ⟨hne,hl⟩
    · exact .inl ⟨rfl,rfl,rfl,h.unsent_of_allocated hi hphase⟩
    · exact .inr ⟨hl,fun _ => rfl⟩
  | sendDone ok =>
    have hafter : ∀ p, p = (if ok then Phase.waiting else .refused) →
        p ≠ .allocated ∧ p.parks = true ∧ ∀ n b, p ≠ .returned (.body n b) := by
      rintro p rfl
      cases ok <;> exact ⟨nofun,rfl,nofun⟩
    obtain ⟨hne,hparks,hbody⟩ := hafter _ rfl
    rw [rpc] at hm
    by_cases hphase : c.phase = .sending
    · rw [if_pos hphase] at hm
      cases hm
      exact inv_move h hi rfl rfl rfl rfl rfl rfl hne (hold fun n b hp => absurd hp (hbody n b))
        fun requestId j hj => .inr ⟨hj,fun _ => hparks⟩
    · rw [if_neg hphase] at hm
      cases hm
  | receive =>
    simp only [rpc] at hm
    cases hslot : c.slot with
    | some p =>
      obtain ⟨n,b⟩ := p
      rw [hslot] at hm
      dsimp only at hm
      split_ifs at hm with hphase
      cases hm
      have hsent := (h.holds i c n b hi (.inl hslot)).2.1
      refine inv_move h hi rfl rfl rfl rfl rfl rfl nofun (hold ?_) ?_
      · rintro n' b' ⟨rfl,rfl⟩
        exact .inl hslot
      · intro requestId j hj
        refine .inr ⟨hj,?_⟩
        rintro rfl
        exact absurd (List.mem_map_of_mem hsent) (howner hj).2.2.1
    | none =>
      rw [hslot] at hm
      dsimp only at hm
      split_ifs at hm with hphase halive
      cases hm
      refine inv_move h hi rfl rfl rfl rfl rfl rfl nofun (hold nofun) ?_
      intro requestId j hj
      refine .inr ⟨hj,?_⟩
      rintro rfl
      exact absurd (senderAlive_of_lookup hj) halive
  | expire =>
    simp only [rpc] at hm
    split_ifs at hm with hphase
    cases hm
    exact inv_move h hi rfl rfl rfl rfl rfl rfl nofun (hold nofun) fun requestId j hj =>
      .inr ⟨hj,fun _ => rfl⟩
  | cleanUp =>
    obtain ⟨r,hr,hm⟩ := Option.map_eq_some_iff.mp hm
    subst hm
    have hbody : ∀ n b, r ≠ .body n b := by
      rintro n b rfl
      cases hphase : c.phase <;> rw [hphase] at hr <;> cases hr
    refine inv_move h hi rfl rfl rfl rfl rfl rfl nofun (hold ?_) ?_
    · rintro n b hret
      cases hret
      exact absurd rfl (hbody n b)
    · intro requestId j hj
      obtain ⟨hne,hl⟩ := lookup_of_erase hj
      refine .inr ⟨hl,?_⟩
      rintro rfl
      exact absurd (howner hl).1 hne
  | cancel =>
    simp only [rpc] at hm
    split_ifs at hm with hover
    cases hm
    exact inv_move h hi rfl rfl rfl rfl rfl rfl nofun (hold nofun) fun requestId j hj =>
      .inr ⟨hj,fun _ => rfl⟩

theorem inv_reader (h : Inv s) (hcalls : t.calls = s.calls)
    (hnext : t.nextRequestId = s.nextRequestId) (hsent : t.sent = s.sent)
    (harrived : s.arrived <+: t.arrived)
    (hbusy : t.reader.response ≠ none →
      s.reader.response ≠ none ∨ s.arrived.length < t.arrived.length)
    (hcurrent : ∀ b, t.reader.response = some b → t.arrived.getLast? = some ⟨0,b⟩)
    (hrouting : ∀ requestId b, t.reader = .routing requestId b → responseId b = some requestId)
    (hfiring : ∀ i b, t.reader = .firing i b → ∃ c, s.calls[i]? = some c ∧
      responseId b = some c.requestId ∧ c.phase ≠ .allocated ∧ i ∉ s.sent.map Prod.snd)
    (hparked : ∀ requestId j, t.pendingRpcs.lookup requestId = some j →
      s.pendingRpcs.lookup requestId = some j ∧ ∀ b, t.reader ≠ .firing j b) : Inv t := by
  constructor
  · rw [hnext, hcalls]
    exact h.next
  · rw [hcalls]
    exact h.ids
  · intro requestId j hj
    obtain ⟨hl,hne⟩ := hparked requestId j hj
    obtain ⟨c,hc,hrid,hparks,hnot,-⟩ := h.parked requestId j hl
    rw [hcalls]
    exact ⟨c,hc,hrid,hparks,by rwa [hsent],hne⟩
  · exact hrouting
  · rw [hcalls, hsent]
    exact hfiring
  · exact hcurrent
  · intro j e n b hj hb
    rw [hcalls] at hj
    obtain ⟨hid,hmem,hframe⟩ := h.holds j e n b hj hb
    obtain ⟨hlt,hget⟩ := List.getElem?_eq_some_iff.mp hframe
    rw [hsent]
    refine ⟨hid,hmem,?_⟩
    rw [← hget]
    exact List.prefix_iff_getElem?.mp harrived n hlt
  · rw [hcalls, hsent]
    exact h.sentCall
  · intro n j hj
    rw [hsent] at hj
    obtain ⟨hle,hlt⟩ := h.sentFrame n j hj
    have hlen := harrived.length_le
    refine ⟨by omega,fun hb => ?_⟩
    rcases hbusy hb with hold | hnew
    · exact lt_of_lt_of_le (hlt hold) hlen
    · omega
  · rw [hsent]
    exact h.frames
  · rw [hsent]
    exact h.callers

theorem inv_rest {r : Reader} (h : Inv s) (hr : r.response = none) :
    Inv { s with reader := r } := by
  have hnone : ∀ b, r.response ≠ some b := by
    intro b
    rw [hr]
    exact nofun
  have hfree : ∀ i b, r ≠ .firing i b := by
    rintro i b rfl
    exact hnone b rfl
  refine inv_reader h rfl rfl rfl (List.prefix_refl _) (fun hb => absurd hr hb)
    (fun b hb => absurd hb (hnone b)) ?_ (fun i b hb => absurd hb (hfree i b))
    fun _ j hj => ⟨hj,hfree j⟩
  rintro requestId b rfl
  exact absurd rfl (hnone b)

theorem inv_call (h : Inv s) (hm : step s .call = some t) : Inv t := by
  cases hm
  have hold : ∀ {j e}, (s.calls++[⟨s.nextRequestId,.allocated,none⟩])[j]? = some e →
      s.calls[j]? = some e ∨ j = s.calls.length ∧ e = ⟨s.nextRequestId,.allocated,none⟩ :=
    getElem?_concat_cases
  have hkept : ∀ {j : ℕ} {e : Call}, s.calls[j]? = some e →
      (s.calls++[⟨s.nextRequestId,.allocated,none⟩])[j]? = some e := by
    intro j e hj
    rw [List.getElem?_append_left (List.getElem?_eq_some_iff.mp hj).1, hj]
  constructor
  · rw [List.length_append, List.length_singleton]
    change s.nextRequestId+1 = _
    rw [h.next, UInt32.ofNat_add (s.calls.length+1) 1]
    rfl
  · intro j e hj
    rcases hold hj with hj | ⟨rfl,rfl⟩
    · exact h.ids j e hj
    · exact h.next
  · intro requestId j hj
    obtain ⟨e,he,hrest⟩ := h.parked requestId j hj
    exact ⟨e,hkept he,hrest⟩
  · exact h.routing
  · intro j b hj
    obtain ⟨e,he,hrest⟩ := h.firing j b hj
    exact ⟨e,hkept he,hrest⟩
  · exact h.current
  · intro j e n b hj hb
    rcases hold hj with hj | ⟨rfl,rfl⟩
    · exact h.holds j e n b hj hb
    · rcases hb with hb | hb <;> cases hb
  · intro n j hj
    obtain ⟨e,he,hne⟩ := h.sentCall n j hj
    exact ⟨e,hkept he,hne⟩
  · exact h.sentFrame
  · exact h.frames
  · exact h.callers

theorem inv_recv {f : Frame} (h : Inv s) (hidle : s.reader = .idle) : Inv (recv s f) := by
  have hnone : ∀ j b, s.reader ≠ .firing j b := by
    intro j b
    rw [hidle]
    exact nofun
  have hresponse : ∀ b, s.reader.response ≠ some b := by
    intro b
    rw [hidle]
    exact nofun
  have hpre : s.arrived <+: s.arrived++[f] := List.prefix_append _ _
  have hlt : s.arrived.length < (s.arrived++[f]).length := by
    rw [List.length_append, List.length_singleton]
    omega
  -- A frame that is no response for a call.
  have hother : Inv { s with arrived := s.arrived++[f] } :=
    inv_reader h rfl rfl rfl hpre (fun _ => .inr hlt) (fun b hb => absurd hb (hresponse b)) h.routing
      h.firing fun _ j hj => ⟨hj,hnone j⟩
  unfold recv
  dsimp only
  split_ifs with hstream
  · exact hother
  · cases hid : responseId f.body with
    | some requestId =>
      refine inv_reader h rfl rfl rfl hpre (fun _ => .inr hlt) ?_ ?_ nofun fun _ j hj => ⟨hj,nofun⟩
      · rintro b hb
        cases hb
        rw [List.getLast?_append, List.getLast?_singleton, Option.some_or]
        rw [← not_not.mp hstream]
      · rintro requestId' b heq
        cases heq
        exact hid
    | none =>
      dsimp only
      split
      · exact hother
      · exact hother
      · exact inv_reader h rfl rfl rfl hpre (fun _ => .inr hlt) nofun nofun nofun
          fun _ j hj => ⟨hj,nofun⟩

theorem inv_route {requestId : UInt32} {body : Body} (h : Inv s)
    (hreader : s.reader = .routing requestId body) : Inv (route s requestId body) := by
  have hbusy : s.reader.response ≠ none := by
    rw [hreader]
    exact nofun
  have hbody := h.routing requestId body hreader
  unfold route
  cases hl : s.pendingRpcs.lookup requestId with
  | some i =>
    obtain ⟨c,hc,hrid,hparks,hnot,-⟩ := h.parked requestId i hl
    refine inv_reader h rfl rfl rfl (List.prefix_refl _) (fun _ => .inl hbusy) ?_ nofun ?_ ?_
    · rintro b hb
      cases hb
      exact h.current body (by rw [hreader]; rfl)
    · intro j b heq
      cases heq
      refine ⟨c,hc,by rw [hbody, hrid],?_,hnot⟩
      intro hphase
      rw [hphase] at hparks
      cases hparks
    · intro requestId' j hj
      obtain ⟨hne,hold⟩ := lookup_of_erase hj
      refine ⟨hold,fun b heq => ?_⟩
      cases heq
      obtain ⟨e,he,hrid',-⟩ := h.parked requestId' i hold
      cases hc.symm.trans he
      exact hne (hrid'.symm.trans hrid)
  | none =>
    exact inv_rest h rfl

theorem inv_fire {body : Body} (h : Inv s) (hreader : s.reader = .firing i body)
    (hi : s.calls[i]? = some c) : Inv (fire s i c body) := by
  have hbusy : s.reader.response ≠ none := by
    rw [hreader]
    exact nofun
  obtain ⟨c',hc',hbody,hphase,hnot⟩ := h.firing i body hreader
  cases hi.symm.trans hc'
  have hframe := h.current body (by rw [hreader]; rfl)
  have hsome : 0 < s.arrived.length := by
    rw [List.length_pos_iff]
    intro hnil
    rw [hnil] at hframe
    cases hframe
  -- The map has no entry for the call whose sender the reader holds.
  have helse : ∀ requestId j, s.pendingRpcs.lookup requestId = some j → j ≠ i := by
    rintro requestId j hj rfl
    obtain ⟨e,-,-,-,-,hfree⟩ := h.parked requestId j hj
    exact hfree body hreader
  unfold fire
  split_ifs with hlisten
  · have hself := List.getElem?_set_self (a := { c with slot := some (s.arrived.length-1,body) })
      (List.getElem?_eq_some_iff.mp hi).1
    have hother : ∀ j, j ≠ i → ∀ d : Call, (s.calls.set i d)[j]? = s.calls[j]? :=
      fun j hj d => List.getElem?_set_ne (Ne.symm hj)
    have hlast : ∀ n j, (n,j) ∈ s.sent++[(s.arrived.length-1,i)] ↔
        (n,j) ∈ s.sent ∨ n = s.arrived.length-1 ∧ j = i := by
      intro n j
      rw [List.mem_append, List.mem_singleton, Prod.mk.injEq]
    constructor
    · rw [List.length_set]
      exact h.next
    · intro j e hj
      rcases getElem?_set_cases hj with ⟨rfl,rfl⟩ | ⟨-,hold⟩
      · exact h.ids j c hi
      · exact h.ids j e hold
    · intro requestId j hj
      have hne := helse requestId j hj
      obtain ⟨e,he,hrid,hparks,hfree,-⟩ := h.parked requestId j hj
      refine ⟨e,(hother j hne _).trans he,hrid,hparks,?_,nofun⟩
      rw [List.map_append, List.mem_append]
      rintro (hold | hnew)
      · exact hfree hold
      · exact hne (List.mem_singleton.mp hnew)
    · exact nofun
    · exact nofun
    · exact nofun
    · intro j e n b hj hb
      rw [hlast]
      rcases getElem?_set_cases hj with ⟨rfl,rfl⟩ | ⟨-,hold⟩
      · rcases hb with hslot | hret
        · cases hslot
          exact ⟨hbody,.inr ⟨rfl,rfl⟩,by rw [← List.getLast?_eq_getElem?, hframe]⟩
        · obtain ⟨hid,hmem,hold⟩ := h.holds j c n b hi (.inr hret)
          exact ⟨hid,.inl hmem,hold⟩
      · obtain ⟨hid,hmem,hold'⟩ := h.holds j e n b hold hb
        exact ⟨hid,.inl hmem,hold'⟩
    · intro n j hj
      by_cases heq : j = i
      · rw [heq]
        exact ⟨_,hself,hphase⟩
      · obtain ⟨e,he,hne⟩ := h.sentCall n j (((hlast n j).mp hj).resolve_right fun hnew => heq hnew.2)
        exact ⟨e,(hother j heq _).trans he,hne⟩
    · intro n j hj
      refine ⟨?_,nofun⟩
      rcases (hlast n j).mp hj with hold | ⟨rfl,-⟩
      · exact (h.sentFrame n j hold).1
      · change s.arrived.length-1 < s.arrived.length
        omega
    · rw [List.map_append]
      refine h.frames.append (List.nodup_singleton _) ?_
      intro n hn hnew
      obtain ⟨⟨m,j⟩,hm,rfl⟩ := List.mem_map.mp hn
      have hlt := (h.sentFrame m j hm).2 hbusy
      have hm' := List.mem_singleton.mp hnew
      omega
    · rw [List.map_append]
      refine h.callers.append (List.nodup_singleton _) ?_
      intro j hj hnew
      rw [List.mem_singleton.mp hnew] at hj
      exact hnot hj
  · exact inv_rest h rfl

theorem inv_step {a : Act} (h : Inv s) (hm : step s a = some t) : Inv t := by
  cases a with
  | call => exact inv_call h hm
  | caller i m =>
    obtain ⟨c,hc,hm⟩ := Option.bind_eq_some_iff.mp hm
    exact inv_rpc h hc hm
  | recv f =>
    simp only [step] at hm
    split_ifs at hm with hidle
    cases hm
    exact inv_recv h hidle
  | route =>
    simp only [step] at hm
    split at hm
    · cases hm
      exact inv_route h ‹_›
    · cases hm
  | fire =>
    simp only [step] at hm
    split at hm
    · obtain ⟨c,hc,rfl⟩ := Option.map_eq_some_iff.mp hm
      exact inv_fire h ‹_› hc
    · cases hm
  | readerEnds =>
    simp only [step] at hm
    split_ifs at hm
    cases hm
    exact inv_rest h rfl

theorem inv_start : Inv {} := by
  have hnone : ∀ (i : ℕ) (c : Call), ([] : List Call)[i]? ≠ some c := fun _ _ h => nomatch h
  constructor
  · rfl
  · exact fun i c hc => absurd hc (hnone i c)
  · intro requestId i hi
    rw [AList.lookup_empty] at hi
    cases hi
  · exact fun _ _ h => nomatch h
  · exact fun _ _ h => nomatch h
  · exact fun _ h => nomatch h
  · exact fun i c _ _ hc => absurd hc (hnone i c)
  · exact fun _ _ h => absurd h List.not_mem_nil
  · exact fun _ _ h => absurd h List.not_mem_nil
  · exact List.nodup_nil
  · exact List.nodup_nil

def Unheard (s : Link) : Prop :=
  ∃ b, s.reader.response = some b ∧
    ∀ c ∈ s.calls, responseId b = some c.requestId → c.phase.listening = false

def Unchanged (s t : Link) : Prop :=
  t.calls = s.calls ∧ t.nextRequestId = s.nextRequestId ∧ t.sent = s.sent ∧
    (t.pendingRpcs = s.pendingRpcs ∨ ∃ c ∈ s.calls, c.phase.parks = true ∧
      c.phase.listening = false ∧ t.pendingRpcs = s.pendingRpcs.erase c.requestId)

/-- The reader's handling of a response that nobody waits for. -/
def Ignores (s : Link) (a : Act) : Prop :=
  (a = .route ∨ a = .fire) → Unheard s → ∀ t, step s a = some t → Unchanged s t

theorem ignores_of_inv {a : Act} (h : Inv s) : Ignores s a := by
  rintro (rfl | rfl) ⟨b,hb,hdeaf⟩ t hm
  · simp only [step] at hm
    split at hm
    next requestId body hreader =>
      cases hm
      rw [hreader] at hb
      cases hb
      unfold route
      cases hl : s.pendingRpcs.lookup requestId with
      | some i =>
        obtain ⟨c,hc,hrid,hparks,-⟩ := h.parked requestId i hl
        have hmem := List.mem_of_getElem? hc
        have hquiet := hdeaf c hmem (by rw [hrid, h.routing requestId b hreader])
        exact ⟨rfl,rfl,rfl,.inr ⟨c,hmem,hparks,hquiet,by rw [hrid]⟩⟩
      | none => exact ⟨rfl,rfl,rfl,.inl rfl⟩
    next => cases hm
  · simp only [step] at hm
    split at hm
    next i body hreader =>
      rw [hreader] at hb
      cases hb
      obtain ⟨c,hc,rfl⟩ := Option.map_eq_some_iff.mp hm
      obtain ⟨c',hc',hbody,-,-⟩ := h.firing i b hreader
      cases hc.symm.trans hc'
      have hquiet := hdeaf c (List.mem_of_getElem? hc) hbody
      unfold fire
      rw [hquiet]
      exact ⟨rfl,rfl,rfl,.inl rfl⟩
    next => cases hm

end Preservation

/-- Every response goes to the call that asked for it, to no second one, and only once, and a call
that has returned has left no entry. -/
theorem responses_reach_their_caller {as : List Act} {s : Link} (hrun : run step {} as = some s)
    (hfew : s.calls.length < 2^32) :
    (∀ (i : ℕ) (c : Call) (n : ℕ) (b : Body), s.calls[i]? = some c →
      c.phase = .returned (.body n b) →
        responseId b = some c.requestId ∧ s.arrived[n]? = some ⟨0,b⟩ ∧ (n,i) ∈ s.sent) ∧
    (∀ (i j : ℕ) (c d : Call), s.calls[i]? = some c → s.calls[j]? = some d →
      c.requestId = d.requestId → i = j) ∧
    ((s.sent.map Prod.fst).Nodup ∧ (s.sent.map Prod.snd).Nodup) ∧
    (∀ (i : ℕ) (c : Call) (r : RpcResult), s.calls[i]? = some c → c.phase = .returned r →
      s.pendingRpcs.lookup c.requestId = none) ∧
    Along step Ignores {} as := by
  have h : Inv s := run_invariant step (fun s a t hs hm => inv_step hs hm) inv_start hrun
  refine ⟨?_,?_,⟨h.frames,h.callers⟩,?_,?_⟩
  · intro i c n b hc hphase
    obtain ⟨hid,hmem,hframe⟩ := h.holds i c n b hc (.inr hphase)
    exact ⟨hid,hframe,hmem⟩
  · intro i j c d hc hd hid
    exact h.same hfew hc hd hid
  · intro i c r hc hphase
    by_contra hsome
    obtain ⟨j,hj⟩ := Option.ne_none_iff_exists'.mp hsome
    obtain ⟨d,hd,hid,hparks,-⟩ := h.parked c.requestId j hj
    obtain rfl := h.same hfew hc hd hid.symm
    cases hc.symm.trans hd
    rw [hphase] at hparks
    cases hparks
  · exact along_imp step (fun s a t hs _ hm => inv_step hs hm) (fun s a hs _ => ignores_of_inv hs)
      inv_start (along_of_forall step fun _ _ => trivial)

/-- Two calls; the second is answered twice, and the answer to the first crosses its deadline. -/
def crossed : List Act :=
  [.call,.call,.caller 0 .insert,.caller 1 .insert,.caller 0 (.sendDone true),
    .caller 1 (.sendDone true),.recv ⟨0,.killSessionAck 2 0⟩,.route,.fire,.caller 1 .receive,
    .caller 0 .expire,.recv ⟨0,.sessionList 1 []⟩,.route,.fire,.caller 0 .cleanUp,
    .recv ⟨0,.killSessionAck 2 0⟩,.route]

theorem crossed_responses : ∃ s, run step {} crossed = some s ∧
    s.calls.map Call.phase = [.returned .noResponse,.returned (.body 0 (.killSessionAck 2 0))] ∧
    s.pendingRpcs.lookup 1 = none ∧ s.pendingRpcs.lookup 2 = none ∧
    Along step Ignores {} crossed := by
  obtain ⟨s,hs⟩ : ∃ s, run step {} crossed = some s := ⟨_,rfl⟩
  have hcalls : s.calls = [⟨1,.returned .noResponse,none⟩,
      ⟨2,.returned (.body 0 (.killSessionAck 2 0)),some (0,.killSessionAck 2 0)⟩] := by
    cases hs
    rfl
  obtain ⟨-,-,-,hgone,hignores⟩ := responses_reach_their_caller hs (by rw [hcalls]; decide)
  refine ⟨s,hs,by rw [hcalls]; rfl,?_,?_,hignores⟩
  · exact hgone 0 _ _ (by rw [hcalls]; rfl) rfl
  · exact hgone 1 _ _ (by rw [hcalls]; rfl) rfl

end Term.RpcCalls
