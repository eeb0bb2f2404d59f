import TermMux.SessionInput

/-!
# PTY input and the control lease

A stream's input reaches the queue while it is the controller, provided no other
stream takes the lease between its check and its insertion. The source checks
under the lock and inserts after it, so the provision is not enforced: a paste
that waits for a full queue is still typed after another stream took control.
-/

set_option autoImplicit false

namespace Term.InputLease
open Term.ByteOrder Term.FrameModel Term.Machine Term.PasteNames Term.PasteUpload
  Term.SessionState Term.SessionInput Term.Utf8Text

def Checked (st : Stream) : Prop :=
  match st.inbound with
  | .typing _ | .injecting _ => True
  | _ => False

instance (st : Stream) : Decidable (Checked st) :=
  match h : st.inbound with
  | .typing _ | .injecting _ => isTrue (by simp [Checked, h])
  | .idle | .finished _ => isFalse (by simp [Checked, h])

/-- Only `take_control` takes the lease from another stream. -/
theorem locked_keeps_other {inner : SessionInner} {sid c : StreamId} {op : Op}
    (hop : op ≠ .takeControl) (hc : inner.controller = some c) (hne : c ≠ sid) :
    (op.locked inner sid).inner.controller = some c := by
  have hother : inner.controller ≠ some sid := by
    rw [hc]
    intro heq
    exact hne (Option.some.inj heq)
  rcases locked_cases inner sid op with heq | ⟨size,-,heq⟩ | ⟨size,hself,-⟩ |
    ⟨size,htake | hfree,-,-⟩ | ⟨hself,-⟩
  · rw [heq]
    exact hc
  · rw [heq]
    exact hc
  · exact absurd hself hother
  · exact absurd htake hop
  · rw [hc] at hfree
    cases hfree
  · exact absurd hself hother

theorem attach_keeps_other {inner : SessionInner} {sid c : StreamId} {size : Size} {now : ℕ}
    (hc : inner.controller = some c) : (inner.attach sid size now).inner.controller = some c := by
  rcases attach_cases inner sid size now with ⟨hfree,-⟩ | ⟨-,heq⟩
  · rw [hc] at hfree
    cases hfree
  · rw [heq]
    exact hc

theorem detach_keeps_other {inner : SessionInner} {sid c : StreamId} {now : ℕ}
    (hc : inner.controller = some c) (hne : c ≠ sid) :
    (inner.detach sid now).inner.controller = some c := by
  rcases detach_cases inner sid now with ⟨hself,-⟩ | ⟨-,heq⟩
  · exact absurd (Option.some.inj (hc.symm.trans hself)) hne
  · rw [heq]
    exact hc

structure LeaseFacts (s : Session) (st : Stream) (act : StreamAct) (r : Reaction) : Prop where
  sid : r.stream.sid = st.sid
  active : r.stream.phase ≠ .detached → st.phase ≠ .detached
  present : st.phase ≠ .detached ∨ r.inner = s.inner
  block : ∀ bytes origin, r.block = some (bytes,origin) → Checked st ∧
    (origin = .typed st.sid ∨ origin = .pasted st.sid)
  busy : r.stream.inbound ≠ .idle → r.stream.phase = .attached
  checked : Checked r.stream → r.inner.controller = some st.sid
  others : act ≠ .op .takeControl → ∀ c, c ≠ st.sid → s.inner.controller = some c →
    r.inner.controller = some c

theorem not_checked_idle {st : Stream} (h : st.inbound = .idle) : ¬Checked st := by
  simp [Checked, h]

theorem leaseFacts_idle {s : Session} {st u : Stream} {act : StreamAct}
    {block : Option (Bytes × Origin)} (hsid : u.sid = st.sid)
    (hactive : u.phase ≠ .detached → st.phase ≠ .detached) (hidle : u.inbound = .idle)
    (hblock : ∀ bytes origin, block = some (bytes,origin) → Checked st ∧
      (origin = .typed st.sid ∨ origin = .pasted st.sid)) :
    LeaseFacts s st act ⟨u,s.inner,block⟩ :=
  ⟨hsid,hactive,.inr rfl,hblock,fun h => absurd hidle h,
    fun h => absurd h (not_checked_idle hidle),fun _ _ _ hc => hc⟩

theorem leaseFacts_blocked {s : Session} {st : Stream} {act : StreamAct}
    {block : Option (Bytes × Origin)} {bytes : Bytes} {origin : Origin} (hch : Checked st)
    (horigin : origin = .typed st.sid ∨ origin = .pasted st.sid)
    (hblock : block = none ∨ s.Accepts ∧ block = some (bytes,origin)) :
    LeaseFacts s st act ⟨{ st with inbound := .idle },s.inner,block⟩ := by
  refine leaseFacts_idle rfl id rfl ?_
  intro b o heq
  rcases hblock with rfl | ⟨-,rfl⟩
  · cases heq
  · cases heq
    exact ⟨hch,horigin⟩

theorem leaseFacts_attached {s : Session} {st u : Stream} {act : StreamAct}
    (hsid : u.sid = st.sid) (hphase : u.phase = st.phase) (hattached : st.phase = .attached)
    (hchecked : Checked u → s.inner.controller = some st.sid) :
    LeaseFacts s st act ⟨u,s.inner,none⟩ :=
  ⟨hsid,fun h heq => h (hphase.trans heq),.inr rfl,nofun,fun _ => hphase.trans hattached,hchecked,
    fun _ _ _ hc => hc⟩

theorem handled_not_checked (st : Stream) (pasteId : UInt32) (h : Handled) :
    ¬Checked (st.handled pasteId h) := by
  cases hi : h.inject with
  | none => simp [Checked, Stream.handled, hi]
  | some paths => simp [Checked, Stream.handled, hi]

theorem paste_leaseFacts {cfg : Config} {s : Session} {st : Stream} {act act' : StreamAct}
    {r : Reaction}
    (h : (if st.Ready then (handlePaste cfg s.inner st act').map fun u => ⟨u,s.inner,none⟩
      else none) = some r) : LeaseFacts s st act r := by
  obtain ⟨hr,u,hu,rfl⟩ := paste_cases h
  obtain ⟨pasteId,handled,rfl,-⟩ := handlePaste_cases hu
  refine leaseFacts_attached rfl rfl hr.1 ?_
  intro hc
  exact absurd hc (handled_not_checked st pasteId handled)

theorem op_leaseFacts {cfg : Config} {s : Session} {st : Stream} {op : Op} {r : Reaction}
    (h : streamStep cfg s st (.op op) = some r) : LeaseFacts s st (.op op) r := by
  simp only [streamStep, Option.ite_none_right_eq_some, Option.some.injEq] at h
  obtain ⟨hr,rfl⟩ := h
  have hphase : st.phase ≠ .detached := by
    rw [hr.1]
    decide
  refine ⟨rfl,id,.inl hphase,nofun,fun _ => hr.1,fun hc => absurd hc (not_checked_idle hr.2),?_⟩
  intro hact c hne hc
  exact locked_keeps_other (fun heq => hact (by rw [heq])) hc hne

theorem checkInput_leaseFacts {s : Session} {st : Stream} {act : StreamAct} {bytes : Bytes}
    {r : Reaction} (h : checkInput s st bytes = some r) : LeaseFacts s st act r := by
  obtain ⟨hr,⟨hc,rfl⟩ | rfl⟩ := checkInput_cases h
  · exact leaseFacts_attached rfl rfl hr.1 fun _ => hc
  · exact leaseFacts_attached rfl rfl hr.1 fun hch => absurd hch (not_checked_idle hr.2)

theorem trySend_leaseFacts {s : Session} {st : Stream} {act : StreamAct} {r : Reaction}
    (h : trySend s st = some r) : LeaseFacts s st act r := by
  obtain ⟨bytes,block,hin,hblock,rfl⟩ := trySend_cases h
  exact leaseFacts_blocked (by simp [Checked, hin]) (.inl rfl) hblock

theorem checkInject_leaseFacts {cfg : Config} {s : Session} {st : Stream} {act : StreamAct}
    {r : Reaction} (hbusy : st.inbound ≠ .idle → st.phase = .attached)
    (h : checkInject cfg s st = some r) : LeaseFacts s st act r := by
  obtain ⟨paths,hin,⟨hc,rfl⟩ | rfl⟩ := checkInject_cases h
  · have hattached : st.phase = .attached := by
      apply hbusy
      rw [hin]
      exact Inbound.noConfusion
    exact leaseFacts_attached rfl rfl hattached fun _ => hc
  · exact leaseFacts_idle rfl id rfl nofun

theorem inject_leaseFacts {s : Session} {st : Stream} {act : StreamAct} {r : Reaction}
    (h : inject s st = some r) : LeaseFacts s st act r := by
  obtain ⟨seq,block,hin,hblock,rfl⟩ := inject_cases h
  exact leaseFacts_blocked (by simp [Checked, hin]) (.inr rfl) hblock

theorem stop_leaseFacts {s : Session} {st : Stream} {act : StreamAct} {r : Reaction}
    (h : stop s st = some r) : LeaseFacts s st act r := by
  obtain ⟨hp,rfl⟩ := stop_cases h
  refine leaseFacts_idle rfl (fun _ => ?_) rfl nofun
  rw [hp]
  decide

theorem detach_leaseFacts {s : Session} {st : Stream} {act : StreamAct} {now : ℕ} {r : Reaction}
    (hbusy : st.inbound ≠ .idle → st.phase = .attached) (h : detach s st now = some r) :
    LeaseFacts s st act r := by
  simp only [detach, Option.ite_none_right_eq_some, Option.some.injEq] at h
  obtain ⟨hp,rfl⟩ := h
  have hphase : st.phase ≠ .detached := by
    rw [hp]
    decide
  have hidle : st.inbound = .idle := by
    by_contra hne
    rw [hbusy hne] at hp
    cases hp
  refine ⟨rfl,fun _ => hphase,.inl hphase,nofun,fun hne => absurd hidle hne,
    fun hc => absurd hc (not_checked_idle hidle),?_⟩
  intro _ c hne hc
  exact detach_keeps_other hc hne

theorem streamStep_leaseFacts {cfg : Config} {s : Session} {st : Stream} {act : StreamAct}
    {r : Reaction} (hbusy : st.inbound ≠ .idle → st.phase = .attached)
    (h : streamStep cfg s st act = some r) : LeaseFacts s st act r := by
  cases act with
  | op op => exact op_leaseFacts h
  | data bytes => exact checkInput_leaseFacts h
  | trySend => exact trySend_leaseFacts h
  | pasteBegin env pasteId totalSize groupId groupSize name => exact paste_leaseFacts h
  | pasteChunk writeOk pasteId bytes => exact paste_leaseFacts h
  | pasteEnd pasteId status => exact paste_leaseFacts h
  | checkInject => exact checkInject_leaseFacts hbusy h
  | inject => exact inject_leaseFacts h
  | stop => exact stop_leaseFacts h
  | detach now => exact detach_leaseFacts hbusy h

/-- The block was put on the queue while the stream it came from was the controller. -/
def Gated (b : Block) : Prop :=
  ∀ sid, b.origin = .typed sid ∨ b.origin = .pasted sid → b.controller = some sid

structure Invariant (s : Session) : Prop where
  distinct : ∀ (i j : ℕ) (a b : Stream), s.streams[i]? = some a → s.streams[j]? = some b →
    a.phase ≠ .detached → b.phase ≠ .detached → a.sid = b.sid → i = j
  busy : ∀ st ∈ s.streams, st.inbound ≠ .idle → st.phase = .attached
  checked : ∀ st ∈ s.streams, Checked st → s.inner.controller = some st.sid
  blocks : ∀ b ∈ s.blocks, Gated b

/-- No stream takes control while a checked block is not on the queue yet, and a stream
attaches under an id no attached stream has. -/
def Undisturbed (s : Session) : Action → Prop
  | .attach sid _ _ => ∀ st ∈ s.streams, st.phase ≠ .detached → st.sid ≠ sid
  | .stream _ (.op .takeControl) => ∀ st ∈ s.streams, ¬Checked st
  | _ => True

instance (s : Session) (a : Action) : Decidable (Undisturbed s a) :=
  match a with
  | .attach sid _ _ => inferInstanceAs (Decidable (∀ st ∈ s.streams, st.phase ≠ .detached → st.sid ≠ sid))
  | .stream _ (.op .takeControl) => inferInstanceAs (Decidable (∀ st ∈ s.streams, ¬Checked st))
  | .stream _ (.op (.resize _ _)) | .stream _ (.op .acquireControl)
  | .stream _ (.op .releaseControl) | .stream _ (.data _) | .stream _ .trySend
  | .stream _ (.pasteBegin ..) | .stream _ (.pasteChunk ..) | .stream _ (.pasteEnd ..)
  | .stream _ .checkInject | .stream _ .inject | .stream _ .stop | .stream _ (.detach _)
  | .read _ | .download .. | .reportFailure _ | .drain | .writerExit => isTrue trivial

theorem Checked.busy {st : Stream} (h : Checked st) : st.inbound ≠ .idle :=
  fun hidle => not_checked_idle hidle h

/-- A stream that has passed its check keeps the lease while another stream steps. -/
theorem Invariant.others_keep {s : Session} (h : Invariant s) {i j : ℕ} {st v : Stream}
    {act : StreamAct} {r : Reaction} (hst : s.streams[i]? = some st)
    (hok : Undisturbed s (.stream i act)) (hr : LeaseFacts s st act r)
    (hv : s.streams[j]? = some v) (hne : j ≠ i) (hch : Checked v) :
    r.inner.controller = some v.sid := by
  have hvmem : v ∈ s.streams := List.mem_of_getElem? hv
  have hctrl := h.checked v hvmem hch
  rcases hr.present with hphase | hsame
  · by_cases htake : act = .op .takeControl
    · subst htake
      exact absurd hch (hok v hvmem)
    · apply hr.others htake v.sid _ hctrl
      intro hsid
      have hvphase : v.phase ≠ .detached := by
        rw [h.busy v hvmem hch.busy]
        decide
      exact hne (h.distinct j i v st hv hst hvphase hphase hsid)
  · rw [hsame]
    exact hctrl

theorem Invariant.react_distinct {s : Session} (h : Invariant s) {i : ℕ} {st : Stream}
    {act : StreamAct} {r : Reaction} (hst : s.streams[i]? = some st) (hr : LeaseFacts s st act r)
    (j k : ℕ) (a b : Stream) (ha : (s.streams.set i r.stream)[j]? = some a)
    (hb : (s.streams.set i r.stream)[k]? = some b) (hpa : a.phase ≠ .detached)
    (hpb : b.phase ≠ .detached) (hsid : a.sid = b.sid) : j = k := by
  rcases getElem?_set_cases ha with ⟨hj,rfl⟩ | ⟨hj,hold⟩
  · rcases getElem?_set_cases hb with ⟨hk,rfl⟩ | ⟨hk,hother⟩
    · exact hj.trans hk.symm
    · rw [hj]
      exact h.distinct i k st b hst hother (hr.active hpa) hpb (hr.sid.symm.trans hsid)
  · rcases getElem?_set_cases hb with ⟨hk,rfl⟩ | ⟨hk,hother⟩
    · rw [hk]
      exact h.distinct j i a st hold hst hpa (hr.active hpb) (hsid.trans hr.sid)
    · exact h.distinct j k a b hold hother hpa hpb hsid

/-- The block a stream puts on the queue was checked, so the stream has the lease. -/
theorem Invariant.react_gated {s : Session} (h : Invariant s) {st : Stream} {act : StreamAct}
    {r : Reaction} (hmem : st ∈ s.streams) (hr : LeaseFacts s st act r) :
    ∀ bytes origin, r.block = some (bytes,origin) → Gated ⟨bytes,origin,s.inner.controller⟩ := by
  intro bytes origin hb sid hsid
  obtain ⟨hch,horigin⟩ := hr.block bytes origin hb
  have hctrl := h.checked st hmem hch
  rcases horigin with rfl | rfl
  · rcases hsid with heq | heq
    · cases heq
      exact hctrl
    · cases heq
  · rcases hsid with heq | heq
    · cases heq
    · cases heq
      exact hctrl

theorem react_invariant {s : Session} (h : Invariant s) {i : ℕ} {st : Stream} {act : StreamAct}
    {r : Reaction} (hst : s.streams[i]? = some st) (hok : Undisturbed s (.stream i act))
    (hr : LeaseFacts s st act r) :
    Invariant { s.put r.block with inner := r.inner, streams := s.streams.set i r.stream } := by
  refine ⟨h.react_distinct hst hr,forall_mem_set h.busy hr.busy,?_,?_⟩
  · intro v hv hch
    obtain ⟨j,hj⟩ := List.mem_iff_getElem?.mp hv
    rcases getElem?_set_cases hj with ⟨-,rfl⟩ | ⟨hne,hold⟩
    · rw [hr.sid]
      exact hr.checked hch
    · exact h.others_keep hst hok hr hold hne hch
  · exact forall_put h.blocks (h.react_gated (List.mem_of_getElem? hst) hr)

theorem attach_invariant {s : Session} (h : Invariant s) {sid : StreamId} {size : Size} {now : ℕ}
    (hok : Undisturbed s (.attach sid size now)) :
    Invariant { s with
      inner := (s.inner.attach sid size now).inner
      streams := s.streams++[⟨sid,.attached,.idle,.empty,[]⟩] } := by
  refine ⟨?_,?_,?_,h.blocks⟩
  · intro i j a b ha hb hpa hpb hsid
    rcases getElem?_concat_cases ha with hold | ⟨hi,rfl⟩
    · rcases getElem?_concat_cases hb with hother | ⟨hj,rfl⟩
      · exact h.distinct i j a b hold hother hpa hpb hsid
      · exact absurd hsid (hok a (List.mem_of_getElem? hold) hpa)
    · rcases getElem?_concat_cases hb with hother | ⟨hj,rfl⟩
      · exact absurd hsid.symm (hok b (List.mem_of_getElem? hother) hpb)
      · exact hi.trans hj.symm
  · exact forall_mem_concat h.busy fun _ => rfl
  · apply forall_mem_concat
    · intro v hv hch
      exact attach_keeps_other (h.checked v hv hch)
    · intro hch
      exact absurd hch (not_checked_idle rfl)

theorem step_invariant (cfg : Config) (s : Session) (a : Action) (s' : Session) (h : Invariant s)
    (hok : Undisturbed s a) (hstep : step cfg s a = some s') : Invariant s' := by
  cases a with
  | attach sid size now =>
    cases hstep
    exact attach_invariant h hok
  | stream i act =>
    obtain ⟨st,r,hst,hr,rfl⟩ := step_stream hstep
    have hbusy := h.busy st (List.mem_of_getElem? hst)
    exact react_invariant h hst hok (streamStep_leaseFacts hbusy hr)
  | read chunk =>
    cases hstep
    refine ⟨h.distinct,h.busy,?_,h.blocks⟩
    intro st hmem hch
    have hold := h.checked st hmem hch
    dsimp only
    split_ifs
    · exact hold
    · exact hold
  | download k env =>
    obtain ⟨path,-,rfl⟩ := step_download hstep
    exact ⟨h.distinct,h.busy,h.checked,h.blocks⟩
  | reportFailure k =>
    obtain ⟨path,line,-,rfl | ⟨-,rfl⟩⟩ := step_reportFailure hstep
    · exact ⟨h.distinct,h.busy,h.checked,h.blocks⟩
    · refine ⟨h.distinct,h.busy,h.checked,forall_put h.blocks ?_⟩
      intro bytes origin heq sid hsid
      cases heq
      rcases hsid with heq | heq <;> cases heq
  | drain =>
    rw [step_drain hstep]
    exact ⟨h.distinct,h.busy,h.checked,h.blocks⟩
  | writerExit =>
    cases hstep
    exact ⟨h.distinct,h.busy,h.checked,h.blocks⟩

theorem spawn_invariant (initialSize : Size) (cap now : ℕ) :
    Invariant (Session.spawn initialSize cap now) := by
  refine ⟨?_,?_,?_,?_⟩
  · intro i j a b ha
    cases ha
  · intro st hst
    cases hst
  · intro st hst
    cases hst
  · intro b hb
    cases hb

/-- In every run in which no stream takes control between another's check and its
insertion, and no two attached streams share an id, every block of a stream's
input goes on the queue while that stream is the controller. -/
theorem input_gated_by_lease (cfg : Config) (initialSize : Size) (cap now : ℕ) (as : List Action)
    (s : Session) (hrun : run (step cfg) (Session.spawn initialSize cap now) as = some s)
    (hok : Along (step cfg) Undisturbed (Session.spawn initialSize cap now) as) :
    ∀ b ∈ s.blocks, ∀ sid, b.origin = .typed sid ∨ b.origin = .pasted sid →
      b.controller = some sid :=
  (run_along (step cfg) (step_invariant cfg) (spawn_invariant initialSize cap now) hok hrun).blocks

def shellConfig : Config := ⟨"token",.bracketed,asBytes "/run/user/1000/term-agent/paste",.default⟩

def freshDir : PasteEnv := ⟨true,0,0,fun _ => .created⟩

def blockedPaste : List Action :=
  [.attach 1 (24,80) 0,.attach 2 (24,80) 1]++
    (List.replicate 32 [Action.stream 0 (.data [0x61]),Action.stream 0 .trySend]).flatten++
    [.stream 0 (.pasteBegin freshDir 7 0 1 1 "a.png"),.stream 0 (.pasteEnd 7 0),
      .stream 0 .checkInject]

def unblocked : List Action := [.drain,.stream 0 .inject]

theorem input_gated_by_lease_blockedPaste :
    ∃ s, run (step shellConfig) (Session.spawn (24,80) defaultScrollbackCapBytes 0)
        (blockedPaste++unblocked) = some s ∧
      s.blocks.length = 33 ∧ ∀ b ∈ s.blocks, ∀ sid,
        b.origin = .typed sid ∨ b.origin = .pasted sid → b.controller = some sid := by
  have heval : (run (step shellConfig) (Session.spawn (24,80) defaultScrollbackCapBytes 0)
      (blockedPaste++unblocked)).any (fun s => s.blocks.length = 33) = true := by
    decide +kernel
  obtain ⟨s,hs,hlen⟩ := (Option.any_eq_true _ _).mp heval
  exact ⟨s,hs,of_decide_eq_true hlen,
    input_gated_by_lease shellConfig _ _ _ _ s hs (by decide +kernel)⟩

/-- The other tab takes control while the paste waits: the paste of stream 1 is typed
into the shell that stream 2 controls. -/
theorem paste_after_takeover :
    ∃ s, run (step shellConfig) (Session.spawn (24,80) defaultScrollbackCapBytes 0)
        (blockedPaste++[.stream 1 (.op .takeControl)]++unblocked) = some s ∧
      s.inner.controller = some 2 ∧
      ∃ b ∈ s.blocks, b.origin = .pasted 1 ∧ b.controller = some 2 := by
  have heval : (run (step shellConfig) (Session.spawn (24,80) defaultScrollbackCapBytes 0)
      (blockedPaste++[.stream 1 (.op .takeControl)]++unblocked)).any (fun s =>
        s.inner.controller = some 2 ∧
        ∃ b ∈ s.blocks, b.origin = .pasted 1 ∧ b.controller = some 2) = true := by
    decide +kernel
  obtain ⟨s,hs,hfacts⟩ := (Option.any_eq_true _ _).mp heval
  exact ⟨s,hs,of_decide_eq_true hfacts⟩

end Term.InputLease
