import TermMux.HubStreams

/-!
# How browser streams end

After teardown has cleared `link.streams`, no entry is left unless an upgrade that
found the link earlier opens its stream afterwards. After the agent's `Close` a
stream is over at the hub only if its proxy had already returned: the reader hands
`Close` to the browser's queue like any other body.
-/

set_option autoImplicit false

namespace Term.StreamEnds
open Term.FrameModel Term.FrameWire Term.HubStreams Term.KeyedMap Term.Machine Term.StreamDemux
open Term.HubLink (WsMessage allocStreamId)

section Teardown
variable {s t : Hub} {a : Act}

/-- A stream is opened before the entries are cleared. -/
def OpensBeforeClear (s : Hub) : Act → Prop
  | .openStream => s.cleared = false
  | _ => True

def NoneLeft (s : Hub) : Prop :=
  s.cleared = true → s.upgrades = 0 →
    (∀ sid, s.streams.lookup sid = none) ∧
      ∀ k p, s.proxies[k]? = some p → sourceRecv s k p ≠ .pending

theorem demux_none {sid : UInt32} (id : UInt32) (body : Body) (h : s.streams.lookup sid = none) :
    (demux s id body).streams.lookup sid = none := by
  unfold demux
  split
  · exact h
  · split
    · exact h
    · exact lookup_erase_none id h

theorem handleFrame_none {sid : UInt32} (f : Frame) (h : s.streams.lookup sid = none) :
    (handleFrame s f).streams.lookup sid = none := by
  unfold handleFrame
  split
  · split <;> exact h
  · split <;> exact demux_none f.streamId f.body h

theorem handleFrame_cleared (f : Frame) : (handleFrame s f).cleared = s.cleared := by
  have hdemux : ∀ id body, (demux s id body).cleared = s.cleared := by
    intro id body
    unfold demux
    split
    · rfl
    · split <;> rfl
  unfold handleFrame
  split
  · split <;> rfl
  · split <;> exact hdemux _ _

theorem step_none (h : step s a = some t) (ha : a ≠ .openStream) {sid : UInt32}
    (hnone : s.streams.lookup sid = none) : t.streams.lookup sid = none := by
  cases effect_of_step h with
  | opened => exact absurd rfl ha
  | frame f hsid => exact handleFrame_none f hnone
  | cleaned k p hp hreturned => exact lookup_erase_none p.sid hnone
  | cleared => exact AList.lookup_empty sid
  | idle a r l u
  | moved a k p q hp hr hs hq hl
  | took k p hp hr
  | forwarded k p body hp hr
  | returned k p hp hc => exact hnone

def Emptied (s : Hub) : Prop := s.cleared = true → ∀ sid, s.streams.lookup sid = none

theorem emptied_step (h : Emptied s) (hok : OpensBeforeClear s a) (hstep : step s a = some t) :
    Emptied t := by
  intro hcleared sid
  have hnone := fun ha hold => step_none hstep ha (h hold sid)
  cases effect_of_step hstep with
  | opened => exact absurd (hcleared.symm.trans hok) (by decide)
  | frame f hsid => exact hnone nofun ((handleFrame_cleared f).symm.trans hcleared)
  | cleared => exact AList.lookup_empty sid
  | cleaned k p hp hreturned => exact lookup_erase_none p.sid (h hcleared sid)
  | idle a r l u
  | moved a k p q hp hr hs hq hl
  | took k p hp hr
  | forwarded k p body hp hr
  | returned k p hp hc => exact h hcleared sid

/-- In every run in which the streams of a link are opened before teardown clears them, no
stream outlives its link. -/
theorem no_stream_outlives_link (as : List Act) (s : Hub)
    (hok : Along step OpensBeforeClear Hub.start as) (hrun : run step Hub.start as = some s) :
    NoneLeft s := by
  have hstart : Emptied Hub.start := fun h => absurd h (by decide)
  have hemptied : Emptied s :=
    run_along step (fun _ _ _ h hok hstep => emptied_step h hok hstep) hstart hok hrun
  intro hcleared _
  refine ⟨hemptied hcleared,fun k p hp => ?_⟩
  unfold sourceRecv
  cases p.queue with
  | cons b rest => exact nofun
  | nil =>
    simp only [hemptied hcleared p.sid, reduceCtorEq, if_false]
    exact nofun

instance (s : Hub) (a : Act) : Decidable (OpensBeforeClear s a) :=
  match a with
  | .openStream => inferInstanceAs (Decidable (_ = _))
  | .lookup => isTrue trivial
  | .abandon => isTrue trivial
  | .agentFrame _ => isTrue trivial
  | .sourceRecv _ => isTrue trivial
  | .browser _ _ => isTrue trivial
  | .forward _ _ => isTrue trivial
  | .finish _ => isTrue trivial
  | .proxyReturn _ => isTrue trivial
  | .guardDrop _ => isTrue trivial
  | .readEnds => isTrue trivial
  | .unlist => isTrue trivial
  | .clear => isTrue trivial

def agentGone : List Act := [.lookup,.openStream,.readEnds,.unlist,.clear]

theorem agentGone_none_left : ∃ s, run step Hub.start agentGone = some s ∧ s.cleared = true ∧
    s.upgrades = 0 ∧ NoneLeft s := by
  have hok : Along step OpensBeforeClear Hub.start agentGone := by decide +kernel
  have hfacts : ((run step Hub.start agentGone).map fun s => (s.cleared,s.upgrades)) =
      some (true,0) := by decide +kernel
  obtain ⟨s,hrun,hs⟩ := Option.map_eq_some_iff.mp hfacts
  obtain ⟨hcleared,hupgrades⟩ := Prod.mk.inj hs
  exact ⟨s,hrun,hcleared,hupgrades,no_stream_outlives_link agentGone s hok hrun⟩

/-- An agent goes away while the upgrade of a tab is under way. -/
def agentGoneInUpgrade : List Act := [.lookup,.readEnds,.unlist,.clear,.openStream]

theorem stream_outlives_link : ∃ s, run step Hub.start agentGoneInUpgrade = some s ∧
    ¬NoneLeft s := by
  have hfacts : ((run step Hub.start agentGoneInUpgrade).map fun s =>
      (s.cleared,s.upgrades,s.streams.lookup 1)) = some (true,0,some 0) := by decide +kernel
  obtain ⟨s,hrun,hs⟩ := Option.map_eq_some_iff.mp hfacts
  simp only [Prod.mk.injEq] at hs
  obtain ⟨hcleared,hupgrades,hlookup⟩ := hs
  refine ⟨s,hrun,fun hleft => ?_⟩
  have hnone := (hleft hcleared hupgrades).1 1
  rw [hlookup] at hnone
  cases hnone

end Teardown

section Closed
variable {s t u : Hub} {a : Act} {sid : UInt32}

def placedBodies (sid : UInt32) (s : Hub) : List Body := s.log.filterMap (placed? sid ())

def forwardedOn (sid : UInt32) (s : Hub) : List (UInt32 × Body) :=
  s.forwarded.filter fun m => m.1 = sid

def OverSince (sid : UInt32) (u t : Hub) : Prop :=
  t.streams.lookup sid = none ∧ placedBodies sid t = placedBodies sid u ∧
    forwardedOn sid t = forwardedOn sid u

def ProxyDone (sid : UInt32) (s : Hub) : Prop :=
  (∀ p ∈ s.proxies, p.sid = sid → p.phase ≠ .running) ∧
    ∀ k, s.streams.lookup sid = some k → ∀ p ∈ s.proxies[k]?, p.alive = false

/-- `Close` comes for streams whose proxy is done, and their ids are not used again. -/
def ClosesDone (s : Hub) : Act → Prop
  | .agentFrame f => f.body = .close → ProxyDone f.streamId s
  | .openStream => (allocStreamId s.nextStreamId).1 ∉ s.closes
  | _ => True

structure Over (sid : UInt32) (s : Hub) : Prop where
  closed : sid ∈ s.closes
  gone : s.streams.lookup sid = none
  stopped : ∀ p ∈ s.proxies, p.sid = sid → p.phase ≠ .running

theorem stopped_set {k : ℕ} {p q : Proxy} (hp : s.proxies[k]? = some p) (hsid : q.sid = p.sid)
    (hphase : q.phase = .running → p.phase = .running)
    (h : ∀ p ∈ s.proxies, p.sid = sid → p.phase ≠ .running) :
    ∀ p ∈ (setProxy s k q).proxies, p.sid = sid → p.phase ≠ .running := by
  apply forall_mem_set h
  intro hq hrunning
  exact h p (List.mem_of_getElem? hp) (hsid.symm.trans hq) (hphase hrunning)

theorem demux_cases (s : Hub) (id : UInt32) (body : Body) :
    (demux s id body).forwarded = s.forwarded ∧ (demux s id body).closes = s.closes ∧
      (∀ sid, (∀ p ∈ s.proxies, p.sid = sid → p.phase ≠ .running) →
        ∀ p ∈ (demux s id body).proxies, p.sid = sid → p.phase ≠ .running) ∧
      ∃ ok, (demux s id body).log = s.log++[.frame id () body ok] ∧
        (ok = true → ∃ k p, s.streams.lookup id = some k ∧ s.proxies[k]? = some p ∧
          p.alive = true) := by
  unfold demux
  split
  · exact ⟨rfl,rfl,fun _ h => h,false,rfl,nofun⟩
  · next k hk =>
    split
    · next p hp =>
      obtain ⟨hp,htakes⟩ := Option.filter_eq_some_iff.mp hp
      have halive : p.alive = true := (Bool.and_eq_true_iff.mp htakes).1
      refine ⟨rfl,rfl,fun sid h => ?_,true,rfl,fun _ => ⟨k,p,hk,hp,halive⟩⟩
      exact stopped_set hp rfl (fun hrunning => hrunning) h
    · exact ⟨rfl,rfl,fun _ h => h,false,rfl,nofun⟩

theorem handleFrame_stream {f : Frame} (hsid : f.streamId ≠ 0) :
    handleFrame s f =
      if f.body = .close then
        { demux s f.streamId f.body with
          closes := f.streamId::(demux s f.streamId f.body).closes }
      else demux s f.streamId f.body := by
  unfold handleFrame
  rw [if_neg hsid]

/-- Frames that find no live receiver for a stream change nothing about it. -/
theorem frame_over (sid : UInt32) {f : Frame} (hsid : f.streamId ≠ 0)
    (hdead : f.streamId = sid → ∀ k, s.streams.lookup sid = some k →
      ∀ p ∈ s.proxies[k]?, p.alive = false) :
    placedBodies sid (handleFrame s f) = placedBodies sid s ∧
      forwardedOn sid (handleFrame s f) = forwardedOn sid s := by
  obtain ⟨hforwarded,-,-,ok,hlog,hok⟩ := demux_cases s f.streamId f.body
  have hplaced : placedBodies sid (demux s f.streamId f.body) = placedBodies sid s := by
    have hnone : placed? sid () (Event.frame f.streamId () f.body ok) = none := by
      simp only [placed?, and_true]
      rw [if_neg]
      rintro ⟨hid,htrue⟩
      obtain ⟨k,p,hk,hp,halive⟩ := hok htrue
      rw [hid] at hk
      have hdead' := hdead hid k hk p hp
      rw [halive] at hdead'
      cases hdead'
    rw [placedBodies, hlog, List.filterMap_append]
    simp [hnone, placedBodies]
  rw [handleFrame_stream hsid]
  split
  · exact ⟨hplaced,by rw [forwardedOn, forwardedOn, ← hforwarded]⟩
  · exact ⟨hplaced,by rw [forwardedOn, forwardedOn, hforwarded]⟩

theorem handleFrame_stopped {f : Frame} (hsid : f.streamId ≠ 0)
    (h : ∀ p ∈ s.proxies, p.sid = sid → p.phase ≠ .running) :
    ∀ p ∈ (handleFrame s f).proxies, p.sid = sid → p.phase ≠ .running := by
  obtain ⟨-,-,hstopped,-⟩ := demux_cases s f.streamId f.body
  rw [handleFrame_stream hsid]
  split
  · exact hstopped sid h
  · exact hstopped sid h

theorem over_close (hsid : sid ≠ 0) (h : ProxyDone sid s) :
    Over sid (handleFrame s (Frame.close sid)) := by
  have hclosed : handleFrame s (Frame.close sid) =
      { demux s sid .close with closes := sid::(demux s sid .close).closes } :=
    handleFrame_stream hsid
  refine ⟨?_,?_,handleFrame_stopped hsid h.1⟩
  · rw [hclosed]
    exact List.mem_cons_self
  · rw [hclosed]
    show (demux s sid .close).streams.lookup sid = none
    unfold demux
    cases hk : s.streams.lookup sid with
    | none => exact hk
    | some k =>
      have hfilter : s.proxies[k]?.filter Proxy.takes = none := by
        rw [Option.filter_eq_none_iff]
        intro p hp htakes
        have halive := (Bool.and_eq_true_iff.mp htakes).1
        rw [h.2 k hk p hp] at halive
        cases halive
      simp only [hfilter]
      exact AList.lookup_erase sid s.streams

/-- A step that keeps `ClosesDone` adds nothing to a stream that is over. -/
theorem over_step (h : Over sid s) (hok : ClosesDone s a) (hstep : step s a = some t) :
    Over sid t ∧ placedBodies sid t = placedBodies sid s ∧ forwardedOn sid t = forwardedOn sid s := by
  have hlog : ∀ e, placed? sid () e = none →
      (s.log++[e]).filterMap (placed? sid ()) = s.log.filterMap (placed? sid ()) := by
    intro e he
    simp [List.filterMap_append, he]
  cases effect_of_step hstep with
  | idle a r l u => exact ⟨⟨h.closed,h.gone,h.stopped⟩,rfl,rfl⟩
  | opened =>
    have hfresh : (allocStreamId s.nextStreamId).1 ≠ sid := fun heq => hok (heq ▸ h.closed)
    refine ⟨⟨h.closed,?_,?_⟩,hlog _ rfl,rfl⟩
    · show (s.streams.insert (allocStreamId s.nextStreamId).1 s.proxies.length).lookup sid = none
      rw [AList.lookup_insert_ne hfresh.symm]
      exact h.gone
    · apply forall_mem_concat h.stopped
      exact fun heq => absurd heq hfresh
  | frame f hsid =>
    obtain ⟨hplaced,hforwarded⟩ := frame_over sid hsid fun _ k hk => by
      rw [h.gone] at hk
      cases hk
    refine ⟨⟨?_,handleFrame_none f h.gone,handleFrame_stopped hsid h.stopped⟩,hplaced,hforwarded⟩
    obtain ⟨-,hcloses,-,-⟩ := demux_cases s f.streamId f.body
    rw [handleFrame_stream hsid]
    split
    · show sid ∈ f.streamId::(demux s f.streamId f.body).closes
      rw [hcloses]
      exact List.mem_cons_of_mem _ h.closed
    · rw [hcloses]
      exact h.closed
  | moved a k p q hp hrunning hsid hqueue hlive =>
    exact ⟨⟨h.closed,h.gone,stopped_set hp hsid (fun _ => hrunning) h.stopped⟩,rfl,rfl⟩
  | took k p hp hrunning =>
    exact ⟨⟨h.closed,h.gone,stopped_set hp rfl (fun _ => hrunning) h.stopped⟩,hlog _ rfl,rfl⟩
  | forwarded k p body hp hrunning =>
    have hne : p.sid ≠ sid := fun heq => h.stopped p (List.mem_of_getElem? hp) heq hrunning
    refine ⟨⟨h.closed,h.gone,stopped_set hp rfl (fun _ => hrunning) h.stopped⟩,rfl,?_⟩
    simp [forwardedOn, List.filter_append, hne]
  | returned k p hp hclosing =>
    exact ⟨⟨h.closed,h.gone,stopped_set hp rfl (by simp) h.stopped⟩,hlog _ rfl,rfl⟩
  | cleaned k p hp hreturned =>
    exact ⟨⟨h.closed,lookup_erase_none p.sid h.gone,stopped_set hp rfl (by simp) h.stopped⟩,
      hlog _ rfl,rfl⟩
  | cleared => exact ⟨⟨h.closed,AList.lookup_empty sid,h.stopped⟩,hlog _ rfl,rfl⟩

/-- In every run in which the reader processes `Close` only for streams whose proxy is done,
and no id is used again after its `Close`, a stream is over from its `Close` on. -/
theorem close_ends_stream (sid : UInt32) (hsid : sid ≠ 0) (as bs : List Act) (u t : Hub)
    (hok : Along step ClosesDone Hub.start (as++.agentFrame (Frame.close sid)::bs))
    (hu : run step Hub.start (as++[.agentFrame (Frame.close sid)]) = some u)
    (ht : run step u bs = some t) : OverSince sid u t := by
  have hover : Over sid u := by
    obtain ⟨s,hs,hlast⟩ := (run_append step).mp hu
    obtain ⟨v,hv,hnil⟩ := (run_cons step).mp hlast
    cases hnil
    simp only [step, Option.ite_none_right_eq_some, Option.some.injEq] at hv
    obtain ⟨-,rfl⟩ := hv
    exact over_close hsid ((along_rest step hok hs).1 rfl)
  have hrest : Along step ClosesDone u bs := by
    apply along_rest step _ hu
    rw [List.append_assoc]
    exact hok
  have hstart : Over sid u ∧ placedBodies sid u = placedBodies sid u ∧
      forwardedOn sid u = forwardedOn sid u := ⟨hover,rfl,rfl⟩
  have hend : Over sid t ∧ placedBodies sid t = placedBodies sid u ∧
      forwardedOn sid t = forwardedOn sid u := by
    apply run_along step _ hstart hrest ht
    rintro s a s' ⟨hs,hplaced,hforwarded⟩ ha hstep
    obtain ⟨hs',hplaced',hforwarded'⟩ := over_step hs ha hstep
    exact ⟨hs',hplaced'.trans hplaced,hforwarded'.trans hforwarded⟩
  exact ⟨hend.1.gone,hend.2⟩

instance (sid : UInt32) (s : Hub) : Decidable (ProxyDone sid s) :=
  match h : s.streams.lookup sid with
  | none => decidable_of_iff (∀ p ∈ s.proxies, p.sid = sid → p.phase ≠ .running)
    ⟨fun hp => ⟨hp,fun k hk => by rw [h] at hk; cases hk⟩,And.left⟩
  | some k => decidable_of_iff ((∀ p ∈ s.proxies, p.sid = sid → p.phase ≠ .running) ∧
      ∀ p ∈ s.proxies[k]?, p.alive = false)
    ⟨fun hp => ⟨hp.1,fun k' hk => by rw [h] at hk; cases hk; exact hp.2⟩,
      fun hp => ⟨hp.1,hp.2 k h⟩⟩

instance (s : Hub) (a : Act) : Decidable (ClosesDone s a) :=
  match a with
  | .agentFrame f => inferInstanceAs (Decidable (f.body = .close → ProxyDone f.streamId s))
  | .openStream => inferInstanceAs (Decidable (_ ∉ _))
  | .lookup => isTrue trivial
  | .abandon => isTrue trivial
  | .sourceRecv _ => isTrue trivial
  | .browser _ _ => isTrue trivial
  | .forward _ _ => isTrue trivial
  | .finish _ => isTrue trivial
  | .proxyReturn _ => isTrue trivial
  | .guardDrop _ => isTrue trivial
  | .readEnds => isTrue trivial
  | .unlist => isTrue trivial
  | .clear => isTrue trivial

def closedTab : List Act := [.lookup,.openStream,.finish 0,.proxyReturn 0]

theorem close_after_tab : ∃ u t, run step Hub.start (closedTab++[.agentFrame (Frame.close 1)]) =
    some u ∧ run step u [.agentFrame (Frame.data 1 [104]),.guardDrop 0] = some t ∧
    OverSince 1 u t := by
  have hok : Along step ClosesDone Hub.start (closedTab++.agentFrame (Frame.close 1)::
      [.agentFrame (Frame.data 1 [104]),.guardDrop 0]) := by decide +kernel
  have hfacts : ((run step Hub.start (closedTab++[.agentFrame (Frame.close 1)])).bind fun u =>
      (run step u [.agentFrame (Frame.data 1 [104]),.guardDrop 0]).map fun _ => ()) = some () := by
    decide +kernel
  obtain ⟨u,hu,hrest⟩ := Option.bind_eq_some_iff.mp hfacts
  obtain ⟨t,ht,-⟩ := Option.map_eq_some_iff.mp hrest
  exact ⟨u,t,hu,ht,close_ends_stream 1 (by decide) closedTab _ u t hok hu ht⟩

def keyAfterClose : List Act :=
  [.agentFrame (Frame.data 1 [104]),.browser 0 (.binary (encode (Frame.data 0 [97]))),
    .forward 0 true]

/-- After `Close` the entry is there, a body is queued and a message goes to the agent. -/
theorem close_does_not_end_stream : ∃ u t,
    run step Hub.start [.lookup,.openStream,.agentFrame (Frame.close 1)] = some u ∧
    run step u keyAfterClose = some t ∧ t.streams.lookup 1 = some 0 ∧
    placedBodies 1 t ≠ placedBodies 1 u ∧ forwardedOn 1 t ≠ forwardedOn 1 u ∧
    ¬OverSince 1 u t := by
  have hfacts : ((run step Hub.start [.lookup,.openStream,.agentFrame (Frame.close 1)]).bind
      fun u => (run step u keyAfterClose).map fun t =>
        (t.streams.lookup 1,decide (placedBodies 1 t ≠ placedBodies 1 u),
          decide (forwardedOn 1 t ≠ forwardedOn 1 u))) = some (some 0,true,true) := by
    decide +kernel
  obtain ⟨u,hu,hrest⟩ := Option.bind_eq_some_iff.mp hfacts
  obtain ⟨t,ht,hs⟩ := Option.map_eq_some_iff.mp hrest
  simp only [Prod.mk.injEq, decide_eq_true_eq] at hs
  obtain ⟨hlookup,hplaced,hforwarded⟩ := hs
  exact ⟨u,t,hu,ht,hlookup,hplaced,hforwarded,fun hover => hplaced hover.2.1⟩

end Closed

end Term.StreamEnds
