import TermMux.StreamIsolation

/-!
# The cap on the streams of an agent

`term_ws` finds the link, counts its streams and lets the upgrade go on; the stream is opened
when the upgrade is complete. The count leaves out the upgrades that have passed it and not
opened their stream yet, so the cap holds in the runs where they would have fitted too.
-/

set_option autoImplicit false

namespace Term.StreamCap
open Term.Machine Term.HubStreams Term.StreamIsolation
open Term.HubLink (allocStreamId)

/-- The hub's end of a link, and the handlers that have found it and not counted its streams. -/
structure Upgrades where
  hub : Hub
  found : ℕ

def Upgrades.start : Upgrades := ⟨Hub.start,0⟩

inductive Action where
  | find
  | check
  /-- Any other step of the hub. -/
  | hub (a : HubStreams.Act)
  deriving DecidableEq, Repr

def streamCount (s : Hub) : ℕ := s.streams.keys.length

def counted (s : Hub) : Hub :=
  if maxStreamsPerAgent ≤ streamCount s then s else { s with upgrades := s.upgrades+1 }

def step (s : Upgrades) : Action → Option Upgrades
  | .find => if s.hub.listed then some { s with found := s.found+1 } else none
  | .check => if 0 < s.found then some ⟨counted s.hub,s.found-1⟩ else none
  | .hub .lookup => none
  | .hub a => (HubStreams.step s.hub a).map fun hub => { s with hub := hub }

/-- A count that lets an upgrade pass leaves room for those that have passed before. -/
def Leaves (s : Upgrades) : Action → Prop
  | .check => streamCount s.hub < maxStreamsPerAgent →
    streamCount s.hub+s.hub.upgrades < maxStreamsPerAgent
  | _ => True

instance decidableLeaves (s : Upgrades) (a : Action) : Decidable (Leaves s a) :=
  match a with
  | .check => inferInstanceAs (Decidable (_ → _))
  | .find => isTrue trivial
  | .hub _ => isTrue trivial

def claimed (s : Upgrades) : ℕ := streamCount s.hub+s.hub.upgrades

section Steps

theorem streamCount_erase (s : AList fun _ : UInt32 => ℕ) (k : UInt32) :
    (s.erase k).keys.length ≤ s.keys.length := by
  rw [AList.keys_erase]
  exact List.length_erase_le

theorem streamCount_insert (s : AList fun _ : UInt32 => ℕ) (k : UInt32) (v : ℕ) :
    (s.insert k v).keys.length ≤ s.keys.length+1 := by
  rw [AList.keys_insert, List.length_cons]
  exact Nat.succ_le_succ List.length_erase_le

theorem demux_frame (s : Hub) (sid : UInt32) (body : FrameModel.Body) :
    streamCount (demux s sid body) ≤ streamCount s ∧ (demux s sid body).upgrades = s.upgrades := by
  unfold demux
  split
  · exact ⟨Nat.le_refl _,rfl⟩
  · split
    · exact ⟨Nat.le_refl _,rfl⟩
    · exact ⟨streamCount_erase _ _,rfl⟩

theorem handleFrame_frame (s : Hub) (f : FrameModel.Frame) :
    streamCount (handleFrame s f) ≤ streamCount s ∧ (handleFrame s f).upgrades = s.upgrades := by
  unfold handleFrame
  split
  · split <;> exact ⟨Nat.le_refl _,rfl⟩
  · obtain ⟨hcount,hup⟩ := demux_frame s f.streamId f.body
    show streamCount (if f.body = .close then _ else _) ≤ _ ∧ _
    split
    · exact ⟨hcount,hup⟩
    · exact ⟨hcount,hup⟩

theorem streamCount_effect {s t : Hub} {a : Act} (h : Effect s a t) (ha : a ≠ .openStream) :
    streamCount t ≤ streamCount s := by
  cases h with
  | opened => exact absurd rfl ha
  | frame f hsid => exact (handleFrame_frame s f).1
  | cleaned k p hp hr => exact streamCount_erase _ _
  | cleared => exact Nat.zero_le _
  | idle
  | moved
  | took
  | forwarded
  | returned => exact Nat.le_refl _

theorem upgrades_browser (s : Hub) (k : ℕ) (p : Proxy) (m : HubLink.WsMessage) :
    (browserMessage s k p m).upgrades = s.upgrades := by
  unfold browserMessage
  split
  · split <;> rfl
  · rfl
  · rfl
  · rfl
  · rfl
  · rfl

theorem upgrades_step {s t : Hub} {a : Act} (h : HubStreams.step s a = some t)
    (ha : a ≠ .lookup ∧ a ≠ .abandon ∧ a ≠ .openStream) : t.upgrades = s.upgrades := by
  cases a with
  | lookup => exact absurd rfl ha.1
  | abandon => exact absurd rfl ha.2.1
  | openStream => exact absurd rfl ha.2.2
  | agentFrame f =>
    simp only [HubStreams.step, Option.ite_none_right_eq_some, Option.some.injEq] at h
    rw [← h.2]
    exact (handleFrame_frame s f).2
  | sourceRecv k =>
    obtain ⟨p,-,h⟩ := Option.bind_eq_some_iff.mp h
    split at h <;> cases h <;> rfl
  | browser k m =>
    obtain ⟨p,-,h⟩ := Option.bind_eq_some_iff.mp h
    simp only [Option.ite_none_right_eq_some, Option.some.injEq] at h
    rw [← h.2]
    exact upgrades_browser s k p m
  | forward k sent =>
    obtain ⟨p,-,h⟩ := Option.bind_eq_some_iff.mp h
    split at h
    · split at h <;> cases h <;> rfl
    · cases h
  | finish k
  | proxyReturn k
  | guardDrop k =>
    obtain ⟨p,-,h⟩ := Option.bind_eq_some_iff.mp h
    simp only [Option.ite_none_right_eq_some, Option.some.injEq] at h
    rw [← h.2]
    rfl
  | readEnds
  | unlist
  | clear =>
    simp only [HubStreams.step, Option.ite_none_right_eq_some, Option.some.injEq] at h
    rw [← h.2]

theorem claimed_hub {s t : Hub} {a : Act} (h : HubStreams.step s a = some t) (ha : a ≠ .lookup) :
    streamCount t+t.upgrades ≤ streamCount s+s.upgrades := by
  by_cases hopen : a = .openStream
  · rw [hopen] at h
    simp only [HubStreams.step, Option.ite_none_right_eq_some, Option.some.injEq] at h
    obtain ⟨hpos,rfl⟩ := h
    have hcount : streamCount (openStream s) ≤ streamCount s+1 := streamCount_insert _ _ _
    have hup : (openStream s).upgrades = s.upgrades-1 := rfl
    omega
  · have hcount := streamCount_effect (effect_of_step h) hopen
    by_cases habandon : a = .abandon
    · rw [habandon] at h
      simp only [HubStreams.step, Option.ite_none_right_eq_some, Option.some.injEq] at h
      obtain ⟨-,rfl⟩ := h
      show streamCount s+(s.upgrades-1) ≤ _
      omega
    · rw [upgrades_step h ⟨ha,habandon,hopen⟩]
      omega

theorem claimed_step (s : Upgrades) (a : Action) (t : Upgrades) (hs : claimed s ≤ maxStreamsPerAgent)
    (hok : Leaves s a) (h : step s a = some t) : claimed t ≤ maxStreamsPerAgent := by
  cases a with
  | find =>
    simp only [step, Option.ite_none_right_eq_some, Option.some.injEq] at h
    rw [← h.2]
    exact hs
  | check =>
    simp only [step, Option.ite_none_right_eq_some, Option.some.injEq] at h
    rw [← h.2]
    unfold claimed counted
    split
    · exact hs
    · next hroom => exact hok (Nat.not_le.mp hroom)
  | hub a =>
    have ha : a ≠ .lookup := by
      rintro rfl
      cases h
    have hhub : (HubStreams.step s.hub a).map (fun hub => { s with hub := hub }) = some t := by
      cases a with
      | lookup => exact absurd rfl ha
      | _ => exact h
    obtain ⟨u,hu,rfl⟩ := Option.map_eq_some_iff.mp hhub
    exact (claimed_hub hu ha).trans hs

end Steps

/-- The cap holds in every run where a count that lets an upgrade pass leaves room for the
upgrades in flight. -/
theorem cap_kept (as : List Action) (s : Upgrades) (hok : Along step Leaves Upgrades.start as)
    (hrun : run step Upgrades.start as = some s) : streamCount s.hub ≤ maxStreamsPerAgent := by
  have hclaimed : claimed s ≤ maxStreamsPerAgent :=
    run_along step claimed_step (Nat.zero_le _) hok hrun
  exact (Nat.le_add_right _ _).trans hclaimed

section Overrun

structure Fresh (s : Hub) (n : ℕ) : Prop where
  below : ∀ k ∈ s.streams.keys, k.toNat < s.nextStreamId.toNat
  positive : 0 < s.nextStreamId.toNat
  room : s.nextStreamId.toNat+n < 2^32

theorem openStream_fresh {s : Hub} {n : ℕ} (h : Fresh s (n+1)) :
    Fresh (openStream s) n ∧ streamCount (openStream s) = streamCount s+1 := by
  have hpos := h.positive
  have hroom := h.room
  have hprev : s.nextStreamId.toNat = (s.nextStreamId.toNat-1)+1 := by omega
  obtain ⟨hid,hnext⟩ := alloc_toNat hprev (by omega)
  have hnew : s.nextStreamId ∉ s.streams.keys := fun hmem => Nat.lt_irrefl _ (h.below _ hmem)
  have hkeys : (openStream s).streams.keys = s.nextStreamId::s.streams.keys := by
    show (s.streams.insert (allocStreamId s.nextStreamId).1 _).keys = _
    rw [hid, AList.keys_insert, List.erase_of_not_mem hnew]
  have hnext' : (openStream s).nextStreamId.toNat = s.nextStreamId.toNat+1 := by
    show (allocStreamId s.nextStreamId).2.toNat = _
    rw [hnext]
    omega
  refine ⟨⟨?_,?_,?_⟩,?_⟩
  · intro k hk
    rw [hkeys] at hk
    rw [hnext']
    rcases List.mem_cons.mp hk with rfl | hk
    · exact Nat.lt_succ_self _
    · exact Nat.lt_succ_of_lt (h.below k hk)
  · rw [hnext']
    exact Nat.succ_pos _
  · rw [hnext']
    omega
  · rw [streamCount, hkeys]
    rfl

/-- Every upgrade in flight may open its stream, whatever the count. -/
theorem open_all (n : ℕ) (s : Upgrades) (hup : n ≤ s.hub.upgrades) (hfresh : Fresh s.hub n) :
    ∃ t, run step s (List.replicate n (.hub .openStream)) = some t ∧
      streamCount t.hub = streamCount s.hub+n := by
  induction n generalizing s with
  | zero => exact ⟨s,rfl,rfl⟩
  | succ n ih =>
    obtain ⟨hnext,hcount⟩ := openStream_fresh hfresh
    have hstep : step s (.hub .openStream) = some { s with hub := openStream s.hub } := by
      show (HubStreams.step s.hub .openStream).map _ = _
      rw [HubStreams.step, if_pos (show 0 < s.hub.upgrades by omega)]
      rfl
    obtain ⟨t,hrun,ht⟩ := ih { s with hub := openStream s.hub }
      (show n ≤ s.hub.upgrades-1 by omega) hnext
    refine ⟨t,(run_cons step).mpr ⟨_,hstep,hrun⟩,?_⟩
    rw [ht, hcount]
    omega

/-- After a count that leaves no room for the upgrades in flight the cap can be exceeded. -/
theorem uncounted_overruns (s t : Upgrades) (hcheck : step s .check = some t)
    (hpass : streamCount s.hub < maxStreamsPerAgent) (hno : ¬Leaves s .check)
    (hfresh : Fresh s.hub (s.hub.upgrades+1)) :
    ∃ as u, run step t as = some u ∧ maxStreamsPerAgent < streamCount u.hub := by
  simp only [step, Option.ite_none_right_eq_some, Option.some.injEq] at hcheck
  obtain ⟨-,rfl⟩ := hcheck
  have hcounted : counted s.hub = { s.hub with upgrades := s.hub.upgrades+1 } :=
    if_neg (Nat.not_le.mpr hpass)
  rw [hcounted]
  obtain ⟨u,hrun,hu⟩ := open_all (s.hub.upgrades+1)
    ⟨{ s.hub with upgrades := s.hub.upgrades+1 },s.found-1⟩ (Nat.le_refl _)
    ⟨hfresh.below,hfresh.positive,hfresh.room⟩
  refine ⟨_,u,hrun,?_⟩
  rw [hu]
  show maxStreamsPerAgent < streamCount s.hub+(s.hub.upgrades+1)
  by_contra hle
  exact hno fun _ => by omega

/-- Handlers that find the link and count its streams before any stream is opened. -/
theorem check_all (n : ℕ) (s : Upgrades) (hlisted : s.hub.listed = true)
    (hroom : streamCount s.hub < maxStreamsPerAgent) :
    run step s (List.replicate n [.find,.check]).flatten =
      some { s with hub := { s.hub with upgrades := s.hub.upgrades+n } } := by
  induction n generalizing s with
  | zero => rfl
  | succ n ih =>
    have hfind : step s .find = some { s with found := s.found+1 } := if_pos hlisted
    have hcheck : step { s with found := s.found+1 } .check =
        some { s with hub := { s.hub with upgrades := s.hub.upgrades+1 } } := by
      have hcounted : counted s.hub = { s.hub with upgrades := s.hub.upgrades+1 } :=
        if_neg (Nat.not_le.mpr hroom)
      rw [step, if_pos (Nat.succ_pos _), hcounted]
      rfl
    rw [List.replicate_succ, List.flatten_cons]
    show (step s .find).bind _ = _
    rw [hfind, Option.bind_some]
    show (step _ .check).bind _ = _
    rw [hcheck, Option.bind_some]
    have hrest := ih { s with hub := { s.hub with upgrades := s.hub.upgrades+1 } } hlisted hroom
    refine hrest.trans ?_
    simp only [Nat.add_assoc, Nat.add_comm 1 n]

/-- 257 browsers are let through before the first of them opens its stream. -/
theorem cap_exceeded :
    ∃ as s, run step Upgrades.start as = some s ∧ maxStreamsPerAgent < streamCount s.hub := by
  have hchecks := check_all 257 Upgrades.start rfl (by decide)
  obtain ⟨t,hrun,ht⟩ := open_all 257
    { Upgrades.start with hub := { Upgrades.start.hub with upgrades := Upgrades.start.hub.upgrades+257 } }
    (by decide) ⟨nofun,by decide,by decide⟩
  refine ⟨_,t,(run_append step).mpr ⟨_,hchecks,hrun⟩,?_⟩
  rw [ht]
  decide

end Overrun

theorem one_stream_capped : ∃ s, run step Upgrades.start [.find,.check,.hub .openStream] = some s ∧
    streamCount s.hub ≤ maxStreamsPerAgent := by
  have hrun : (run step Upgrades.start [.find,.check,.hub .openStream]).isSome = true := by decide
  obtain ⟨s,hs⟩ := Option.isSome_iff_exists.mp hrun
  exact ⟨s,hs,cap_kept _ s (by decide) hs⟩

end Term.StreamCap
