import TermMux.Machine
import TermMux.SessionState

/-!
# The control lease at lock granularity

Streams come and go in any order, each acting only between its own attach and
its detach. The controller is always attached and the session's size is the
one it last reported; a stream that has detached holds nothing.
-/

set_option autoImplicit false

namespace Term.ControlLease
open Term.Machine Term.SessionState

def Leased (inner : SessionInner) : Prop :=
  ∀ c, inner.controller = some c → inner.attached.lookup c = some inner.lastSize

theorem spawn_leased (initialSize : Size) (scrollbackCap now : ℕ) :
    Leased (SessionInner.spawn initialSize scrollbackCap now) := by
  intro c h
  cases h

theorem attach_leased {inner : SessionInner} (sid : StreamId) (size : Size) (now : ℕ)
    (h : Leased inner) (hnew : inner.controller ≠ some sid) :
    Leased (inner.attach sid size now).inner := by
  rcases attach_cases inner sid size now with ⟨-,heq⟩ | ⟨-,heq⟩
  · rw [heq]
    intro c hc
    cases hc
    exact AList.lookup_insert _
  · rw [heq]
    intro c hc
    have hne : c ≠ sid := fun hsid => hnew (hsid ▸ hc)
    change (inner.attached.insert sid size).lookup c = _
    rw [AList.lookup_insert_ne hne]
    exact h c hc

theorem detach_leased {inner : SessionInner} (sid : StreamId) (now : ℕ) (h : Leased inner) :
    Leased (inner.detach sid now).inner := by
  rcases detach_cases inner sid now with ⟨-,heq⟩ | ⟨hother,heq⟩
  · rw [heq]
    intro c hnone
    cases hnone
  · rw [heq]
    intro c hc
    have hne : c ≠ sid := fun hsid => hother (hsid ▸ hc)
    change (inner.attached.erase sid).lookup c = _
    rw [AList.lookup_erase_ne hne]
    exact h c hc

theorem locked_leased {inner : SessionInner} (sid : StreamId) (op : Op) (h : Leased inner) :
    Leased (op.locked inner sid).inner := by
  rcases locked_cases inner sid op with heq | ⟨size,hother,heq⟩ | ⟨size,hself,heq⟩ |
    ⟨size,-,hl,heq⟩ | ⟨-,heq⟩
  · rw [heq]
    exact h
  · rw [heq]
    intro c hc
    have hne : c ≠ sid := fun hsid => hother (hsid ▸ hc)
    change (inner.attached.insert sid size).lookup c = _
    rw [AList.lookup_insert_ne hne]
    exact h c hc
  · rw [heq]
    intro c hc
    rw [Option.some.inj (hc.symm.trans hself)]
    exact AList.lookup_insert _
  · rw [heq]
    intro c hc
    cases hc
    exact hl
  · rw [heq]
    intro c hnone
    cases hnone

theorem mem_attach {inner : SessionInner} {sid a : StreamId} {size : Size} {now : ℕ}
    (h : a ∈ (inner.attach sid size now).inner.attached) : a = sid ∨ a ∈ inner.attached := by
  rcases attach_cases inner sid size now with ⟨-,heq⟩ | ⟨-,heq⟩
  · rw [heq] at h
    exact (AList.mem_insert _).mp h
  · rw [heq] at h
    exact (AList.mem_insert _).mp h

theorem mem_detach {inner : SessionInner} {sid a : StreamId} {now : ℕ}
    (h : a ∈ (inner.detach sid now).inner.attached) : a ≠ sid ∧ a ∈ inner.attached := by
  rcases detach_cases inner sid now with ⟨-,heq⟩ | ⟨-,heq⟩
  · rw [heq] at h
    exact AList.mem_erase.mp h
  · rw [heq] at h
    exact AList.mem_erase.mp h

theorem mem_locked {inner : SessionInner} {sid a : StreamId} {op : Op}
    (h : a ∈ (op.locked inner sid).inner.attached) : a = sid ∨ a ∈ inner.attached := by
  rcases locked_cases inner sid op with heq | ⟨size,-,heq⟩ | ⟨size,-,heq⟩ | ⟨size,-,-,heq⟩ | ⟨-,heq⟩
  · rw [heq] at h
    exact .inr h
  · rw [heq] at h
    exact (AList.mem_insert _).mp h
  · rw [heq] at h
    exact (AList.mem_insert _).mp h
  · rw [heq] at h
    exact .inr h
  · rw [heq] at h
    exact .inr h

structure Streams where
  inner : SessionInner
  live : List StreamId

def Streams.spawn (initialSize : Size) (scrollbackCap now : ℕ) : Streams :=
  ⟨SessionInner.spawn initialSize scrollbackCap now,[]⟩

inductive Action where
  | attach (sid : StreamId) (size : Size) (now : ℕ)
  | op (sid : StreamId) (op : Op)
  | detach (sid : StreamId) (now : ℕ)
  deriving DecidableEq, Repr

def step (s : Streams) : Action → Option Streams
  | .attach sid size now =>
    if sid ∈ s.live then none else some ⟨(s.inner.attach sid size now).inner,sid::s.live⟩
  | .op sid op =>
    if sid ∈ s.live then some ⟨(op.locked s.inner sid).inner,s.live⟩ else none
  | .detach sid now =>
    if sid ∈ s.live then some ⟨(s.inner.detach sid now).inner,s.live.filter (· ≠ sid)⟩ else none

structure Invariant (s : Streams) : Prop where
  leased : Leased s.inner
  live : ∀ a ∈ s.inner.attached, a ∈ s.live

theorem Invariant.controller_live {s : Streams} (h : Invariant s) {c : StreamId}
    (hc : s.inner.controller = some c) : c ∈ s.live := by
  apply h.live
  apply AList.lookup_isSome.mp
  rw [h.leased c hc]
  rfl

/-- A stream attaches while it is not live, and acts and detaches while it is. -/
theorem step_cases {s t : Streams} {a : Action} (h : step s a = some t) :
    (∃ sid size now, a = .attach sid size now ∧ sid ∉ s.live ∧
      t = ⟨(s.inner.attach sid size now).inner,sid::s.live⟩) ∨
    (∃ sid op, a = .op sid op ∧ sid ∈ s.live ∧ t = ⟨(op.locked s.inner sid).inner,s.live⟩) ∨
    (∃ sid now, a = .detach sid now ∧ sid ∈ s.live ∧
      t = ⟨(s.inner.detach sid now).inner,s.live.filter (· ≠ sid)⟩) := by
  cases a with
  | attach sid size now =>
    simp only [step, Option.ite_none_left_eq_some, Option.some.injEq] at h
    exact .inl ⟨sid,size,now,rfl,h.1,h.2.symm⟩
  | op sid op =>
    simp only [step, Option.ite_none_right_eq_some, Option.some.injEq] at h
    exact .inr (.inl ⟨sid,op,rfl,h.1,h.2.symm⟩)
  | detach sid now =>
    simp only [step, Option.ite_none_right_eq_some, Option.some.injEq] at h
    exact .inr (.inr ⟨sid,now,rfl,h.1,h.2.symm⟩)

theorem step_invariant (s : Streams) (a : Action) (t : Streams) (h : Invariant s)
    (hstep : step s a = some t) : Invariant t := by
  rcases step_cases hstep with ⟨sid,size,now,-,hlive,rfl⟩ | ⟨sid,op,-,hlive,rfl⟩ |
    ⟨sid,now,-,-,rfl⟩
  · have hnew : s.inner.controller ≠ some sid := fun hc => hlive (h.controller_live hc)
    refine ⟨attach_leased sid size now h.leased hnew,?_⟩
    intro a ha
    rcases mem_attach ha with heq | hold
    · rw [heq]
      exact List.mem_cons_self
    · exact List.mem_cons_of_mem _ (h.live a hold)
  · refine ⟨locked_leased sid op h.leased,?_⟩
    intro a ha
    rcases mem_locked ha with heq | hold
    · rw [heq]
      exact hlive
    · exact h.live a hold
  · refine ⟨detach_leased sid now h.leased,?_⟩
    intro a ha
    have hmem := mem_detach ha
    exact List.mem_filter.mpr ⟨h.live a hmem.2,by simpa using hmem.1⟩

theorem step_not_live {s t : Streams} {a : Action} {sid : StreamId} (h : sid ∉ s.live)
    (hne : ∀ size now, a ≠ .attach sid size now) (hstep : step s a = some t) : sid ∉ t.live := by
  rcases step_cases hstep with ⟨other,size,now,rfl,-,rfl⟩ | ⟨other,op,-,-,rfl⟩ |
    ⟨other,now,-,-,rfl⟩
  · intro hmem
    rcases List.mem_cons.mp hmem with heq | hold
    · exact hne size now (by rw [heq])
    · exact h hold
  · exact h
  · intro hmem
    exact h (List.mem_filter.mp hmem).1

theorem run_not_live {s t : Streams} {as : List Action} {sid : StreamId} (h : sid ∉ s.live)
    (hne : ∀ a ∈ as, ∀ size now, a ≠ .attach sid size now) (hrun : run step s as = some t) :
    sid ∉ t.live :=
  run_along step (I := fun s => sid ∉ s.live)
    (fun _ _ _ hs ha hstep => step_not_live hs ha hstep) h (along_of_forall step hne) hrun

theorem detach_not_live {s t : Streams} {sid : StreamId} {now : ℕ}
    (hstep : step s (.detach sid now) = some t) : sid ∉ t.live := by
  simp only [step, Option.ite_none_right_eq_some, Option.some.injEq] at hstep
  rw [← hstep.2]
  simp

/-- In every reachable state the controller is attached and the session's size is
its recorded geometry; and after a stream's detach, until it attaches again, it
is neither attached nor the controller. -/
theorem controller_invariant (initialSize : Size) (scrollbackCap now : ℕ) (as : List Action)
    (s : Streams) (hrun : run step (Streams.spawn initialSize scrollbackCap now) as = some s) :
    (∀ c, s.inner.controller = some c →
      c ∈ s.inner.attached ∧ s.inner.attached.lookup c = some s.inner.lastSize) ∧
    (∀ before sid at_ after, as = before++.detach sid at_::after →
      (∀ a ∈ after, ∀ size when, a ≠ .attach sid size when) →
      sid ∉ s.inner.attached ∧ s.inner.controller ≠ some sid) := by
  have hinit : Invariant (Streams.spawn initialSize scrollbackCap now) :=
    ⟨spawn_leased initialSize scrollbackCap now,fun a ha => absurd ha (AList.notMem_empty a)⟩
  have hinv : Invariant s := run_invariant step step_invariant hinit hrun
  constructor
  · intro c hc
    have hlookup := hinv.leased c hc
    refine ⟨AList.lookup_isSome.mp ?_,hlookup⟩
    rw [hlookup]
    rfl
  · intro before sid at_ after hsplit hafter
    rw [hsplit] at hrun
    obtain ⟨u,_,hrest⟩ := (run_append step).mp hrun
    obtain ⟨v,hdetach,hlast⟩ := (run_cons step).mp hrest
    have hgone : sid ∉ s.live := run_not_live (detach_not_live hdetach) hafter hlast
    exact ⟨fun hmem => hgone (hinv.live sid hmem),fun hc => hgone (hinv.controller_live hc)⟩

def tabs : List Action :=
  [.attach 1 (24,80) 0,.attach 2 (50,132) 1,.op 2 .takeControl,.op 2 (.resize 40 100),
    .op 1 (.resize 30 90),.detach 1 2]

theorem controller_invariant_tabs :
    ∃ s, run step (Streams.spawn (24,80) defaultScrollbackCapBytes 0) tabs = some s ∧
      s.inner.controller = some 2 ∧ s.inner.attached.lookup 2 = some (40,100) ∧
      s.inner.lastSize = (40,100) ∧ 1 ∉ s.inner.attached := by
  have hsome : (run step (Streams.spawn (24,80) defaultScrollbackCapBytes 0) tabs).isSome = true := by
    decide +kernel
  have hctrl : ((run step (Streams.spawn (24,80) defaultScrollbackCapBytes 0) tabs).map
      fun s => (s.inner.controller,s.inner.lastSize)) = some (some 2,(40,100)) := by
    decide +kernel
  obtain ⟨s,hs⟩ := Option.isSome_iff_exists.mp hsome
  rw [hs, Option.map_some, Option.some.injEq, Prod.mk.injEq] at hctrl
  have hinv := controller_invariant (24,80) defaultScrollbackCapBytes 0 tabs s hs
  have hlookup := (hinv.1 2 hctrl.1).2
  rw [hctrl.2] at hlookup
  exact ⟨s,hs,hctrl.1,hlookup,hctrl.2,(hinv.2 (tabs.take 5) 1 2 [] rfl (by simp)).1⟩

end Term.ControlLease
