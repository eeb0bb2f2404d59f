import TermMux.SessionManager

/-!
# The exit of a shell and the streams that attach around it

The reader marks the session as exited under its lock and broadcasts `Closed` after
releasing it; `lookup_or_spawn` tests the mark and the stream attaches later, under
another lock. A stream hears of the exit if and only if its attach comes before the
broadcast.
-/

set_option autoImplicit false

namespace Term.ShellExit
open Term.Broadcast Term.FrameModel Term.Machine Term.SessionFanout Term.SessionManager
  Term.SessionState

def Told (log : List SessionEvent) (t : Task) : Prop :=
  ∃ n, t.eventRx.start ≤ n ∧ log[n]? = some .closed

def Announced (h : Host) : Prop :=
  ∀ (k : ℕ) (s : Fanout), h.manager.sessions[k]? = some s → s.closed = true →
    ∀ t ∈ s.tasks, t.phase ≠ .detached → Told s.log t

/-- No attach gets the lock after the broadcast. -/
def InTime (h : Host) (a : SessionManager.Action) : Prop :=
  ∀ p ∈ h.target a,
    match p.2 with
    | .attach _ _ _ => ∀ s ∈ h.manager.sessions[p.1]?, s.closed = false
    | _ => True

instance (h : Host) (a : SessionManager.Action) : Decidable (InTime h a) := by
  unfold InTime
  have (p : ℕ × SessionFanout.Action) : Decidable (match p.2 with
      | .attach _ _ _ => ∀ s ∈ h.manager.sessions[p.1]?, s.closed = false
      | _ => True) := by
    split <;> infer_instance
  infer_instance

theorem told_append {log : List SessionEvent} {t : Task} (h : Told log t)
    (more : List SessionEvent) : Told (log++more) t := by
  obtain ⟨n,hn,hclosed⟩ := h
  refine ⟨n,hn,?_⟩
  rw [List.getElem?_append_left (List.getElem?_eq_some_iff.mp hclosed).1, hclosed]

structure Heard (s : Fanout) : Prop where
  within : ∀ t ∈ s.tasks, t.eventRx.start ≤ s.log.length
  told : s.closed = true → ∀ t ∈ s.tasks, t.phase ≠ .detached → Told s.log t

theorem heard_of_tasks {s s' : Fanout} (h : Heard s) (hlog : ∃ more, s'.log = s.log++more)
    (hclosed : s'.closed = s.closed)
    (htasks : ∀ t ∈ s'.tasks, ∃ u ∈ s.tasks, t.eventRx.start = u.eventRx.start ∧
      (t.phase ≠ .detached → u.phase ≠ .detached)) : Heard s' := by
  obtain ⟨more,hmore⟩ := hlog
  constructor
  · intro t ht
    obtain ⟨u,hu,hstart,-⟩ := htasks t ht
    have hle := h.within u hu
    rw [hmore, List.length_append, hstart]
    omega
  · intro hc t ht hphase
    obtain ⟨u,hu,hstart,hu'⟩ := htasks t ht
    obtain ⟨n,hn,hnc⟩ := h.told (hclosed ▸ hc) u hu (hu' hphase)
    rw [hmore]
    exact told_append ⟨n,hstart ▸ hn,hnc⟩ more

theorem same_tasks (s : Fanout) : ∀ t ∈ s.tasks, ∃ u ∈ s.tasks,
    t.eventRx.start = u.eventRx.start ∧ (t.phase ≠ .detached → u.phase ≠ .detached) :=
  fun t ht => ⟨t,ht,rfl,id⟩

theorem set_tasks {s : Fanout} {i : ℕ} {t u : Task} (ht : s.tasks[i]? = some t)
    (hstart : u.eventRx.start = t.eventRx.start)
    (hphase : u.phase ≠ .detached → t.phase ≠ .detached) :
    ∀ v ∈ s.tasks.set i u, ∃ w ∈ s.tasks, v.eventRx.start = w.eventRx.start ∧
      (v.phase ≠ .detached → w.phase ≠ .detached) :=
  forall_mem_set (same_tasks s) ⟨t,List.mem_of_getElem? ht,hstart,hphase⟩

theorem step_heard {s s' : Fanout} {a : SessionFanout.Action} (h : Heard s)
    (hok : ∀ sid size now, a = .attach sid size now → s.closed = false)
    (hstep : SessionFanout.step s a = some s') : Heard s' := by
  cases a with
  | read chunk =>
    simp only [SessionFanout.step, Option.ite_none_left_eq_some] at hstep
    obtain ⟨-,hstep⟩ := hstep
    split at hstep
    · cases hstep
      exact heard_of_tasks h ⟨[],by simp⟩ rfl (same_tasks s)
    · cases hstep
      exact heard_of_tasks h ⟨_,rfl⟩ rfl (same_tasks s)
  | exit =>
    simp only [SessionFanout.step, Option.ite_none_left_eq_some, Option.some.injEq] at hstep
    rw [← hstep.2]
    exact heard_of_tasks h ⟨[],by simp⟩ rfl (same_tasks s)
  | announceClosed =>
    simp only [SessionFanout.step, Option.ite_none_right_eq_some, Option.some.injEq] at hstep
    rw [← hstep.2]
    constructor
    · intro t ht
      have hle := h.within t ht
      rw [List.length_append]
      omega
    · intro _ t ht _
      exact ⟨s.log.length,h.within t ht,List.getElem?_concat_length⟩
  | attach sid size now =>
    obtain ⟨-,rfl⟩ := step_attach hstep
    constructor
    · exact forall_mem_concat h.within (Nat.le_refl _)
    · intro hc
      cases (hok sid size now rfl).symm.trans hc
  | task i act =>
    obtain ⟨-,t,u,ht,hu,rfl⟩ := step_task hstep
    obtain ⟨-,hstart,hphase⟩ := Task.act_attachment hu
    exact heard_of_tasks h ⟨[],by simp [Fanout.updated]⟩ rfl (set_tasks ht hstart (mt hphase.mpr))
  | op i op =>
    obtain ⟨t,-,-,rfl⟩ := step_op hstep
    exact heard_of_tasks h ⟨[],by simp [Fanout.locked]⟩ rfl (same_tasks s)
  | detach i now =>
    obtain ⟨t,ht,-,rfl⟩ := step_detach hstep
    exact heard_of_tasks h ⟨[],by simp [Fanout.locked]⟩ rfl
      (set_tasks ht rfl fun hp => absurd rfl hp)
  | resizePty k applied =>
    obtain ⟨i,size,-,rfl⟩ := step_resizePty hstep
    exact heard_of_tasks h ⟨[],by simp⟩ rfl (same_tasks s)
  | broadcast k =>
    obtain ⟨i,controller,-,rfl⟩ := step_broadcast hstep
    exact heard_of_tasks h ⟨_,rfl⟩ rfl (same_tasks s)

def HeardAll (h : Host) : Prop := ∀ (k : ℕ) (s : Fanout), h.manager.sessions[k]? = some s → Heard s

theorem heardAll_announced {h : Host} (hi : HeardAll h) : Announced h :=
  fun k s hk => (hi k s hk).told

theorem step_heardAll {h h' : Host} {a : SessionManager.Action} (hi : HeardAll h)
    (hok : InTime h a) (hstep : SessionManager.step h a = some h') : HeardAll h' := by
  intro k u hu
  cases ht : h.target a with
  | none =>
    rcases (step_untargeted ht hstep).2 with heq | ⟨initialSize,cap,now,heq⟩
    · rw [heq] at hu
      exact hi k u hu
    · rw [heq] at hu
      rcases getElem?_concat_cases hu with hold | ⟨-,rfl⟩
      · exact hi k u hold
      · exact ⟨nofun,nofun⟩
  | some p =>
    obtain ⟨k',b⟩ := p
    obtain ⟨s,s',hk',hb,hm,-⟩ := step_target ht hstep
    rw [hm] at hu
    rcases getElem?_set_cases hu with ⟨rfl,rfl⟩ | ⟨-,hold⟩
    · refine step_heard (hi k s hk') ?_ hb
      rintro sid size now rfl
      exact hok _ ht s hk'
    · exact hi k u hold

/-- An attach after the broadcast leaves a stream that nothing wakes. -/
theorem inTime_of_announced {h h' : Host} {a : SessionManager.Action}
    (hstep : SessionManager.step h a = some h') (hi : Announced h') : InTime h a := by
  rintro ⟨k,b⟩ ht
  match b with
  | .read _ | .exit | .announceClosed | .task _ _ | .op _ _ => trivial
  | .detach _ _ | .resizePty _ _ | .broadcast _ => trivial
  | .attach sid size now =>
    intro s hs
    by_contra hc
    obtain ⟨s₀,s',hs₀,hb,hm,-⟩ := step_target ht hstep
    obtain rfl : s = s₀ := Option.some.inj (hs.symm.trans hs₀)
    obtain ⟨-,hs'⟩ := step_attach hb
    have hk : k < h.manager.sessions.length := (List.getElem?_eq_some_iff.mp hs₀).1
    have hget : h'.manager.sessions[k]? = some s' := by
      rw [hm]
      exact List.getElem?_set_self hk
    rw [hs'] at hget
    obtain ⟨n,hn,hclosed⟩ := hi k _ hget (Bool.not_eq_false _ ▸ hc) _
      (List.mem_append_right _ List.mem_cons_self) nofun
    have hlt := (List.getElem?_eq_some_iff.mp hclosed).1
    exact absurd hlt (not_lt.mpr hn)

/-- No stream misses the exit of its shell in exactly the runs in which every attach
gets the session's lock before `Closed` is broadcast. -/
theorem exit_announced_iff {limits : Limits} {as : List SessionManager.Action} {h : Host}
    (hrun : run SessionManager.step (Host.new limits) as = some h) :
    Along SessionManager.step InTime (Host.new limits) as ↔
      ∀ bs h', bs <+: as → run SessionManager.step (Host.new limits) bs = some h' →
        Announced h' := by
  constructor
  · rintro hok bs h' ⟨cs,rfl⟩ hbs
    apply heardAll_announced
    refine run_along SessionManager.step (fun _ _ _ hi hok hstep => step_heardAll hi hok hstep) ?_
      (along_append SessionManager.step hok) hbs
    exact nofun
  · exact along_of_prefixes SessionManager.step
      (fun _ _ _ hstep hi => inTime_of_announced hstep hi) hrun

def lateAttach : List SessionManager.Action :=
  [.lookup "main" (24,80) 0 true,.session 0 .exit,.session 0 .announceClosed,
    .attach 0 1 (24,80) 1]

theorem late_attach_not_announced : ∃ h,
    run SessionManager.step (Host.new Limits.default) lateAttach = some h ∧ ¬Announced h := by
  refine ⟨_,rfl,fun h => ?_⟩
  obtain ⟨n,hn,hclosed⟩ := h 0 _ rfl rfl _ List.mem_cons_self nofun
  have hlt := (List.getElem?_eq_some_iff.mp hclosed).1
  exact absurd hlt (not_lt.mpr hn)

/-- The mark alone is not too late: here the attach comes between it and the broadcast. -/
theorem exit_announced_between : ∃ h, run SessionManager.step (Host.new Limits.default)
    [.lookup "main" (24,80) 0 true,.session 0 .exit,.attach 0 1 (24,80) 1,
      .session 0 .announceClosed] = some h ∧ Announced h := by
  refine ⟨_,rfl,?_⟩
  have hok : Along SessionManager.step InTime (Host.new Limits.default)
      [.lookup "main" (24,80) 0 true,.session 0 .exit,.attach 0 1 (24,80) 1,
        .session 0 .announceClosed] := by decide
  exact (exit_announced_iff rfl).mp hok _ _ (List.prefix_refl _) rfl

end Term.ShellExit
