import TermMux.SessionReplay

/-!
# Observers of the controller at rest

An operation's PTY resize and broadcast come after its locked update. As long
as they take effect in the order of those updates, the latest resize, applied or
still to come, is the session's size and the latest change, sent or still to
come, names its controller, except while a controller that has lost its stream
has yet to detach. The order is not enforced: two `take_control` calls whose
effects cross leave the session at rest with the wrong size and the wrong
stream in control.
-/

set_option autoImplicit false

namespace Term.SessionObservers
open Term.Broadcast Term.FrameModel Term.Machine Term.SessionState Term.SessionFanout

section Latest
variable {α : Type}

def latest (base : α) (l : List α) : α := l.getLast?.getD base

@[simp] theorem latest_concat (base : α) (l : List α) (a : α) : latest base (l++[a]) = a := by
  simp [latest]

theorem latest_append (base : α) (l m : List α) : latest base (l++m) = latest (latest base l) m := by
  unfold latest
  rw [List.getLast?_append]
  cases m.getLast? with
  | none => rfl
  | some a => rfl

theorem eq_cons_eraseIdx_zero {a : α} {l : List α} (h : l[0]? = some a) :
    l = a::l.eraseIdx 0 := by
  cases l with
  | nil => cases h
  | cons b l =>
    cases h
    rfl

theorem latest_cons (base a : α) (l : List α) : latest base (a::l) = latest a l :=
  latest_append base [a] l

end Latest

def changedIds (events : List SessionEvent) : List StreamId :=
  events.filterMap fun
    | .controllerChanged controller => some controller
    | _ => none

@[simp] theorem changedIds_append (a b : List SessionEvent) :
    changedIds (a++b) = changedIds a++changedIds b := List.filterMap_append

def statuses (frames : List Frame) : List UInt8 :=
  frames.filterMap fun f =>
    match f.body with
    | .controllerChanged status => some status
    | _ => none

@[simp] theorem statuses_append (a b : List Frame) : statuses (a++b) = statuses a++statuses b :=
  List.filterMap_append

theorem statuses_dataFrames (sid : StreamId) (bytes : ByteOrder.Bytes) :
    statuses (dataFrames sid bytes) = [] := by
  apply List.filterMap_eq_nil_iff.mpr
  intro f hf
  obtain ⟨c,-,rfl⟩ := List.mem_map.mp hf
  rfl

theorem changedStatus_self {sid controller : StreamId} (h : sid ≠ controlStream) :
    changedStatus sid controller = controllerStatusSelf ↔ controller = sid := by
  unfold changedStatus
  by_cases h0 : controller = controllerNoneStreamId
  · rw [if_pos h0]
    constructor
    · intro heq
      exact absurd heq (by decide)
    · intro heq
      exact absurd (heq.symm.trans h0) h
  · rw [if_neg h0]
    by_cases hs : controller = sid
    · simp [hs]
    · rw [if_neg hs]
      constructor
      · intro heq
        exact absurd heq (by decide)
      · intro heq
        exact absurd heq hs

theorem initialStatus_self {sid : StreamId} {current : Option StreamId} (h : sid ≠ controlStream) :
    initialStatus sid current = controllerStatusSelf ↔
      current.getD controllerNoneStreamId = sid := by
  cases current with
  | none =>
    constructor
    · intro heq
      have hne : controllerStatusNone ≠ controllerStatusSelf := by decide
      exact absurd heq hne
    · intro heq
      exact absurd heq.symm h
  | some c =>
    rw [Option.getD_some]
    unfold initialStatus
    by_cases hs : c = sid
    · simp [hs]
    · simp only [if_neg hs]
      constructor
      · intro heq
        exact absurd heq (by decide)
      · intro heq
        exact absurd heq hs

def Before (t : Task) : Prop := t.phase = .attaching ∨ t.phase = .replaying

structure Told (log : List SessionEvent) (t : Task) : Prop where
  within : t.eventRx.Within log
  sid_ne : t.sid ≠ controlStream
  quiet : Before t → t.eventRx.seen log = [] ∧ statuses (t.sent++t.todo) = []
  told : ¬Before t → t.eventRx.lagged = false → t.failed = false →
    ((statuses (t.sent++t.todo)).getLast? = some controllerStatusSelf ↔
      latest (t.currentController.getD controllerNoneStreamId)
        (changedIds (t.eventRx.seen log)) = t.sid)

theorem Told.append {log : List SessionEvent} {t : Task} (h : Told log t)
    (more : List SessionEvent) : Told (log++more) t := by
  refine ⟨h.within.append more,h.sid_ne,?_,?_⟩
  · rw [h.within.seen_append]
    exact h.quiet
  · rw [h.within.seen_append]
    exact h.told

theorem Told.phase {log : List SessionEvent} {t : Task} (h : Told log t) (phase : Phase)
    (hb : Before { t with phase := phase } ↔ Before t) : Told log { t with phase := phase } :=
  ⟨h.within,h.sid_ne,fun hq => h.quiet (hb.mp hq),fun hq => h.told fun ht => hq (hb.mpr ht)⟩

theorem Told.send {log : List SessionEvent} {t u : Task} (h : Told log t)
    (hsend : t.send = some u) : Told log u := by
  rcases Task.send_cases hsend with ⟨-,phase,todo,hsub,hphase,rfl⟩ |
    ⟨-,f,rest,phase,htodo,hphase,rfl⟩ | ⟨-,hreplay,htodo,rfl⟩
  · refine ⟨h.within,h.sid_ne,?_,fun _ _ hfail => nomatch hfail⟩
    intro hq
    have hbefore : Before t := by
      rcases hphase with rfl | rfl | rfl
      · exact hq
      · rcases hq with hq | hq <;> cases hq
      · rcases hq with hq | hq <;> cases hq
    have hquiet := h.quiet hbefore
    refine ⟨hquiet.1,?_⟩
    rw [statuses_append, List.append_eq_nil_iff] at hquiet ⊢
    refine ⟨hquiet.2.1,?_⟩
    apply List.filterMap_eq_nil_iff.mpr
    intro f hf
    exact List.filterMap_eq_nil_iff.mp hquiet.2.2 f (hsub hf)
  · have hmove : t.sent++[f]++rest = t.sent++t.todo := by
      rw [htodo, List.append_assoc, List.singleton_append]
    have hbefore : Before { t with phase := phase, todo := rest, sent := t.sent++[f] } ↔
        Before t := by
      rcases hphase with rfl | ⟨hlive,rfl⟩
      · exact Iff.rfl
      · simp [Before, hlive]
    refine ⟨h.within,h.sid_ne,?_,?_⟩
    · intro hq
      rw [hmove]
      exact h.quiet (hbefore.mp hq)
    · intro hq
      rw [hmove]
      exact h.told fun ht => hq (hbefore.mpr ht)
  · have hquiet := h.quiet (.inr hreplay)
    refine ⟨h.within,h.sid_ne,?_,?_⟩
    · intro hq
      rcases hq with hq | hq <;> cases hq
    · intro _ _ _
      change (statuses ((t.sent++[_])++t.todo)).getLast? = _ ↔ latest _ (changedIds (t.eventRx.seen log)) = _
      rw [hquiet.1, htodo, List.append_nil, statuses_append]
      change (statuses t.sent++[initialStatus t.sid t.currentController]).getLast? = _ ↔ _
      rw [List.getLast?_concat, Option.some.injEq]
      exact initialStatus_self h.sid_ne

theorem Told.recv {log : List SessionEvent} {t u : Task} (h : Told log t)
    (hrecv : t.recv log = some u) : Told log u := by
  obtain ⟨hlive,htodo,rx,hwithin,-,hcase⟩ := Task.recv_cases h.within hrecv
  have hafter : ¬Before t := by
    simp [Before, hlive]
  rcases hcase with ⟨hlag,rfl⟩ | ⟨hlag,event,hseen,rfl⟩
  · refine ⟨hwithin,h.sid_ne,fun hq => absurd hq hafter,?_⟩
    intro _ hno
    rw [hlag] at hno
    cases hno
  · refine ⟨hwithin,h.sid_ne,fun hq => absurd hq hafter,?_⟩
    intro _ hno hfail
    have htold := h.told hafter (hlag.symm.trans hno) hfail
    rw [htodo, List.append_nil] at htold
    change (statuses (t.sent++eventFrames t.sid event)).getLast? = _ ↔
      latest _ (changedIds (rx.seen log)) = _
    rw [hseen, changedIds_append, statuses_append]
    cases event with
    | data bytes =>
      change (statuses t.sent++statuses (dataFrames t.sid bytes)).getLast? = _ ↔
        latest _ (changedIds (t.eventRx.seen log)++[]) = _
      rw [statuses_dataFrames, List.append_nil, List.append_nil]
      exact htold
    | controllerChanged controller =>
      change (statuses t.sent++[changedStatus t.sid controller]).getLast? = _ ↔
        latest _ (changedIds (t.eventRx.seen log)++[controller]) = _
      rw [List.getLast?_concat, Option.some.injEq, latest_concat]
      exact changedStatus_self h.sid_ne
    | closed =>
      change (statuses t.sent++[]).getLast? = _ ↔
        latest _ (changedIds (t.eventRx.seen log)++[]) = _
      rw [List.append_nil, List.append_nil]
      exact htold

theorem Told.act {log : List SessionEvent} {t u : Task} {a : TaskAct} (h : Told log t)
    (hact : t.act log a = some u) : Told log u := by
  rcases Task.act_cases hact with hsend | hrecv | ⟨hattaching,rfl⟩ | ⟨hlive,rfl⟩ | rfl
  · exact h.send hsend
  · exact h.recv hrecv
  · exact h.phase .replaying (by simp [Before, hattaching])
  · exact h.phase .winding (by simp [Before, hlive])
  · exact ⟨h.within,h.sid_ne,h.quiet,h.told⟩

theorem new_told {sid : StreamId} (log : List SessionEvent) (inner : SessionInner)
    (current : Option StreamId) (h : sid ≠ controlStream) :
    Told log (Task.new sid log inner current) := by
  refine ⟨subscribe_within log,h,?_,?_⟩
  · intro _
    exact ⟨subscribe_seen log,statuses_dataFrames sid _⟩
  · intro hno
    exact absurd (.inl rfl) hno

def ctrlId (inner : SessionInner) : StreamId := inner.controller.getD controllerNoneStreamId

theorem ctrlId_eq_iff {inner : SessionInner} {sid : StreamId} (h : sid ≠ controllerNoneStreamId) :
    ctrlId inner = sid ↔ inner.controller = some sid := by
  unfold ctrlId
  cases inner.controller with
  | none =>
    constructor
    · intro heq
      exact absurd heq.symm h
    · intro heq
      cases heq
  | some c => rw [Option.getD_some, Option.some.injEq]

def view (s : Fanout) (start : ℕ) (base : StreamId) : StreamId :=
  latest base (changedIds (s.log.drop start)++s.changes.map Prod.snd)

theorem view_concat {s : Fanout} {start : ℕ} {base : StreamId} {before : List (ℕ × StreamId)}
    {p : ℕ × StreamId} (h : s.changes = before++[p]) : view s start base = p.2 := by
  rw [view, h, List.map_append, ← List.append_assoc]
  exact latest_concat base _ p.2

/-- The controller's task has ended its loops and has yet to detach. -/
def Orphan (s : Fanout) : Prop :=
  ∃ t ∈ s.tasks, t.phase = .winding ∧ s.inner.controller = some t.sid

def Agree (s : Fanout) (start : ℕ) (base : StreamId) : Prop :=
  view s start base = ctrlId s.inner ∨ Orphan s

theorem Agree.congr {s s' : Fanout} {start : ℕ} {base : StreamId} (h : Agree s start base)
    (hview : view s' start base = view s start base)
    (hctrl : s'.inner.controller = s.inner.controller) (horphan : Orphan s → Orphan s') :
    Agree s' start base := by
  rcases h with heq | ho
  · left
    rw [hview, heq, ctrlId, ctrlId, hctrl]
  · exact .inr (horphan ho)

/-- A locked update keeps every listener in agreement: it announces each change it makes. -/
theorem Agree.locked {s : Fanout} {start i : ℕ} {base sid : StreamId} {l : Locked}
    (h : Agree s start base) (hm : Moves s.inner sid l) : Agree (s.locked i l) start base := by
  have hquiet : l.changed = none → view (s.locked i l) start base = view s start base := by
    intro hnone
    simp [view, Fanout.locked, hnone]
  have hlast : ∀ c, l.changed = some c → view (s.locked i l) start base = c := by
    intro c hsome
    have hchanges : (s.locked i l).changes = s.changes++[(i,c)] := by
      simp only [Fanout.locked, hsome, Option.toList_some, List.map_cons, List.map_nil]
    exact view_concat hchanges
  cases hm with
  | idle hc hs hr hch =>
    refine h.congr (hquiet hch) hc ?_
    rintro ⟨t,ht,hp,hold⟩
    exact ⟨t,ht,hp,hc.trans hold⟩
  | granted hc hr hch =>
    left
    rw [hlast sid hch, ctrlId]
    change sid = l.inner.controller.getD _
    rw [hc, Option.getD_some]
  | resized hold hc hr hch =>
    refine h.congr (hquiet hch) (hc.trans hold.symm) ?_
    rintro ⟨t,ht,hp,hctrl⟩
    exact ⟨t,ht,hp,(hc.trans hold.symm).trans hctrl⟩
  | released hold hc hr hch =>
    left
    rw [hlast _ hch, ctrlId]
    change _ = l.inner.controller.getD _
    rw [hc, Option.getD_none]

theorem view_append_quiet {s s' : Fanout} {start : ℕ} {base : StreamId}
    {more : List SessionEvent} (hlog : s'.log = s.log++more) (hchanges : s'.changes = s.changes)
    (hstart : start ≤ s.log.length) (hmore : changedIds more = []) :
    view s' start base = view s start base := by
  rw [view, hlog, hchanges, List.drop_append_of_le_length hstart, changedIds_append, hmore,
    List.append_nil, view]

def Sized (s : Fanout) : Prop :=
  s.inner.controller.isSome = true → latest s.ptySize (s.resizes.map Prod.snd) = s.inner.lastSize

theorem Sized.locked {s : Fanout} {i : ℕ} {sid : StreamId} {l : Locked} (h : Sized s)
    (hm : Moves s.inner sid l) : Sized (s.locked i l) := by
  have hlast : l.resize = some l.inner.lastSize → Sized (s.locked i l) := by
    intro hsome _
    simp only [Fanout.locked, hsome, Option.toList_some, List.map_append, List.map_cons,
      List.map_nil]
    exact latest_concat _ _ _
  cases hm with
  | idle hc hs hr hch =>
    intro hsome
    have hold := h (by rw [← hc]; exact hsome)
    simp only [Fanout.locked, hr, Option.toList_none, List.map_nil, List.append_nil]
    rw [hold, hs]
  | granted hc hr hch => exact hlast hr
  | resized hold hc hr hch => exact hlast hr
  | released hold hc hr hch =>
    intro hsome
    change l.inner.controller.isSome = true at hsome
    rw [hc] at hsome
    cases hsome

def Owned (s : Fanout) : Prop :=
  ∀ p ∈ s.changes, p.2 = controllerNoneStreamId ∨ ∃ t, s.tasks[p.1]? = some t ∧ p.2 = t.sid

theorem Owned.locked {s s' : Fanout} {i : ℕ} {t : Task} {l : Locked} (h : Owned s)
    (hm : Moves s.inner t.sid l) (hchanges : s'.changes = (s.locked i l).changes)
    (htasks : ∀ (j : ℕ) (u : Task), s.tasks[j]? = some u → ∃ v : Task, s'.tasks[j]? = some v ∧ v.sid = u.sid)
    (hi : ∃ v : Task, s'.tasks[i]? = some v ∧ v.sid = t.sid) : Owned s' := by
  intro p hp
  rw [hchanges] at hp
  rcases List.mem_append.mp hp with hold | hnew
  · rcases h p hold with h0 | ⟨u,hu,hsid⟩
    · exact .inl h0
    · obtain ⟨v,hv,hvsid⟩ := htasks p.1 u hu
      exact .inr ⟨v,hv,hsid.trans hvsid.symm⟩
  · obtain ⟨c,hc,rfl⟩ := List.mem_map.mp hnew
    rw [Option.mem_toList] at hc
    cases hm with
    | idle _ _ _ hch =>
      rw [hch] at hc
      cases hc
    | granted _ _ hch =>
      rw [hch] at hc
      cases hc
      obtain ⟨v,hv,hvsid⟩ := hi
      exact .inr ⟨v,hv,hvsid.symm⟩
    | resized _ _ _ hch =>
      rw [hch] at hc
      cases hc
    | released _ _ _ hch =>
      rw [hch] at hc
      cases hc
      exact .inl rfl

theorem getElem?_set_sid {tasks : List Task} {i : ℕ} {t u : Task} (ht : tasks[i]? = some t)
    (hsid : u.sid = t.sid) (j : ℕ) (v : Task) (hv : tasks[j]? = some v) :
    ∃ w, (tasks.set i u)[j]? = some w ∧ w.sid = v.sid := by
  by_cases heq : i = j
  · subst heq
    rw [ht] at hv
    cases hv
    exact ⟨u,List.getElem?_set_self (List.getElem?_eq_some_iff.mp ht).1,hsid⟩
  · exact ⟨v,by rw [List.getElem?_set_ne heq, hv],rfl⟩

/-- The last change still to come names its task, so the task has the lease. -/
theorem Owned.last_controller {s : Fanout} {start : ℕ} {base : StreamId} {t : Task}
    {before : List (ℕ × StreamId)} {p : ℕ × StreamId} (h : Owned s)
    (hlast : s.changes = before++[p]) (hp : p.2 ≠ controllerNoneStreamId)
    (ht : s.tasks[p.1]? = some t) (hview : view s start base = ctrlId s.inner) :
    s.inner.controller = some t.sid := by
  have hmem : p ∈ s.changes := by
    rw [hlast]
    exact List.mem_append_right _ List.mem_cons_self
  rw [view_concat hlast] at hview
  rcases h p hmem with h0 | ⟨v,hv,hsid⟩
  · exact absurd h0 hp
  · rw [ht, Option.some.injEq] at hv
    rw [hv, ← hsid]
    exact (ctrlId_eq_iff hp).mp hview.symm

theorem Orphan.updated {s : Fanout} {i : ℕ} {t u : Task} (h : Orphan s)
    (ht : s.tasks[i]? = some t) (hsid : u.sid = t.sid)
    (hwind : t.phase = .winding → u.phase = .winding) : Orphan (s.updated i u) := by
  obtain ⟨v,hv,hp,hc⟩ := h
  rcases mem_set_or_eq u ht hv with hmem | heq
  · exact ⟨v,hmem,hp,hc⟩
  · refine ⟨u,mem_set_self u ht,hwind (heq ▸ hp),?_⟩
    rw [hsid, ← heq]
    exact hc

/-- A task moves on: its dropped broadcast named it as the controller, and it will
detach. -/
theorem Agree.updated {s : Fanout} {start i : ℕ} {base : StreamId} {t u : Task}
    (h : Agree s start base) (howned : Owned s) (ht : s.tasks[i]? = some t)
    (hsid : u.sid = t.sid) (hwind : t.phase = .winding → u.phase = .winding) :
    Agree (s.updated i u) start base := by
  have horphan : Orphan s → Orphan (s.updated i u) := fun ho => ho.updated ht hsid hwind
  by_cases hw : u.phase = .winding
  · have hchanges : (s.updated i u).changes =
        s.changes.filter fun p => p.1 ≠ i ∨ p.2 = controllerNoneStreamId := by
      simp only [Fanout.updated, if_pos hw]
    rcases List.eq_nil_or_concat' s.changes with hnil | ⟨before,p,hlast⟩
    · refine h.congr ?_ rfl horphan
      rw [view, view, hchanges, hnil]
      rfl
    · by_cases hkeep : p.1 ≠ i ∨ p.2 = controllerNoneStreamId
      · refine h.congr ?_ rfl horphan
        rw [hlast, List.filter_append, List.filter_cons_of_pos (by simpa using hkeep),
          List.filter_nil] at hchanges
        rw [view_concat hchanges, view_concat hlast]
      · rcases h with hview | ho
        · -- The last change is the dropped one, so the controller is this task.
          have hpi : p.1 = i := by
            by_contra hne
            exact hkeep (.inl hne)
          have hp0 : p.2 ≠ controllerNoneStreamId := fun h0 => hkeep (.inr h0)
          rw [← hpi] at ht
          right
          refine ⟨u,hpi ▸ mem_set_self u ht,hw,?_⟩
          rw [hsid]
          exact howned.last_controller hlast hp0 ht hview
        · exact .inr (horphan ho)
  · refine h.congr ?_ rfl horphan
    simp only [view, Fanout.updated, if_neg hw]

theorem Owned.updated {s : Fanout} {i : ℕ} {t u : Task} (h : Owned s)
    (ht : s.tasks[i]? = some t) (hsid : u.sid = t.sid) : Owned (s.updated i u) := by
  intro p hp
  have hmem : p ∈ s.changes := by
    by_cases hw : u.phase = .winding
    · simp only [Fanout.updated, if_pos hw] at hp
      exact (List.mem_filter.mp hp).1
    · simp only [Fanout.updated, if_neg hw] at hp
      exact hp
  rcases h p hmem with h0 | ⟨v,hv,hvsid⟩
  · exact .inl h0
  · obtain ⟨w,hw,hwsid⟩ := getElem?_set_sid ht hsid p.1 v hv
    exact .inr ⟨w,hw,hvsid.trans hwsid.symm⟩

theorem detach_controller (inner : SessionInner) (sid : StreamId) (now : ℕ) :
    (inner.detach sid now).inner.controller ≠ some sid := by
  rcases detach_cases inner sid now with ⟨-,heq⟩ | ⟨hother,heq⟩
  · rw [heq]
    exact nofun
  · rw [heq]
    exact hother

structure Settling (s : Fanout) : Prop where
  sized : Sized s
  owned : Owned s
  announced : Agree s 0 controllerNoneStreamId
  tasks : ∀ t ∈ s.tasks, Told s.log t ∧
    Agree s t.eventRx.start (t.currentController.getD controllerNoneStreamId)

/-- The effects of locked updates take place in their order: no earlier resize, or
broadcast, is still to come. A resize succeeds and is not of a zero dimension. -/
def InOrder (s : Fanout) : Action → Prop
  | .resizePty k applied =>
    k = 0 ∧ applied = true ∧ ∀ p ∈ s.resizes[k]?, clampSize p.2 = p.2
  | .broadcast k => k = 0
  | _ => True

instance (s : Fanout) (a : Action) : Decidable (InOrder s a) := by
  cases a with
  | resizePty k applied => exact inferInstanceAs (Decidable (_ ∧ _))
  | broadcast k => exact inferInstanceAs (Decidable (_ = _))
  | _ => exact inferInstanceAs (Decidable True)

theorem reader_settling {s s' : Fanout} {a : Action} (h : Settling s)
    (ha : (∃ chunk, a = .read chunk) ∨ a = .exit ∨ a = .announceClosed)
    (hstep : step s a = some s') : Settling s' := by
  obtain ⟨inner,osc,closed,more,rfl,hctrl,hsize,-,hmore⟩ := step_reader ha hstep
  have hquiet : changedIds more = [] := by
    rcases hmore with ⟨-,hm | hm⟩ | ⟨bytes,-,hm⟩ <;>
    · rw [hm]
      rfl
  have hagree : ∀ start base, start ≤ s.log.length → Agree s start base →
      Agree { s with inner := inner, osc := osc, closed := closed, log := s.log++more } start
        base := by
    intro start base hstart hold
    refine hold.congr (view_append_quiet rfl rfl hstart hquiet) hctrl ?_
    rintro ⟨t,ht,hp,hc⟩
    exact ⟨t,ht,hp,hctrl.trans hc⟩
  refine ⟨?_,h.owned,hagree 0 _ (Nat.zero_le _) h.announced,?_⟩
  · intro hsome
    change inner.controller.isSome = true at hsome
    rw [hctrl] at hsome
    change latest s.ptySize (s.resizes.map Prod.snd) = inner.lastSize
    rw [hsize]
    exact h.sized hsome
  · intro t ht
    obtain ⟨htold,hag⟩ := h.tasks t ht
    exact ⟨htold.append more,hagree _ _ (htold.within.start_le.trans htold.within.next_le) hag⟩

theorem attach_settling {s : Fanout} (h : Settling s) {sid : StreamId} (size : Size) (now : ℕ)
    (hsid : sid ≠ controlStream) :
    Settling { s.locked s.tasks.length (s.inner.attach sid size now) with
      tasks := s.tasks++[Task.new sid s.log s.inner
        (s.inner.attach sid size now).inner.controller] } := by
  have hmoves := attach_moves s.inner sid size now
  set l := s.inner.attach sid size now with hl
  set new := Task.new sid s.log s.inner l.inner.controller with hnew
  have hmono : ∀ start base, Agree (s.locked s.tasks.length l) start base →
      Agree { s.locked s.tasks.length l with tasks := s.tasks++[new] } start base := by
    intro start base hold
    refine hold.congr rfl rfl ?_
    rintro ⟨t,ht,hp,hc⟩
    exact ⟨t,List.mem_append_left _ ht,hp,hc⟩
  refine ⟨h.sized.locked hmoves,?_,hmono _ _ (h.announced.locked hmoves),?_⟩
  · refine h.owned.locked (t := new) hmoves rfl ?_ ?_
    · intro j u hu
      exact ⟨u,by rw [List.getElem?_append_left (List.getElem?_eq_some_iff.mp hu).1, hu],rfl⟩
    · exact ⟨new,List.getElem?_concat_length,rfl⟩
  · intro t ht
    rcases List.mem_append.mp ht with hmem | heq
    · exact ⟨(h.tasks t hmem).1,hmono _ _ ((h.tasks t hmem).2.locked hmoves)⟩
    · rw [List.mem_singleton.mp heq]
      refine ⟨new_told s.log s.inner _ hsid,?_⟩
      -- The new listener starts from the controller itself, or waits for the same changes.
      rcases h.announced.locked (i := s.tasks.length) hmoves with hview | ⟨v,hv,hp,hc⟩
      · left
        have hdrop : s.log.drop s.log.length = [] := List.drop_length
        change latest (ctrlId l.inner) (changedIds (s.log.drop s.log.length)++
          (s.locked s.tasks.length l).changes.map Prod.snd) = ctrlId l.inner
        rw [hdrop]
        change latest (ctrlId l.inner) ((s.locked s.tasks.length l).changes.map Prod.snd) = _
        rw [view, latest_append] at hview
        cases hlast : ((s.locked s.tasks.length l).changes.map Prod.snd).getLast? with
        | none => rw [latest, hlast, Option.getD_none]
        | some c =>
          rw [latest, hlast, Option.getD_some] at hview
          rw [latest, hlast, Option.getD_some]
          exact hview
      · exact .inr ⟨v,List.mem_append_left _ hv,hp,hc⟩

theorem task_settling {s : Fanout} (h : Settling s) {i : ℕ} {t u : Task} {act : TaskAct}
    (ht : s.tasks[i]? = some t) (hact : t.act s.log act = some u) : Settling (s.updated i u) := by
  obtain ⟨htold,htask⟩ := h.tasks t (List.mem_of_getElem? ht)
  obtain ⟨hsid,hcur,hstart,hwind⟩ := Task.act_keeps htold.within hact
  refine ⟨h.sized,h.owned.updated ht hsid,h.announced.updated h.owned ht hsid hwind,?_⟩
  intro v hv
  rcases List.mem_or_eq_of_mem_set hv with hmem | heq
  · exact ⟨(h.tasks v hmem).1,(h.tasks v hmem).2.updated h.owned ht hsid hwind⟩
  · rw [heq, hstart, hcur]
    exact ⟨htold.act hact,htask.updated h.owned ht hsid hwind⟩

theorem op_settling {s : Fanout} (h : Settling s) {i : ℕ} {t : Task} (op : Op)
    (ht : s.tasks[i]? = some t) : Settling (s.locked i (op.locked s.inner t.sid)) := by
  have hmoves := locked_moves s.inner t.sid op
  refine ⟨h.sized.locked hmoves,?_,h.announced.locked hmoves,?_⟩
  · exact h.owned.locked hmoves rfl (fun j u hu => ⟨u,hu,rfl⟩) ⟨t,ht,rfl⟩
  · intro v hv
    exact ⟨(h.tasks v hv).1,(h.tasks v hv).2.locked hmoves⟩

theorem detach_settling {s : Fanout} (h : Settling s) {i : ℕ} {t : Task} (now : ℕ)
    (ht : s.tasks[i]? = some t) (hp : t.phase = .winding) :
    Settling { s.locked i (s.inner.detach t.sid now) with
      tasks := s.tasks.set i { t with phase := .detached } } := by
  have hmoves := detach_moves s.inner t.sid now
  have hgone := detach_controller s.inner t.sid now
  have hset : ∀ start base, Agree (s.locked i (s.inner.detach t.sid now)) start base →
      Agree { s.locked i (s.inner.detach t.sid now) with
        tasks := s.tasks.set i { t with phase := .detached } } start base := by
    intro start base hold
    refine hold.congr rfl rfl ?_
    rintro ⟨v,hv,hvp,hc⟩
    rcases mem_set_or_eq { t with phase := .detached } ht hv with hmem | heq
    · exact ⟨v,hmem,hvp,hc⟩
    · rw [heq] at hc
      exact absurd hc hgone
  refine ⟨h.sized.locked hmoves,?_,hset _ _ (h.announced.locked hmoves),?_⟩
  · refine h.owned.locked (t := t) hmoves rfl (getElem?_set_sid ht rfl) ?_
    exact getElem?_set_sid (u := { t with phase := .detached }) ht rfl i t ht
  · intro v hv
    rcases List.mem_or_eq_of_mem_set hv with hmem | heq
    · exact ⟨(h.tasks v hmem).1,hset _ _ ((h.tasks v hmem).2.locked hmoves)⟩
    · rw [heq]
      obtain ⟨htold,htask⟩ := h.tasks t (List.mem_of_getElem? ht)
      exact ⟨htold.phase .detached (by simp [Before, hp]),hset _ _ (htask.locked hmoves)⟩

theorem resizePty_settling {s s' : Fanout} (h : Settling s) {k : ℕ} {applied : Bool}
    (hok : InOrder s (.resizePty k applied)) (hstep : step s (.resizePty k applied) = some s') :
    Settling s' := by
  obtain ⟨i,size,hget,rfl⟩ := step_resizePty hstep
  obtain ⟨rfl,rfl,hclamp⟩ := hok
  refine ⟨?_,h.owned,h.announced,h.tasks⟩
  intro hsome
  rw [← h.sized hsome]
  change latest (clampSize size) ((s.resizes.eraseIdx 0).map Prod.snd) =
    latest s.ptySize (s.resizes.map Prod.snd)
  rw [hclamp (i,size) hget, eq_cons_eraseIdx_zero hget, List.map_cons, latest_cons]
  rfl

theorem broadcast_settling {s s' : Fanout} (h : Settling s) {k : ℕ}
    (hok : InOrder s (.broadcast k)) (hstep : step s (.broadcast k) = some s') : Settling s' := by
  obtain ⟨i,controller,hget,rfl⟩ := step_broadcast hstep
  cases hok
  have hchanges : s.changes.map Prod.snd = controller::(s.changes.eraseIdx 0).map Prod.snd :=
    congrArg (List.map Prod.snd) (eq_cons_eraseIdx_zero hget)
  have hagree : ∀ start base, start ≤ s.log.length → Agree s start base →
      Agree { s with
        log := s.log++[.controllerChanged controller]
        changes := s.changes.eraseIdx 0 } start base := by
    intro start base hstart hold
    refine hold.congr ?_ rfl (fun ho => ho)
    rw [view, view, hchanges, List.drop_append_of_le_length hstart, changedIds_append,
      List.append_assoc]
    rfl
  refine ⟨h.sized,?_,hagree 0 _ (Nat.zero_le _) h.announced,?_⟩
  · intro p hp
    exact h.owned p (List.mem_of_mem_eraseIdx hp)
  · intro t ht
    obtain ⟨htold,hag⟩ := h.tasks t ht
    exact ⟨htold.append _,hagree _ _ (htold.within.start_le.trans htold.within.next_le) hag⟩

theorem step_settling (s : Fanout) (a : Action) (s' : Fanout) (h : Settling s) (hok : InOrder s a)
    (hstep : step s a = some s') : Settling s' := by
  cases a with
  | read chunk => exact reader_settling h (.inl ⟨chunk,rfl⟩) hstep
  | exit => exact reader_settling h (.inr (.inl rfl)) hstep
  | announceClosed => exact reader_settling h (.inr (.inr rfl)) hstep
  | attach sid size now =>
    obtain ⟨hsid,rfl⟩ := step_attach hstep
    exact attach_settling h size now hsid
  | task i act =>
    obtain ⟨-,t,u,ht,hact,rfl⟩ := step_task hstep
    exact task_settling h ht hact
  | op i op =>
    obtain ⟨t,ht,-,rfl⟩ := step_op hstep
    exact op_settling h op ht
  | detach i now =>
    obtain ⟨t,ht,hp,rfl⟩ := step_detach hstep
    exact detach_settling h now ht hp
  | resizePty k applied => exact resizePty_settling h hok hstep
  | broadcast k => exact broadcast_settling h hok hstep

theorem spawn_settling (initialSize : Size) (cap now : ℕ) :
    Settling (Fanout.spawn initialSize cap now) := by
  refine ⟨?_,?_,.inl rfl,?_⟩
  · intro hsome
    cases hsome
  · intro p hp
    cases hp
  · intro t ht
    cases ht

def AtRest (s : Fanout) : Prop :=
  s.resizes = [] ∧ s.changes = [] ∧ ∀ t ∈ s.tasks, t.phase ≠ .winding

def SizeAgrees (s : Fanout) : Prop :=
  s.inner.controller.isSome = true → s.ptySize = s.inner.lastSize

def BroadcastAgrees (s : Fanout) : Prop :=
  latest controllerNoneStreamId (changedIds s.log) = ctrlId s.inner

/-- The last status an attached stream was sent, once its queue is drained, is SELF
exactly if it is the controller. -/
def StatusAgrees (s : Fanout) (t : Task) : Prop :=
  t.phase ≠ .detached → t.eventRx.lagged = false → SessionReplay.Drained s t →
    ((statuses t.sent).getLast? = some controllerStatusSelf ↔ s.inner.controller = some t.sid)

def ObserversAgree (s : Fanout) : Prop :=
  SizeAgrees s ∧ BroadcastAgrees s ∧ ∀ t ∈ s.tasks, StatusAgrees s t

instance (s : Fanout) : Decidable (AtRest s) := inferInstanceAs (Decidable (_ ∧ _ ∧ _))
instance (s : Fanout) : Decidable (SizeAgrees s) := inferInstanceAs (Decidable (_ → _))
instance (s : Fanout) (t : Task) : Decidable (StatusAgrees s t) :=
  inferInstanceAs (Decidable (_ → _ → _ → (_ ↔ _)))
instance (s : Fanout) : Decidable (BroadcastAgrees s) := inferInstanceAs (Decidable (_ = _))
instance (s : Fanout) : Decidable (ObserversAgree s) := inferInstanceAs (Decidable (_ ∧ _ ∧ _))

theorem Settling.status {s : Fanout} (h : Settling s) (hrest : AtRest s) {t : Task}
    (ht : t ∈ s.tasks) : StatusAgrees s t := by
  intro _ hlag hdrained
  obtain ⟨hattach,hreplay,htodo,hnext,hfail⟩ := hdrained
  obtain ⟨htold,hagree⟩ := h.tasks t ht
  have hbefore : ¬Before t := by
    intro hb
    rcases hb with hb | hb
    · exact hattach hb
    · exact hreplay hb
  have hstatus := htold.told hbefore hlag hfail
  rw [htodo, List.append_nil, Receiver.seen_of_drained hnext] at hstatus
  rw [hstatus]
  rcases hagree with hview | ⟨u,hu,hp,-⟩
  · rw [view, hrest.2.1, List.map_nil, List.append_nil] at hview
    rw [hview]
    exact ctrlId_eq_iff htold.sid_ne
  · exact absurd hp (hrest.2.2 u hu)

/-- In every run whose resizes and broadcasts take place in the order of the locked
updates, and whose applied sizes are not clamped, every state at rest has the
PTY at the controller's size, the last broadcast naming the controller, and each
drained stream told SELF exactly if it is the controller. -/
theorem observers_agree_at_rest (initialSize : Size) (cap now : ℕ) (as : List Action) (s : Fanout)
    (hrun : run step (Fanout.spawn initialSize cap now) as = some s)
    (hok : Along step InOrder (Fanout.spawn initialSize cap now) as) (hrest : AtRest s) :
    ObserversAgree s := by
  have h : Settling s :=
    run_along step step_settling (spawn_settling initialSize cap now) hok hrun
  refine ⟨?_,?_,fun t ht => h.status hrest ht⟩
  · intro hsome
    have hsized := h.sized hsome
    rw [hrest.1] at hsized
    exact hsized
  · rcases h.announced with hview | ⟨u,hu,hp,-⟩
    · rw [view, hrest.2.1, List.map_nil, List.append_nil, List.drop_zero] at hview
      exact hview
    · exact absurd hp (hrest.2.2 u hu)

def twoTabs : List Action :=
  [.attach 1 (24,80) 0,.resizePty 0 true,.broadcast 0,.task 0 .start,.task 0 .send,
    .attach 2 (50,132) 1,.task 1 .start,.task 1 .send]

def takeovers : List Action := [.op 1 .takeControl,.op 0 .takeControl]

def drain : List Action :=
  [.task 0 .recv,.task 0 .send,.task 0 .recv,.task 0 .send,.task 0 .recv,.task 0 .send,
    .task 1 .recv,.task 1 .send,.task 1 .recv,.task 1 .send]

theorem observers_agree_at_rest_takeovers :
    ∃ s, run step (Fanout.spawn (24,80) defaultScrollbackCapBytes 0) (twoTabs++takeovers++
        [.resizePty 0 true,.broadcast 0,.resizePty 0 true,.broadcast 0]++drain) = some s ∧
      AtRest s ∧ s.inner.controller = some 1 ∧ ObserversAgree s := by
  have heval : (run step (Fanout.spawn (24,80) defaultScrollbackCapBytes 0) (twoTabs++takeovers++
      [.resizePty 0 true,.broadcast 0,.resizePty 0 true,.broadcast 0]++drain)).any
      (fun s => AtRest s ∧ s.inner.controller = some 1) = true := by
    decide +kernel
  obtain ⟨s,hs,hfacts⟩ := (Option.any_eq_true _ _).mp heval
  have hfacts := of_decide_eq_true hfacts
  exact ⟨s,hs,hfacts.1,hfacts.2,observers_agree_at_rest _ _ _ _ s hs (by decide +kernel) hfacts.1⟩

/-- The effects cross: the session comes to rest with the second tab's size on the PTY
and both tabs told the opposite of who is in control. -/
theorem crossed_takeovers_disagree :
    ∃ s, run step (Fanout.spawn (24,80) defaultScrollbackCapBytes 0) (twoTabs++takeovers++
        [.resizePty 1 true,.broadcast 1,.resizePty 0 true,.broadcast 0]++drain) = some s ∧
      AtRest s ∧ s.inner.controller = some 1 ∧ s.inner.lastSize = (24,80) ∧
      s.ptySize = (50,132) ∧ ¬BroadcastAgrees s ∧ (∀ t ∈ s.tasks, ¬StatusAgrees s t) ∧
      ¬ObserversAgree s := by
  have heval : (run step (Fanout.spawn (24,80) defaultScrollbackCapBytes 0) (twoTabs++takeovers++
      [.resizePty 1 true,.broadcast 1,.resizePty 0 true,.broadcast 0]++drain)).any
      (fun s => AtRest s ∧ s.inner.controller = some 1 ∧ s.inner.lastSize = (24,80) ∧
        s.ptySize = (50,132) ∧ ¬BroadcastAgrees s ∧ (∀ t ∈ s.tasks, ¬StatusAgrees s t) ∧
        ¬ObserversAgree s) = true := by
    decide +kernel
  obtain ⟨s,hs,hfacts⟩ := (Option.any_eq_true _ _).mp heval
  exact ⟨s,hs,of_decide_eq_true hfacts⟩

end Term.SessionObservers
