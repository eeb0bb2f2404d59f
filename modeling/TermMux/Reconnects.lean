import TermMux.SessionFanout

/-!
# One session across hub connections

The session manager outlives a hub connection, and every new link of the hub
numbers its streams from 1 again. `Links` is one session with the stream
tasks of all connections so far: those whose `Open` has arrived but which have not
yet attached, and those of the fan-out. `holder` records which task obtained the
control the session has given out; no step of the source reads it.
-/

set_option autoImplicit false

namespace Term.Reconnects
open Term.FrameModel Term.Machine Term.SessionFanout Term.SessionState

/-- `AgentLink::open_stream`: the id, and the counter after it. -/
def openStream (nextStreamId : UInt32) : StreamId × UInt32 :=
  if nextStreamId ≠ 0 then (nextStreamId,nextStreamId+1) else (1,2)

structure Links where
  fanout : Fanout
  nextStreamId : UInt32
  opening : List StreamId
  holder : Option ℕ

def Links.spawn (initialSize : Size) (scrollbackCap now : ℕ) : Links :=
  ⟨Fanout.spawn initialSize scrollbackCap now,1,[],none⟩

inductive Action where
  | reconnect
  | openStream (here : Bool)
  | attach (k : ℕ) (size : Size) (now : ℕ)
  | session (a : SessionFanout.Action)
  deriving DecidableEq, Repr

def holderAfter (holder : Option ℕ) (i : ℕ) (l : Locked) : Option ℕ :=
  if l.changed.isSome then l.inner.controller.map fun _ => i else holder

def lockedBy (s : Fanout) : SessionFanout.Action → Option (ℕ × Locked)
  | .attach sid size now => some (s.tasks.length,s.inner.attach sid size now)
  | .op i op => (s.tasks[i]?).map fun t => (i,op.locked s.inner t.sid)
  | .detach i now => (s.tasks[i]?).map fun t => (i,s.inner.detach t.sid now)
  | _ => none

def act (s : Links) (a : SessionFanout.Action) : Option Links :=
  (SessionFanout.step s.fanout a).map fun fanout =>
    { s with
      fanout := fanout
      holder := match lockedBy s.fanout a with
        | none => s.holder
        | some (i,l) => holderAfter s.holder i l }

def step (s : Links) : Action → Option Links
  | .reconnect => some { s with nextStreamId := 1 }
  | .openStream here =>
    let (sid,next) := openStream s.nextStreamId
    -- Streams of other sessions take their ids from the same counter.
    some { s with nextStreamId := next, opening := if here then s.opening++[sid] else s.opening }
  | .attach k size now =>
    match s.opening[k]? with
    | none => none
    | some sid => act { s with opening := s.opening.eraseIdx k } (.attach sid size now)
  | .session (.attach _ _ _) => none
  | .session a => act s a

/-- Task `i` has attached under `sid` and has not itself called `detach`. -/
def Undetached (s : Fanout) (i : ℕ) (sid : StreamId) : Prop :=
  ∃ t ∈ s.tasks[i]?, t.phase ≠ .detached ∧ t.sid = sid

instance (s : Fanout) (i : ℕ) (sid : StreamId) : Decidable (Undetached s i sid) :=
  inferInstanceAs (Decidable (∃ t ∈ s.tasks[i]?, t.phase ≠ .detached ∧ t.sid = sid))

def Stays (s : Links) : Prop :=
  ∀ i sid, Undetached s.fanout i sid → sid ∈ s.fanout.inner.attached

def ClearsOwn (s : Links) (a : Action) : Prop :=
  ∀ i now s', a = .session (.detach i now) → step s a = some s' →
    s'.fanout.inner.controller ≠ s.fanout.inner.controller → s.holder = some i

/-- When a task detaches, no other task that is still attached carries its id. -/
def Alone (s : Links) : Action → Prop
  | .session (.detach i _) => ∀ t ∈ s.fanout.tasks[i]?, ∀ j < s.fanout.tasks.length,
    Undetached s.fanout j t.sid → j = i
  | _ => True

instance (s : Links) (a : Action) : Decidable (Alone s a) := by
  unfold Alone
  split <;> infer_instance

theorem alone_iff {s : Links} {a : Action} :
    Alone s a ↔ ∀ i now, a = .session (.detach i now) → ∀ t, s.fanout.tasks[i]? = some t →
      ∀ j, Undetached s.fanout j t.sid → j = i := by
  unfold Alone
  split
  · next i now =>
    constructor
    · rintro h _ _ ⟨rfl,rfl⟩ t ht j hj
      obtain ⟨u,hu,hlive⟩ := hj
      exact h t ht j (List.getElem?_eq_some_iff.mp hu).1 ⟨u,hu,hlive⟩
    · intro h t ht j _ hj
      exact h i now rfl t ht j hj
  · next hno => exact ⟨fun _ i now heq => absurd heq (hno i now),fun _ => trivial⟩

theorem undetached_set {s s' : Fanout} {i : ℕ} {t u : Task} (ht : s.tasks[i]? = some t)
    (hs : s'.tasks = s.tasks.set i u) (hsid : u.sid = t.sid)
    (hphase : u.phase = .detached ↔ t.phase = .detached) (j : ℕ) (sid : StreamId) :
    Undetached s' j sid ↔ Undetached s j sid := by
  have hlt : i < s.tasks.length := (List.getElem?_eq_some_iff.mp ht).1
  unfold Undetached
  rw [hs]
  by_cases hij : i = j
  · subst hij
    rw [List.getElem?_set_self hlt, ht]
    simp [hsid, hphase]
  · rw [List.getElem?_set_ne hij]

theorem undetached_detach {s s' : Fanout} {i : ℕ} {t : Task} (ht : s.tasks[i]? = some t)
    (hs : s'.tasks = s.tasks.set i { t with phase := .detached }) (j : ℕ) (sid : StreamId) :
    Undetached s' j sid ↔ j ≠ i ∧ Undetached s j sid := by
  have hlt : i < s.tasks.length := (List.getElem?_eq_some_iff.mp ht).1
  unfold Undetached
  rw [hs]
  by_cases hij : i = j
  · subst hij
    rw [List.getElem?_set_self hlt]
    simp
  · rw [List.getElem?_set_ne hij]
    simp [Ne.symm hij]

theorem undetached_attach {s s' : Fanout} {t : Task} (hs : s'.tasks = s.tasks++[t])
    (hphase : t.phase ≠ .detached) (j : ℕ) (sid : StreamId) :
    Undetached s' j sid ↔ Undetached s j sid ∨ j = s.tasks.length ∧ sid = t.sid := by
  unfold Undetached
  rw [hs]
  by_cases hlt : j < s.tasks.length
  · rw [List.getElem?_append_left hlt]
    simp [hlt.ne]
  · by_cases heq : j = s.tasks.length
    · subst heq
      simp [hphase]
      exact eq_comm
    · have hle : s.tasks.length+1 ≤ j := by omega
      rw [List.getElem?_eq_none (by simpa using hle), List.getElem?_eq_none (by omega)]
      simp [heq]

/-- What an action of the fan-out does to the attached map, the lease and the tasks. -/
theorem fanout_cases {s s' : Fanout} {a : SessionFanout.Action}
    (h : SessionFanout.step s a = some s') :
    (lockedBy s a = none ∧ s'.inner.attached = s.inner.attached ∧
      s'.inner.controller = s.inner.controller ∧
      ∀ j c, Undetached s' j c ↔ Undetached s j c) ∨
    (∃ sid size now, a = .attach sid size now ∧ s'.inner = (s.inner.attach sid size now).inner ∧
      ∀ j c, Undetached s' j c ↔ Undetached s j c ∨ j = s.tasks.length ∧ c = sid) ∨
    (∃ i, ∃ op : Op, ∃ sid, lockedBy s a = some (i,op.locked s.inner sid) ∧ Undetached s i sid ∧
      s'.inner = (op.locked s.inner sid).inner ∧
      (∀ j now, a ≠ .detach j now) ∧ ∀ j c, Undetached s' j c ↔ Undetached s j c) ∨
    (∃ i now t, a = .detach i now ∧ s.tasks[i]? = some t ∧ t.phase = .winding ∧
      s'.inner = (s.inner.detach t.sid now).inner ∧
      ∀ j c, Undetached s' j c ↔ j ≠ i ∧ Undetached s j c) := by
  have hreader : (∃ chunk, a = .read chunk) ∨ a = .exit ∨ a = .announceClosed →
      lockedBy s a = none ∧ s'.inner.attached = s.inner.attached ∧
      s'.inner.controller = s.inner.controller ∧ ∀ j c, Undetached s' j c ↔ Undetached s j c := by
    intro ha
    have hnone : lockedBy s a = none := by
      rcases ha with ⟨chunk,rfl⟩ | rfl | rfl <;> rfl
    obtain ⟨inner,osc,closed,more,rfl,hctrl,-,hatt,-⟩ := step_reader ha h
    exact ⟨hnone,hatt,hctrl,fun _ _ => Iff.rfl⟩
  cases a with
  | read chunk => exact .inl (hreader (.inl ⟨chunk,rfl⟩))
  | exit => exact .inl (hreader (.inr (.inl rfl)))
  | announceClosed => exact .inl (hreader (.inr (.inr rfl)))
  | attach sid size now =>
    obtain ⟨-,rfl⟩ := step_attach h
    have hnew : (Task.new sid s.log s.inner
        (s.inner.attach sid size now).inner.controller).phase ≠ .detached := nofun
    exact .inr (.inl ⟨sid,size,now,rfl,rfl,undetached_attach rfl hnew⟩)
  | task i act =>
    obtain ⟨-,t,u,ht,hu,rfl⟩ := step_task h
    obtain ⟨hsid,-,hphase⟩ := Task.act_attachment hu
    exact .inl ⟨rfl,rfl,rfl,undetached_set ht rfl hsid hphase⟩
  | op i op =>
    obtain ⟨t,ht,hlive,rfl⟩ := step_op h
    have hun : Undetached s i t.sid := ⟨t,ht,by simp [hlive],rfl⟩
    refine .inr (.inr (.inl ⟨i,op,t.sid,?_,hun,rfl,fun _ _ => nofun,fun _ _ => Iff.rfl⟩))
    simp [lockedBy, ht]
  | detach i now =>
    obtain ⟨t,ht,hwind,rfl⟩ := step_detach h
    exact .inr (.inr (.inr ⟨i,now,t,rfl,ht,hwind,rfl,undetached_detach ht rfl⟩))
  | resizePty k applied =>
    obtain ⟨i,size,-,rfl⟩ := step_resizePty h
    exact .inl ⟨rfl,rfl,rfl,fun _ _ => Iff.rfl⟩
  | broadcast k =>
    obtain ⟨i,controller,-,rfl⟩ := step_broadcast h
    exact .inl ⟨rfl,rfl,rfl,fun _ _ => Iff.rfl⟩

def Held (s : Links) : Prop :=
  ∀ c, s.fanout.inner.controller = some c →
    ∃ j, s.holder = some j ∧ Undetached s.fanout j c

theorem held_locked {s s' : Links} {i : ℕ} {sid : StreamId} {l : Locked} (h : Held s)
    (hinner : s'.fanout.inner = l.inner) (hholder : s'.holder = holderAfter s.holder i l)
    (hmoves : Moves s.fanout.inner sid l) (hi : Undetached s'.fanout i sid)
    (hrest : ∀ j c, Undetached s.fanout j c → Undetached s'.fanout j c) : Held s' := by
  intro c hc
  rw [hinner] at hc
  have hkept : l.changed = none → l.inner.controller = s.fanout.inner.controller →
      ∃ j, s'.holder = some j ∧ Undetached s'.fanout j c := by
    intro hch hsame
    obtain ⟨j,hj,hun⟩ := h c (hsame ▸ hc)
    refine ⟨j,?_,hrest j c hun⟩
    rw [hholder, holderAfter, hch]
    exact hj
  cases hmoves with
  | idle hsame _ _ hch => exact hkept hch hsame
  | granted hsid _ hch =>
    refine ⟨i,?_,Option.some.inj (hsid.symm.trans hc) ▸ hi⟩
    rw [hholder, holderAfter, hch, hsid]
    rfl
  | resized hold hsid _ hch => exact hkept hch (hsid.trans hold.symm)
  | released _ hnone _ _ =>
    rw [hnone] at hc
    cases hc

/-- A step opens a stream, or is one of the fan-out and moves the holder as its lock says. -/
theorem step_cases {s s' : Links} {a : Action} (h : step s a = some s') :
    (s'.fanout = s.fanout ∧ s'.holder = s.holder ∧ ∀ i now, a ≠ .session (.detach i now)) ∨
    ∃ b, SessionFanout.step s.fanout b = some s'.fanout ∧
      s'.holder = (match lockedBy s.fanout b with
        | none => s.holder
        | some (i,l) => holderAfter s.holder i l) ∧
      ∀ i now, a = .session (.detach i now) ↔ b = .detach i now := by
  have hact : ∀ {t : Links} {b : SessionFanout.Action}, act t b = some s' →
      SessionFanout.step t.fanout b = some s'.fanout ∧
        s'.holder = (match lockedBy t.fanout b with
          | none => t.holder
          | some (i,l) => holderAfter t.holder i l) := by
    intro t b hb
    obtain ⟨fanout,hf,heq⟩ := Option.map_eq_some_iff.mp hb
    rw [← heq]
    exact ⟨hf,rfl⟩
  cases a with
  | reconnect =>
    cases h
    exact .inl ⟨rfl,rfl,nofun⟩
  | openStream here =>
    cases h
    exact .inl ⟨rfl,rfl,nofun⟩
  | attach k size now =>
    unfold step at h
    cases hk : s.opening[k]? with
    | none => simp [hk] at h
    | some sid =>
      simp only [hk] at h
      obtain ⟨hf,hh⟩ := hact h
      exact .inr ⟨_,hf,hh,fun _ _ => ⟨nofun,nofun⟩⟩
  | session b =>
    have hb : act s b = some s' := by
      cases b with
      | attach sid size now => cases h
      | _ => exact h
    obtain ⟨hf,hh⟩ := hact hb
    exact .inr ⟨b,hf,hh,fun i now => by simp⟩

structure Kept (s : Links) : Prop where
  stays : Stays s
  held : Held s

theorem spawn_kept (initialSize : Size) (scrollbackCap now : ℕ) :
    Kept (Links.spawn initialSize scrollbackCap now) := by
  constructor
  · rintro i sid ⟨t,ht,-⟩
    cases ht
  · intro c hc
    cases hc

theorem attach_stays {inner : SessionInner} {sid a : StreamId} {size : Size} {now : ℕ}
    (h : a = sid ∨ a ∈ inner.attached) : a ∈ (inner.attach sid size now).inner.attached := by
  rcases attach_cases inner sid size now with ⟨-,heq⟩ | ⟨-,heq⟩
  · rw [heq]
    exact (AList.mem_insert _).mpr h
  · rw [heq]
    exact (AList.mem_insert _).mpr h

theorem locked_stays {inner : SessionInner} {sid a : StreamId} {op : Op} (h : a ∈ inner.attached) :
    a ∈ (op.locked inner sid).inner.attached := by
  rcases locked_cases inner sid op with heq | ⟨size,-,heq⟩ | ⟨size,-,heq⟩ | ⟨size,-,-,heq⟩ | ⟨-,heq⟩
  · rw [heq]
    exact h
  · rw [heq]
    exact (AList.mem_insert _).mpr (.inr h)
  · rw [heq]
    exact (AList.mem_insert _).mpr (.inr h)
  · rw [heq]
    exact h
  · rw [heq]
    exact h

theorem mem_detach_iff {inner : SessionInner} {sid a : StreamId} {now : ℕ} :
    a ∈ (inner.detach sid now).inner.attached ↔ a ≠ sid ∧ a ∈ inner.attached := by
  rcases detach_cases inner sid now with ⟨-,heq⟩ | ⟨-,heq⟩
  · rw [heq]
    exact AList.mem_erase
  · rw [heq]
    exact AList.mem_erase

/-- Whoever is left under the id would be the detaching task itself. -/
theorem detach_kept {s s' : Links} {i now : ℕ} {t : Task} (h : Kept s)
    (ht : s.fanout.tasks[i]? = some t) (halone : ∀ j, Undetached s.fanout j t.sid → j = i)
    (hinner : s'.fanout.inner = (s.fanout.inner.detach t.sid now).inner)
    (hholder : s'.holder = holderAfter s.holder i (s.fanout.inner.detach t.sid now))
    (hun : ∀ j c, Undetached s'.fanout j c ↔ j ≠ i ∧ Undetached s.fanout j c) : Kept s' := by
  constructor
  · intro j c hj
    obtain ⟨hji,hold⟩ := (hun j c).mp hj
    rw [hinner, mem_detach_iff]
    refine ⟨?_,h.stays j c hold⟩
    rintro rfl
    exact hji (halone j hold)
  · intro c hc
    rw [hinner] at hc
    rcases detach_cases s.fanout.inner t.sid now with ⟨-,heq⟩ | ⟨hne,heq⟩
    · rw [heq] at hc
      cases hc
    · rw [heq] at hc hholder
      obtain ⟨j,hj,hjun⟩ := h.held c hc
      have hji : j ≠ i := by
        rintro rfl
        obtain ⟨u,hu,-,husid⟩ := hjun
        rw [ht] at hu
        cases hu
        exact hne (husid ▸ hc)
      exact ⟨j,hholder.trans hj,(hun j c).mpr ⟨hji,hjun⟩⟩

theorem step_kept {s s' : Links} {a : Action} (h : Kept s) (hok : Alone s a)
    (hstep : step s a = some s') : Kept s' := by
  rcases step_cases hstep with ⟨hf,hh,-⟩ | ⟨b,hf,hh,hdet⟩
  · constructor
    · intro i sid hun
      rw [hf] at hun ⊢
      exact h.stays i sid hun
    · intro c hc
      rw [hf] at hc ⊢
      rw [hh]
      exact h.held c hc
  rcases fanout_cases hf with ⟨hnone,hatt,hctrl,hun⟩ | ⟨sid,size,now,rfl,hinner,hun⟩ |
    ⟨i,op,sid,hl,hi,hinner,-,hun⟩ | ⟨i,now,t,rfl,ht,hwind,hinner,hun⟩
  · rw [hnone] at hh
    constructor
    · intro j c hj
      rw [hatt]
      exact h.stays j c ((hun j c).mp hj)
    · intro c hc
      rw [hctrl] at hc
      obtain ⟨j,hj,hjun⟩ := h.held c hc
      exact ⟨j,hh.trans hj,(hun j c).mpr hjun⟩
  · constructor
    · intro j c hj
      rw [hinner]
      apply attach_stays
      rcases (hun j c).mp hj with hold | ⟨-,hsid⟩
      · exact .inr (h.stays j c hold)
      · exact .inl hsid
    · exact held_locked h.held hinner hh (attach_moves _ sid size now)
        ((hun _ _).mpr (.inr ⟨rfl,rfl⟩)) fun j c hj => (hun j c).mpr (.inl hj)
  · rw [hl] at hh
    constructor
    · intro j c hj
      rw [hinner]
      exact locked_stays (h.stays j c ((hun j c).mp hj))
    · exact held_locked h.held hinner hh (locked_moves _ sid op) ((hun i sid).mpr hi)
        fun j c hj => (hun j c).mpr hj
  · have hact : a = .session (.detach i now) := (hdet i now).mpr rfl
    subst hact
    have hlock : lockedBy s.fanout (.detach i now) = some (i,s.fanout.inner.detach t.sid now) := by
      simp [lockedBy, ht]
    rw [hlock] at hh
    exact detach_kept h ht (alone_iff.mp hok i now rfl t ht) hinner hh hun

theorem kept_clearsOwn {s : Links} {a : Action} (h : Kept s) (hok : Alone s a) : ClearsOwn s a := by
  rintro i now s' rfl hstep hcleared
  rcases step_cases hstep with ⟨-,-,hno⟩ | ⟨b,hf,-,hdet⟩
  · exact absurd rfl (hno i now)
  obtain rfl := (hdet i now).mp rfl
  obtain ⟨t,ht,-,hs'⟩ := step_detach hf
  rcases detach_cases s.fanout.inner t.sid now with ⟨hctrl,-⟩ | ⟨-,heq⟩
  · obtain ⟨j,hj,hun⟩ := h.held t.sid hctrl
    rw [hj, alone_iff.mp hok i now rfl t ht j hun]
  · refine absurd ?_ hcleared
    rw [hs']
    exact congrArg (fun l : Locked => l.inner.controller) heq

/-- A detach next to an attached twin leaves the twin outside the map. -/
theorem alone_of_stays {s s' : Links} {a : Action} (hstep : step s a = some s') (h : Stays s') :
    Alone s a := by
  rw [alone_iff]
  rintro i now rfl t ht j hj
  by_contra hji
  rcases step_cases hstep with ⟨-,-,hno⟩ | ⟨b,hf,-,hdet⟩
  · exact absurd rfl (hno i now)
  obtain rfl := (hdet i now).mp rfl
  obtain ⟨u,hu,-,hs'⟩ := step_detach hf
  obtain rfl : t = u := Option.some.inj (ht.symm.trans hu)
  have hj' : Undetached s'.fanout j t.sid :=
    (undetached_detach ht (congrArg Fanout.tasks hs') j t.sid).mpr ⟨hji,hj⟩
  have hmem := h j t.sid hj'
  rw [hs'] at hmem
  exact (mem_detach_iff.mp hmem).1 rfl

/-- Streams of different connections leave each other alone in exactly the runs in which
no task detaches while another one is attached under the same id. -/
theorem streams_kept_iff {initialSize : Size} {scrollbackCap now : ℕ} {as : List Action} {s : Links}
    (hrun : run step (Links.spawn initialSize scrollbackCap now) as = some s) :
    Along step Alone (Links.spawn initialSize scrollbackCap now) as ↔
      (∀ bs t, bs <+: as → run step (Links.spawn initialSize scrollbackCap now) bs = some t →
        Stays t) ∧
      Along step ClearsOwn (Links.spawn initialSize scrollbackCap now) as := by
  have hstep : ∀ s a t, Kept s → Alone s a → step s a = some t → Kept t :=
    fun _ _ _ h hok hstep => step_kept h hok hstep
  have hnew := spawn_kept initialSize scrollbackCap now
  constructor
  · intro hok
    constructor
    · rintro bs t ⟨cs,rfl⟩ hbs
      exact (run_along step hstep hnew (along_append step hok) hbs).stays
    · exact along_imp step hstep (fun _ _ h hok => kept_clearsOwn h hok) hnew hok
  · rintro ⟨hstays,-⟩
    exact along_of_prefixes step (fun _ _ _ hstep h => alone_of_stays hstep h) hrun hstays

def overlap : List Action :=
  [.openStream true,.attach 0 (24,80) 1,.session (.resizePty 0 true),.session (.broadcast 0),
    .session (.task 0 .start),.session (.task 0 .send),.session (.task 0 .stop),.reconnect,
    .openStream true,.attach 0 (50,132) 2,.session (.task 1 .start),.session (.task 1 .send),
    .session (.op 1 .takeControl),.session (.resizePty 0 true),.session (.broadcast 0)]

/-- The old task's detach takes the new stream out of the map and its control with it. -/
theorem old_detach_crosses : ∃ s t, run step (Links.spawn (24,80) 64 0) overlap = some s ∧
    step s (.session (.detach 0 3)) = some t ∧ ¬Stays t ∧
    ¬ClearsOwn s (.session (.detach 0 3)) := by
  refine ⟨_,_,rfl,rfl,?_,?_⟩
  · intro h
    exact absurd (h 1 1 (by decide)) (by decide)
  · intro h
    exact absurd (h 0 3 _ rfl rfl (by decide)) (by decide)

/-- The same overlap, with another session's stream opened first on the new link. -/
theorem streams_kept_apart : ∃ s, run step (Links.spawn (24,80) 64 0)
    (overlap.take 8++[.openStream false]++overlap.drop 8++[.session (.detach 0 3)]) = some s ∧
      Stays s := by
  refine ⟨_,rfl,?_⟩
  have hok : Along step Alone (Links.spawn (24,80) 64 0)
      (overlap.take 8++[.openStream false]++overlap.drop 8++[.session (.detach 0 3)]) := by decide
  exact ((streams_kept_iff rfl).mp hok).1 _ _ (List.prefix_refl _) rfl

end Term.Reconnects
