import TermMux.AgentStreams

/-!
# One stream, one task

A task's clean-up goes by its stream id: it removes whatever the registry and the
session's map hold under that id, and its `Close` ends whatever the hub has there.
That is its own as long as `Open` comes for an id only when the last task of that id
is done. The agent does not check this, and the hub's proxy forwards every `Open`.
-/

set_option autoImplicit false

namespace Term.StreamTasks
open Term.AgentStreams Term.FrameModel Term.KeyedMap Term.Machine

/-- `Open` finds every earlier task of its stream done. -/
def OpensAlone (s : Agent) : Act → Prop
  | .hubFrame f => f.ty = .open_ → ∀ t ∈ s.tasks, t.sid = f.streamId → t.phase = .done
  | _ => True

def OneAttached (s : Agent) : Prop :=
  ∀ (i j : ℕ) (p q : Task) (m m' : ℕ), s.tasks[i]? = some p → s.tasks[j]? = some q → p.sid = q.sid →
    p.phase.on m → q.phase.on m' → i = j

def Newest (s : Agent) (k : ℕ) (t : Task) : Prop :=
  ∀ j q, s.tasks[j]? = some q → q.sid = t.sid → j ≤ k

/-- A clean-up step of a task finds nothing of another task under its stream id. -/
def CleansOwn (s : Agent) : Act → Prop
  | .detach k => ∀ t, s.tasks[k]? = some t → ∀ m, t.phase = .stopped m →
      ∀ j, s.attached.lookup (m,t.sid) = some j → j = k
  | .remove k => ∀ t, s.tasks[k]? = some t → t.phase = .closed →
      ∀ j, s.streams.lookup t.sid = some j → j = k
  | .sendClose k => ∀ t, s.tasks[k]? = some t → t.phase = .returned → Newest s k t
  | .sessionClosed k => ∀ t, s.tasks[k]? = some t → ∀ m, t.phase = .attached m → Newest s k t
  | _ => True

/-- A task that is not done is the newest of its stream, and the maps lead to such tasks. -/
structure Inv (s : Agent) : Prop where
  newest : ∀ k t, s.tasks[k]? = some t → t.phase ≠ .done → Newest s k t
  streams : ∀ sid k, s.streams.lookup sid = some k →
    ∃ t, s.tasks[k]? = some t ∧ t.sid = sid ∧ t.phase ≠ .done
  attached : ∀ m sid k, s.attached.lookup (m,sid) = some k →
    ∃ t, s.tasks[k]? = some t ∧ t.sid = sid ∧ t.phase.on m

section Preservation
variable {s s' : Agent} {a : Act}

theorem on_ne_done {p : Phase} {m : ℕ} (h : p.on m) : p ≠ .done := by
  rcases h with rfl | rfl <;> exact nofun

/-- Two tasks of one stream that are not done are the same. -/
theorem Inv.same (h : Inv s) {i j : ℕ} {p q : Task} (hi : s.tasks[i]? = some p)
    (hj : s.tasks[j]? = some q) (hsid : p.sid = q.sid) (hp : p.phase ≠ .done)
    (hq : q.phase ≠ .done) : i = j :=
  Nat.le_antisymm (h.newest j q hj hq i p hi hsid) (h.newest i p hi hp j q hj hsid.symm)

theorem inv_move {k : ℕ} {p q : Task} (h : Inv s) (hp : s.tasks[k]? = some p)
    (halive : p.phase ≠ .done) (htasks : s'.tasks = s.tasks.set k q) (hsid : q.sid = p.sid)
    (hstreams : ∀ sid j, s'.streams.lookup sid = some j →
      s.streams.lookup sid = some j ∧ (j = k → q.phase ≠ .done))
    (hattached : ∀ m sid j, s'.attached.lookup (m,sid) = some j →
      j = k ∧ sid = p.sid ∧ q.phase.on m ∨ j ≠ k ∧ s.attached.lookup (m,sid) = some j) :
    Inv s' := by
  have hself : s'.tasks[k]? = some q := by
    rw [htasks]
    exact List.getElem?_set_self (List.getElem?_eq_some_iff.mp hp).1
  have hother : ∀ j, j ≠ k → s'.tasks[j]? = s.tasks[j]? := by
    intro j hj
    rw [htasks]
    exact List.getElem?_set_ne (Ne.symm hj)
  refine ⟨?_,?_,?_⟩
  · intro i t hi halive' j u hj hsame
    -- Every task of the new list has an old one with its id at its place.
    have hold : ∀ (i : ℕ) (t : Task), s'.tasks[i]? = some t →
        ∃ t₀ : Task, s.tasks[i]? = some t₀ ∧ t₀.sid = t.sid ∧ (t.phase ≠ .done → t₀.phase ≠ .done) := by
      intro i t hi
      rw [htasks] at hi
      rcases getElem?_set_cases hi with ⟨rfl,rfl⟩ | ⟨-,hold⟩
      · exact ⟨p,hp,hsid.symm,fun _ => halive⟩
      · exact ⟨t,hold,rfl,id⟩
    obtain ⟨t₀,ht₀,hts,htd⟩ := hold i t hi
    obtain ⟨u₀,hu₀,hus,-⟩ := hold j u hj
    exact h.newest i t₀ ht₀ (htd halive') j u₀ hu₀ (hus.trans (hsame.trans hts.symm))
  · intro sid j hj
    obtain ⟨hold,hdone⟩ := hstreams sid j hj
    obtain ⟨t,ht,hts,htd⟩ := h.streams sid j hold
    by_cases hjk : j = k
    · subst hjk
      rw [hp] at ht
      cases ht
      exact ⟨q,hself,hsid.trans hts,hdone rfl⟩
    · exact ⟨t,(hother j hjk).trans ht,hts,htd⟩
  · intro m sid j hj
    rcases hattached m sid j hj with ⟨rfl,rfl,hon⟩ | ⟨hjk,hold⟩
    · exact ⟨q,hself,hsid,hon⟩
    · obtain ⟨t,ht,hts,hon⟩ := h.attached m sid j hold
      exact ⟨t,(hother j hjk).trans ht,hts,hon⟩

/-- The attachment of a task that is not attached. -/
theorem Inv.not_attached (h : Inv s) {k : ℕ} {p : Task} (hp : s.tasks[k]? = some p)
    (hoff : ∀ m, ¬p.phase.on m) {m : ℕ} {sid : UInt32} {j : ℕ}
    (hj : s.attached.lookup (m,sid) = some j) : j ≠ k := by
  rintro rfl
  obtain ⟨t,ht,-,hon⟩ := h.attached m sid j hj
  rw [hp] at ht
  cases ht
  exact hoff m hon

theorem inv_fewer (h : Inv s) (htasks : s'.tasks = s.tasks) (hattached : s'.attached = s.attached)
    (hstreams : ∀ sid k, s'.streams.lookup sid = some k → s.streams.lookup sid = some k) :
    Inv s' := by
  refine ⟨?_,?_,?_⟩
  · unfold Newest
    rw [htasks]
    exact h.newest
  · rw [htasks]
    exact fun sid k hk => h.streams sid k (hstreams sid k hk)
  · rw [htasks, hattached]
    exact h.attached

theorem inv_open {sid : UInt32} (h : Inv s) (hdone : ∀ t ∈ s.tasks, t.sid = sid → t.phase = .done) :
    Inv (openTask s sid) := by
  have hkeep : ∀ {k : ℕ} {t : Task}, s.tasks[k]? = some t → (openTask s sid).tasks[k]? = some t := by
    intro k t ht
    exact (List.getElem?_append_left (List.getElem?_eq_some_iff.mp ht).1).trans ht
  refine ⟨?_,?_,?_⟩
  · intro k t hk halive j q hj hsame
    rcases getElem?_concat_cases hk with hold | ⟨rfl,rfl⟩
    · rcases getElem?_concat_cases hj with hjold | ⟨-,rfl⟩
      · exact h.newest k t hold halive j q hjold hsame
      · exact absurd (hdone t (List.mem_of_getElem? hold) hsame.symm) halive
    · rcases getElem?_concat_cases hj with hjold | ⟨rfl,-⟩
      · exact Nat.le_of_lt (List.getElem?_eq_some_iff.mp hjold).1
      · exact Nat.le_refl _
  · intro sid' k hk
    rcases lookup_of_insert hk with ⟨rfl,rfl⟩ | ⟨-,hold⟩
    · exact ⟨⟨sid',.opening,fun _ => []⟩,List.getElem?_concat_length,rfl,nofun⟩
    · obtain ⟨t,ht,hts,htd⟩ := h.streams sid' k hold
      exact ⟨t,hkeep ht,hts,htd⟩
  · intro m sid' k hk
    obtain ⟨t,ht,hts,hon⟩ := h.attached m sid' k hk
    exact ⟨t,hkeep ht,hts,hon⟩

theorem inv_demux {sid : UInt32} {body : Body} (h : Inv s) : Inv (demux s sid body) := by
  unfold demux
  cases hk : s.streams.lookup sid with
  | none => exact inv_fewer h rfl rfl fun _ _ hj => hj
  | some k =>
    simp only
    split
    · next t ht =>
      obtain ⟨ht,-⟩ := Option.filter_eq_some_iff.mp ht
      obtain ⟨t',ht',-,halive⟩ := h.streams sid k hk
      rw [ht] at ht'
      cases ht'
      refine inv_move h ht halive rfl rfl ?_ ?_
      · exact fun _ _ hj => ⟨hj,fun _ => halive⟩
      · intro m sid' j hj
        by_cases hjk : j = k
        · obtain ⟨u,hu,hus,hon⟩ := h.attached m sid' j hj
          rw [hjk, ht] at hu
          cases hu
          exact .inl ⟨hjk,hus.symm,hon⟩
        · exact .inr ⟨hjk,hj⟩
    · exact inv_fewer h rfl rfl fun _ _ hj => (lookup_of_erase hj).2

theorem inv_pump {k m : ℕ} {p q : Task} (h : Inv s) (hp : s.tasks[k]? = some p)
    (hphase : p.phase = .attached m) (htasks : s'.tasks = s.tasks.set k q)
    (hsid : q.sid = p.sid) (hq : q.phase.on m) (hstreams : s'.streams = s.streams)
    (hattached : s'.attached = s.attached) : Inv s' := by
  have halive : p.phase ≠ .done := by
    rw [hphase]
    exact nofun
  apply inv_move h hp halive htasks hsid
  · rw [hstreams]
    exact fun _ _ hj => ⟨hj,fun _ => on_ne_done hq⟩
  · rw [hattached]
    intro m' sid' j hj
    by_cases hjk : j = k
    · obtain ⟨u,hu,hus,hon⟩ := h.attached m' sid' j hj
      rw [hjk, hp] at hu
      cases hu
      rw [hphase] at hon
      rcases hon with heq | heq
      · cases heq
        exact .inl ⟨hjk,hus.symm,hq⟩
      · cases heq
    · exact .inr ⟨hjk,hj⟩

theorem inv_idle {k : ℕ} {p q : Task} (h : Inv s) (hp : s.tasks[k]? = some p)
    (halive : p.phase ≠ .done) (hoff : ∀ m, ¬p.phase.on m)
    (htasks : s'.tasks = s.tasks.set k q) (hsid : q.sid = p.sid) (hq : q.phase ≠ .done)
    (hstreams : s'.streams = s.streams) (hattached : s'.attached = s.attached) : Inv s' := by
  apply inv_move h hp halive htasks hsid
  · rw [hstreams]
    exact fun _ _ hj => ⟨hj,fun _ => hq⟩
  · rw [hattached]
    exact fun m sid' j hj => .inr ⟨h.not_attached hp hoff hj,hj⟩

theorem inv_took {k m : ℕ} {p : Task} {c : HubLink.Half} {b : Body} (h : Inv s)
    (hp : s.tasks[k]? = some p) (hphase : p.phase = .attached m) : Inv (took s k m p c b) := by
  unfold took
  split
  · exact inv_pump h hp hphase rfl rfl (.inr rfl) rfl rfl
  · exact inv_pump h hp hphase rfl rfl (.inl hphase) rfl rfl

theorem inv_attached {k m : ℕ} {p : Task} (h : Inv s) (hp : s.tasks[k]? = some p)
    (hphase : p.phase = .found m) :
    Inv { setTask s k { p with phase := .attached m } with
      attached := s.attached.insert (m,p.sid) k } := by
  have halive : p.phase ≠ .done := by
    rw [hphase]
    exact nofun
  have hoff : ∀ m', ¬p.phase.on m' := by
    rw [hphase]
    rintro m' (heq | heq) <;> cases heq
  refine inv_move h hp halive rfl rfl ?_ ?_
  · exact fun _ _ hj => ⟨hj,fun _ => nofun⟩
  · intro m' sid' j hj
    rcases lookup_of_insert hj with ⟨hkey,rfl⟩ | ⟨-,hold⟩
    · cases hkey
      exact .inl ⟨rfl,rfl,.inl rfl⟩
    · exact .inr ⟨h.not_attached hp hoff hold,hold⟩

theorem inv_detached {k m : ℕ} {p : Task} (h : Inv s) (hp : s.tasks[k]? = some p)
    (hphase : p.phase = .stopped m) :
    Inv { setTask s k { p with phase := .returned } with
      attached := s.attached.erase (m,p.sid) } := by
  have halive : p.phase ≠ .done := by
    rw [hphase]
    exact nofun
  refine inv_move h hp halive rfl rfl ?_ ?_
  · exact fun _ _ hj => ⟨hj,fun _ => nofun⟩
  · intro m' sid' j hj
    obtain ⟨hkey,hold⟩ := lookup_of_erase hj
    refine .inr ⟨?_,hold⟩
    -- The one entry that leads to the task is the one that is taken out.
    rintro rfl
    obtain ⟨u,hu,hus,hon⟩ := h.attached m' sid' j hold
    rw [hp] at hu
    cases hu
    rw [hphase] at hon
    rcases hon with heq | heq
    · cases heq
    · cases heq
      exact hkey (by rw [hus])

theorem inv_removed {k : ℕ} {p : Task} (h : Inv s) (hp : s.tasks[k]? = some p)
    (hphase : p.phase = .closed) :
    Inv { setTask s k { p with phase := .done } with
      streams := s.streams.erase p.sid
      log := s.log++[.removed p.sid] } := by
  have halive : p.phase ≠ .done := by
    rw [hphase]
    exact nofun
  have hoff : ∀ m, ¬p.phase.on m := by
    rw [hphase]
    rintro m (heq | heq) <;> cases heq
  refine inv_move h hp halive rfl rfl ?_ ?_
  · intro sid' j hj
    obtain ⟨hne,hold⟩ := lookup_of_erase hj
    refine ⟨hold,?_⟩
    rintro rfl
    obtain ⟨t,ht,hts,-⟩ := h.streams sid' j hold
    rw [hp] at ht
    cases ht
    exact absurd hts.symm hne
  · exact fun m sid' j hj => .inr ⟨h.not_attached hp hoff hj,hj⟩

theorem inv_step (h : Inv s) (hok : OpensAlone s a) (hstep : step s a = some s') : Inv s' := by
  cases effect_of_step hstep with
  | idle a reading hreading => exact inv_fewer h rfl rfl fun _ _ hj => hj
  | opened f hreading hty => exact inv_open h (hok hty)
  | frame f hreading => exact inv_demux h
  | moved a k p phase closes hp hoff halive hphase hlive =>
    exact inv_idle h hp halive hoff rfl rfl hphase rfl rfl
  | refused k p hp hphase =>
    refine inv_idle h hp ?_ ?_ rfl rfl ?_ rfl rfl
    · rw [hphase]
      exact nofun
    · rw [hphase]
      rintro m (heq | heq) <;> cases heq
    · exact nofun
  | attached k m p hp hphase => exact inv_attached h hp hphase
  | took k m p c b hp hphase => exact inv_took h hp hphase
  | stopped a k m p closes hp hphase =>
    exact inv_pump h hp hphase rfl rfl (.inr rfl) rfl rfl
  | detached k m p hp hphase => exact inv_detached h hp hphase
  | removed k p hp hphase => exact inv_removed h hp hphase
  | cleared hreading =>
    refine inv_fewer h rfl rfl ?_
    intro sid j hj
    cases (AList.lookup_empty sid).symm.trans hj

theorem start_inv : Inv Agent.start := by
  refine ⟨nofun,?_,?_⟩
  · intro sid k hk
    cases (AList.lookup_empty sid).symm.trans hk
  · intro m sid k hk
    cases (AList.lookup_empty (m,sid)).symm.trans hk

theorem inv_oneAttached (h : Inv s) : OneAttached s :=
  fun _ _ _ _ _ _ hi hj hsid hp hq => h.same hi hj hsid (on_ne_done hp) (on_ne_done hq)

theorem inv_cleansOwn (h : Inv s) : CleansOwn s a := by
  cases a with
  | detach k =>
    intro t ht m hphase j hj
    obtain ⟨u,hu,hus,hon⟩ := h.attached m t.sid j hj
    exact h.same hu ht hus (on_ne_done hon) (by rw [hphase]; exact nofun)
  | remove k =>
    intro t ht hphase j hj
    obtain ⟨u,hu,hus,halive⟩ := h.streams t.sid j hj
    exact h.same hu ht hus halive (by rw [hphase]; exact nofun)
  | sendClose k =>
    intro t ht hphase
    exact h.newest k t ht (by rw [hphase]; exact nofun)
  | sessionClosed k =>
    intro t ht m hphase
    exact h.newest k t ht (by rw [hphase]; exact nofun)
  | hubFrame f
  | lookup k session
  | attach k
  | take k
  | stop k
  | readEnds
  | teardown => trivial

end Preservation

/-- In every run in which `Open` comes for a stream only when its last task is done, at most
one task is attached under an id, and each clean-up touches only what is its own. -/
theorem one_stream_one_task (as : List Act) (s : Agent)
    (hok : Along step OpensAlone Agent.start as) (hrun : run step Agent.start as = some s) :
    OneAttached s ∧ Along step CleansOwn Agent.start as := by
  have hstep : ∀ s a t, Inv s → OpensAlone s a → step s a = some t → Inv t :=
    fun _ _ _ h hok hstep => inv_step h hok hstep
  refine ⟨inv_oneAttached (run_along step hstep start_inv hok hrun),?_⟩
  exact along_imp step hstep (fun _ _ h _ => inv_cleansOwn h) start_inv hok

instance (s : Agent) (a : Act) : Decidable (OpensAlone s a) :=
  match a with
  | .hubFrame f => inferInstanceAs (Decidable
      (f.ty = .open_ → ∀ t ∈ s.tasks, t.sid = f.streamId → t.phase = .done))
  | .lookup _ _ => isTrue trivial
  | .attach _ => isTrue trivial
  | .take _ => isTrue trivial
  | .stop _ => isTrue trivial
  | .sessionClosed _ => isTrue trivial
  | .detach _ => isTrue trivial
  | .sendClose _ => isTrue trivial
  | .remove _ => isTrue trivial
  | .readEnds => isTrue trivial
  | .teardown => isTrue trivial

def openMain (sid : UInt32) : Act := .hubFrame ⟨sid,.open_ "main" (24,80)⟩

def wholeTask (k : ℕ) : List Act :=
  [openMain 1,.lookup k (some 0),.attach k,.stop k,.detach k,.sendClose k,.remove k]

theorem reopened_stream_own : ∃ s, run step Agent.start (wholeTask 0++wholeTask 1) = some s ∧
    OneAttached s ∧ Along step CleansOwn Agent.start (wholeTask 0++wholeTask 1) := by
  have hok : Along step OpensAlone Agent.start (wholeTask 0++wholeTask 1) := by decide +kernel
  have hfacts : ((run step Agent.start (wholeTask 0++wholeTask 1)).map fun _ => ()) = some () := by
    decide +kernel
  obtain ⟨s,hrun,-⟩ := Option.map_eq_some_iff.mp hfacts
  exact ⟨s,hrun,one_stream_one_task _ s hok hrun⟩

def openedTwice : List Act :=
  [openMain 1,.lookup 0 (some 0),.attach 0,openMain 1,.lookup 1 (some 0),.attach 1]

/-- Two tasks are attached under one id, and the older one then detaches the newer one, ends
its stream at the hub and takes it out of the registry. -/
theorem second_open_crosses : ∃ s, run step Agent.start openedTwice = some s ∧ ¬OneAttached s ∧
    ¬Along step CleansOwn Agent.start (openedTwice++[.stop 0,.detach 0,.sendClose 0,.remove 0]) := by
  have hfacts : ((run step Agent.start openedTwice).map fun s =>
      (s.tasks[0]?.map fun t => (t.sid,t.phase),s.tasks[1]?.map fun t => (t.sid,t.phase))) =
      some (some (1,.attached 0),some (1,.attached 0)) := by
    decide +kernel
  obtain ⟨s,hrun,hs⟩ := Option.map_eq_some_iff.mp hfacts
  obtain ⟨hfirst,hsecond⟩ := Prod.mk.inj hs
  refine ⟨s,hrun,?_,?_⟩
  · intro hone
    obtain ⟨p,hp,hpfacts⟩ := Option.map_eq_some_iff.mp hfirst
    obtain ⟨q,hq,hqfacts⟩ := Option.map_eq_some_iff.mp hsecond
    obtain ⟨hpsid,hpphase⟩ := Prod.mk.inj hpfacts
    obtain ⟨hqsid,hqphase⟩ := Prod.mk.inj hqfacts
    have hsame := hone 0 1 p q 0 0 hp hq (hpsid.trans hqsid.symm) (.inl hpphase) (.inl hqphase)
    cases hsame
  · intro hown
    have hstop : ((run step Agent.start (openedTwice++[.stop 0])).map fun t =>
        (t.attached.lookup (0,1),t.tasks[0]?.map fun p => (p.sid,p.phase))) =
        some (some 1,some (1,.stopped 0)) := by decide +kernel
    obtain ⟨t,ht,hfacts⟩ := Option.map_eq_some_iff.mp hstop
    obtain ⟨hlookup,htask⟩ := Prod.mk.inj hfacts
    obtain ⟨p,hp,hpfacts⟩ := Option.map_eq_some_iff.mp htask
    obtain ⟨hsid,hphase⟩ := Prod.mk.inj hpfacts
    have hrest : Along step CleansOwn t [.detach 0,.sendClose 0,.remove 0] := by
      apply along_rest step _ ht
      rw [List.append_assoc]
      exact hown
    have hcross := hrest.1 p hp 0 hphase 1 (by rw [hsid]; exact hlookup)
    cases hcross

end Term.StreamTasks
