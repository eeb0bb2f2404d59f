import TermMux.KeyedMap
import TermMux.SessionManager

/-!
# What a sweep collects

`gc_pass` selects under the map lock and removes later, by id. A sweep collects
what it selected, and nothing that is attached, as long as no session is spawned
under an id that waits for its removal and nobody attaches to a selected session before it
is killed. Nothing in the source keeps either from happening.
-/

set_option autoImplicit false

namespace Term.SessionSweep
open Term.FrameModel Term.KeyedMap Term.Machine Term.SessionFanout Term.SessionManager
open Term.SessionState

def Spent (inner : SessionInner) : Prop := inner.exited = true ∨ inner.attached.keys = []

instance (inner : SessionInner) : Decidable (Spent inner) := inferInstanceAs (Decidable (_ ∨ _))

def SpentAt (h : Host) (k : ℕ) : Prop := ∀ s ∈ h.manager.sessions[k]?, Spent s.inner

/-- The entry a sweep removes is the one it selected, and neither at the removal nor at
the kill does the session have a stream. -/
def Collects (h : Host) : SessionManager.Action → Prop
  | .gcRemove => ∀ id k drops, h.sweep = .dropping ((id,k)::drops) →
    (∀ k', h.manager.map.lookup id = some k' → k' = k) ∧ SpentAt h k
  | .gcKill => ∀ k drops, h.sweep = .killing k drops → SpentAt h k
  | _ => True

def records : SessionFanout.Action → Bool
  | .attach _ _ _ => true
  | .op _ (.resize _ _) => true
  | _ => false

/-- No spawn under an id that a sweep has selected and not yet removed, and nobody enters
the attached map of a live session between its selection and its kill. -/
def Undisturbed (h : Host) (a : SessionManager.Action) : Prop :=
  (match a with
    | .lookup id _ _ spawns =>
      h.manager.SpawnsUnder id spawns → id ∉ h.sweep.waiting.map Prod.fst
    | _ => True) ∧
  ∀ p ∈ h.target a, records p.2 = true → h.manager.exited p.1 = false → p.1 ∉ h.sweep.doomed

instance (h : Host) (a : SessionManager.Action) : Decidable (Undisturbed h a) := by
  unfold Undisturbed
  split <;> infer_instance

theorem attach_exited (inner : SessionInner) (sid : StreamId) (size : Size) (now : ℕ) :
    (inner.attach sid size now).inner.exited = inner.exited := by
  rcases attach_cases inner sid size now with ⟨-,heq⟩ | ⟨-,heq⟩ <;> rw [heq]

theorem detach_exited (inner : SessionInner) (sid : StreamId) (now : ℕ) :
    (inner.detach sid now).inner.exited = inner.exited := by
  rcases detach_cases inner sid now with ⟨-,heq⟩ | ⟨-,heq⟩ <;> rw [heq]

theorem locked_exited (inner : SessionInner) (sid : StreamId) (op : Op) :
    (op.locked inner sid).inner.exited = inner.exited := by
  rcases locked_cases inner sid op with heq | ⟨size,-,heq⟩ | ⟨size,-,heq⟩ | ⟨size,-,-,heq⟩ | ⟨-,heq⟩ <;>
    exact congrArg (fun l : Locked => l.inner.exited) heq

theorem detach_empties {inner : SessionInner} (sid : StreamId) (now : ℕ)
    (h : inner.attached.keys = []) : (inner.detach sid now).inner.attached.keys = [] := by
  rcases detach_cases inner sid now with ⟨-,heq⟩ | ⟨-,heq⟩
  · rw [heq, AList.keys_erase, h, List.erase_nil]
  · rw [heq, AList.keys_erase, h, List.erase_nil]

theorem locked_empty {inner : SessionInner} (sid : StreamId) (op : Op)
    (hop : ∀ rows cols, op ≠ .resize rows cols) :
    (op.locked inner sid).inner.attached = inner.attached := by
  cases op with
  | resize rows cols => exact absurd rfl (hop rows cols)
  | acquireControl =>
    change (inner.acquireControl sid).inner.attached = _
    unfold SessionInner.acquireControl
    split
    · rfl
    · split <;> rfl
  | releaseControl =>
    change (inner.releaseControl sid).inner.attached = _
    unfold SessionInner.releaseControl
    split <;> rfl
  | takeControl =>
    change (inner.takeControl sid).inner.attached = _
    unfold SessionInner.takeControl
    split <;> rfl

theorem step_exited {s s' : Fanout} {a : SessionFanout.Action} (h : s.inner.exited = true)
    (hstep : SessionFanout.step s a = some s') : s'.inner.exited = true := by
  cases a with
  | read chunk => simp [SessionFanout.step, h] at hstep
  | exit => simp [SessionFanout.step, h] at hstep
  | announceClosed =>
    simp only [SessionFanout.step, Option.ite_none_right_eq_some, Option.some.injEq] at hstep
    rw [← hstep.2]
    exact h
  | attach sid size now =>
    obtain ⟨-,rfl⟩ := step_attach hstep
    exact (attach_exited s.inner sid size now).trans h
  | task i act =>
    obtain ⟨-,t,u,-,-,rfl⟩ := step_task hstep
    exact h
  | op i op =>
    obtain ⟨t,-,-,rfl⟩ := step_op hstep
    exact (locked_exited s.inner t.sid op).trans h
  | detach i now =>
    obtain ⟨t,-,-,rfl⟩ := step_detach hstep
    exact (detach_exited s.inner t.sid now).trans h
  | resizePty k applied =>
    obtain ⟨i,size,-,rfl⟩ := step_resizePty hstep
    exact h
  | broadcast k =>
    obtain ⟨i,controller,-,rfl⟩ := step_broadcast hstep
    exact h

theorem step_empty {s s' : Fanout} {a : SessionFanout.Action} (h : s.inner.attached.keys = [])
    (ha : records a = false) (hstep : SessionFanout.step s a = some s') :
    s'.inner.attached.keys = [] := by
  have hreader : (∃ chunk, a = .read chunk) ∨ a = .exit ∨ a = .announceClosed →
      s'.inner.attached.keys = [] := by
    intro hr
    obtain ⟨inner,osc,closed,more,rfl,-,-,hatt,-⟩ := step_reader hr hstep
    exact (congrArg AList.keys hatt).trans h
  cases a with
  | read chunk => exact hreader (.inl ⟨chunk,rfl⟩)
  | exit => exact hreader (.inr (.inl rfl))
  | announceClosed => exact hreader (.inr (.inr rfl))
  | attach sid size now => cases ha
  | task i act =>
    obtain ⟨-,t,u,-,-,rfl⟩ := step_task hstep
    exact h
  | op i op =>
    obtain ⟨t,-,-,rfl⟩ := step_op hstep
    have hop : ∀ rows cols, op ≠ .resize rows cols := by
      rintro rows cols rfl
      cases ha
    exact (congrArg AList.keys (locked_empty t.sid op hop)).trans h
  | detach i now =>
    obtain ⟨t,-,-,rfl⟩ := step_detach hstep
    exact detach_empties t.sid now h
  | resizePty k applied =>
    obtain ⟨i,size,-,rfl⟩ := step_resizePty hstep
    exact h
  | broadcast k =>
    obtain ⟨i,controller,-,rfl⟩ := step_broadcast hstep
    exact h

theorem step_spentAt {h h' : Host} {a : SessionManager.Action} {k : ℕ} (hs : SpentAt h k)
    (hquiet : ∀ b, h.target a = some (k,b) → records b = true → h.manager.exited k = true)
    (hstep : SessionManager.step h a = some h') : SpentAt h' k := by
  cases ht : h.target a with
  | none =>
    rcases (step_untargeted ht hstep).2 with heq | ⟨initialSize,cap,now,heq⟩
    · intro s hk
      rw [heq] at hk
      exact hs s hk
    · intro s hk
      rw [heq] at hk
      rcases getElem?_concat_cases hk with hold | ⟨-,rfl⟩
      · exact hs s hold
      · exact .inr rfl
  | some p =>
    obtain ⟨k',b⟩ := p
    obtain ⟨s,s',hk',hb,hm,-⟩ := step_target ht hstep
    intro u hu
    rw [hm] at hu
    rcases getElem?_set_cases hu with ⟨rfl,rfl⟩ | ⟨-,hold⟩
    · by_cases hx : s.inner.exited = true
      · exact .inl (step_exited hx hb)
      · have hrec : records b = false := by
          by_contra hrec
          have hgone := hquiet b ht (Bool.not_eq_false _ ▸ hrec)
          simp only [Manager.exited, hk', Option.any_some] at hgone
          exact hx hgone
        exact .inr (step_empty ((hs s hk').resolve_left hx) hrec hb)
    · exact hs u hold

structure Swept (h : Host) : Prop where
  todo : ∀ now todo drops, h.sweep = .selecting now todo drops →
    ∀ e ∈ todo, h.manager.map.lookup e.1 = some e.2
  waiting : ∀ e ∈ h.sweep.waiting, ∀ k, h.manager.map.lookup e.1 = some k → k = e.2
  doomed : ∀ k ∈ h.sweep.doomed, SpentAt h k

theorem new_swept (limits : Limits) : Swept (Host.new limits) :=
  ⟨nofun,nofun,nofun⟩

theorem locksMap_of_selecting {sweep : Sweep} {now : ℕ} {todo drops : List Entry}
    (h : sweep = .selecting now todo drops) : sweep.locksMap = true := by
  rw [h]
  rfl

theorem lookup_of_remove {m : Manager} {id id' : SessionId} {k : ℕ}
    (h : (m.remove id).map.lookup id' = some k) : id' ≠ id ∧ m.map.lookup id' = some k :=
  lookup_of_erase h

theorem lookup_of_lookupOrSpawn {m : Manager} {id id' : SessionId} {initialSize : Size} {now : ℕ}
    {spawns : Bool} {k : ℕ} (hne : m.SpawnsUnder id spawns → id' ≠ id)
    (h : (m.lookupOrSpawn id initialSize now spawns).1.map.lookup id' = some k) :
    m.map.lookup id' = some k := by
  have hv : ∀ v, (v = m ∨ v = m.remove id) → v.map.lookup id' = some k →
      m.map.lookup id' = some k := by
    rintro v (rfl | rfl) hk
    · exact hk
    · exact (lookup_of_remove hk).2
  rcases m.lookupOrSpawn_cases id initialSize now spawns with ⟨_,-,-,heq⟩ |
    ⟨v,hcase,⟨e,heq⟩ | ⟨hspawn,heq⟩⟩
  · rw [heq] at h
    exact h
  · rw [heq] at h
    exact hv v hcase h
  · rw [heq, Manager.insert, AList.lookup_insert_ne (hne hspawn)] at h
    exact hv v hcase h

theorem collectable_spent {h : Host} {now k : ℕ} (hc : h.manager.collectable now k = true) :
    SpentAt h k := by
  intro s hs
  rw [Option.mem_def] at hs
  simp only [Manager.collectable, hs, Option.any_some, Bool.or_eq_true, Bool.and_eq_true,
    List.isEmpty_iff] at hc
  exact hc.imp_right And.left

theorem target_swept {h h' : Host} {a : SessionManager.Action} {p : ℕ × SessionFanout.Action}
    (hi : Swept h) (hok : Undisturbed h a) (ht : h.target a = some p)
    (hstep : SessionManager.step h a = some h') : Swept h' := by
  obtain ⟨s,s',hk,-,hm,hsweep⟩ := step_target ht hstep
  have hmap : h'.manager.map = h.manager.map := by rw [hm]
  refine ⟨?_,?_,?_⟩
  · rw [hsweep, hmap]
    exact hi.todo
  · rw [hsweep, hmap]
    exact hi.waiting
  · intro k hk
    rw [hsweep] at hk
    refine step_spentAt (hi.doomed k hk) (fun b hb hrec => ?_) hstep
    by_contra hlive
    exact hok.2 (k,b) hb hrec (Bool.not_eq_true _ ▸ hlive) hk

/-- Outside a selection, what waits may only become less, and the map under an id that waits
may only lose its session. -/
theorem Swept.shrink {h h' : Host} (hi : Swept h) (hspent : ∀ k, SpentAt h k → SpentAt h' k)
    (hfree : h'.sweep.locksMap = false) (hwait : ∀ e ∈ h'.sweep.waiting, e ∈ h.sweep.waiting)
    (hdoom : ∀ k ∈ h'.sweep.doomed, k ∈ h.sweep.doomed)
    (hmap : ∀ e ∈ h'.sweep.waiting, ∀ k,
      h'.manager.map.lookup e.1 = some k → h.manager.map.lookup e.1 = some k) : Swept h' := by
  constructor
  · intro now todo drops hsel
    rw [locksMap_of_selecting hsel] at hfree
    cases hfree
  · intro e he k hk
    exact hi.waiting e (hwait e he) k (hmap e he k hk)
  · intro k hk
    exact hspent k (hi.doomed k (hdoom k hk))

theorem inspect_swept {h : Host} {j now : ℕ} {todo drops : List Entry} {e : Entry} (hi : Swept h)
    (hsel : h.sweep = .selecting now todo drops) (he : todo[j]? = some e) :
    Swept { h with
      sweep := .selecting now (todo.eraseIdx j)
        (if h.manager.collectable now e.2 then drops++[e] else drops) } := by
  have hin := hi.todo now todo drops hsel
  have hwait := hi.waiting
  have hdoom := hi.doomed
  rw [hsel] at hwait hdoom
  have hcut : ∀ e' ∈ todo.eraseIdx j, h.manager.map.lookup e'.1 = some e'.2 :=
    fun e' he' => hin e' (List.mem_of_mem_eraseIdx he')
  by_cases hc : h.manager.collectable now e.2 = true
  · rw [if_pos hc]
    constructor
    · rintro _ _ _ ⟨rfl,rfl,rfl⟩
      exact hcut
    · intro e' he' k hk
      rcases List.mem_append.mp he' with hold | hnew
      · exact hwait e' hold k hk
      · cases List.mem_singleton.mp hnew
        exact Option.some.inj (hk.symm.trans (hin e (List.mem_of_getElem? he)))
    · intro k hk
      simp only [Sweep.doomed, Sweep.waiting, List.map_append, List.mem_append, List.map_cons,
        List.map_nil, List.mem_singleton] at hk
      rcases hk with hold | rfl
      · exact hdoom k hold
      · exact collectable_spent hc
  · rw [if_neg hc]
    constructor
    · rintro _ _ _ ⟨rfl,rfl,rfl⟩
      exact hcut
    · exact hwait
    · exact hdoom

theorem step_swept {h h' : Host} {a : SessionManager.Action} (hi : Swept h) (hok : Undisturbed h a)
    (hstep : SessionManager.step h a = some h') : Swept h' := by
  cases ht : h.target a with
  | some p => exact target_swept hi hok ht hstep
  | none =>
  have hspent : ∀ k, SpentAt h k → SpentAt h' k :=
    fun k hk => step_spentAt hk (by simp [ht]) hstep
  cases a with
  | attach j sid size now =>
    simp only [Host.target, Option.map_eq_none_iff] at ht
    simp [SessionManager.step, ht] at hstep
  | session k b => cases ht
  | lookup id initialSize now spawns =>
    obtain ⟨hfree,hsweep,hm⟩ := step_lookup hstep
    apply hi.shrink hspent
    · rw [hsweep, hfree]
    · simp [hsweep]
    · simp [hsweep]
    · intro e he k hk
      rw [hsweep] at he
      rw [hm] at hk
      refine lookup_of_lookupOrSpawn (fun hspawn heq => ?_) hk
      exact hok.1 hspawn (heq ▸ List.mem_map_of_mem he)
  | killSession id =>
    obtain ⟨hfree,rfl⟩ := step_killSession hstep
    apply hi.shrink hspent hfree (fun _ he => he) (fun _ hk => hk)
    intro e _ k hk
    exact (lookup_of_remove hk).2
  | gcStart now =>
    obtain ⟨-,rfl⟩ := step_gcStart hstep
    constructor
    · rintro _ _ _ ⟨rfl,rfl,rfl⟩ e he
      obtain ⟨⟨id,k⟩,hmem,rfl⟩ := List.mem_map.mp he
      exact AList.mem_lookup_iff.mpr hmem
    · exact fun e he => absurd he List.not_mem_nil
    · exact fun k hk => absurd hk List.not_mem_nil
  | gcInspect j =>
    obtain ⟨now,todo,drops,e,hsel,he,rfl⟩ := step_gcInspect hstep
    exact inspect_swept hi hsel he
  | gcSelected =>
    obtain ⟨now,drops,hsel,rfl⟩ := step_gcSelected hstep
    apply hi.shrink hspent (Sweep.locksMap_dropAll drops)
    · rw [hsel, Sweep.waiting_dropAll]
      exact fun _ he => he
    · rw [hsel, Sweep.doomed_dropAll]
      exact fun _ hk => hk
    · exact fun _ _ _ hk => hk
  | gcRemove =>
    obtain ⟨id,k,drops,hdrop,rfl⟩ := step_gcRemove hstep
    apply hi.shrink hspent rfl
    · rw [hdrop]
      exact fun e he => List.mem_cons_of_mem _ he
    · rw [hdrop]
      exact fun _ hk => hk
    · intro e _ k' hk'
      exact (lookup_of_remove hk').2
  | gcKill =>
    obtain ⟨k,drops,hkill,rfl⟩ := step_gcKill hstep
    apply hi.shrink hspent (Sweep.locksMap_dropAll drops)
    · rw [hkill, Sweep.waiting_dropAll]
      exact fun _ he => he
    · rw [hkill, Sweep.doomed_dropAll]
      exact fun k' hk' => List.mem_cons_of_mem _ hk'
    · exact fun _ _ _ hk => hk

theorem swept_collects {h : Host} {a : SessionManager.Action} (hi : Swept h) : Collects h a := by
  cases a with
  | gcRemove =>
    intro id k drops hdrop
    have hwait := hi.waiting
    have hdoom := hi.doomed
    rw [hdrop] at hwait hdoom
    exact ⟨fun k' hk' => hwait (id,k) List.mem_cons_self k' hk',hdoom k List.mem_cons_self⟩
  | gcKill =>
    intro k drops hkill
    have hdoom := hi.doomed
    rw [hkill] at hdoom
    exact hdoom k List.mem_cons_self
  | _ => trivial

/-- In every run in which nobody steps in between, every sweep removes the sessions it
selected and kills none that has a stream. -/
theorem sweep_collects_selected (limits : Limits) (as : List SessionManager.Action)
    (hok : Along SessionManager.step Undisturbed (Host.new limits) as) :
    Along SessionManager.step Collects (Host.new limits) as :=
  along_imp SessionManager.step (fun _ _ _ hi hok hstep => step_swept hi hok hstep)
    (fun _ _ hi _ => swept_collects hi) (new_swept limits) hok

/-- A shell exits and a sweep selects it; the browser reopens the session meanwhile. -/
def respawned : List SessionManager.Action :=
  [.lookup "main" (24,80) 0 true,.session 0 .exit,.gcStart 60,.gcInspect 0,.gcSelected,
    .lookup "main" (24,80) 61 true]

def reattached : List SessionManager.Action :=
  [.lookup "main" (24,80) 0 true,.gcStart 90000,.gcInspect 0,.gcSelected,
    .lookup "main" (24,80) 90000 true,.attach 1 7 (24,80) 90000]

/-- The sweep takes the new session out of the map, and in the other run it removes one
with a stream. -/
theorem sweep_hits_others :
    (∃ h, run SessionManager.step (Host.new Limits.default) respawned = some h ∧
      ¬Collects h .gcRemove) ∧
    ∃ h, run SessionManager.step (Host.new Limits.default) reattached = some h ∧
      ¬Collects h .gcRemove := by
  constructor
  · refine ⟨_,rfl,fun h => ?_⟩
    exact absurd ((h "main" 0 [] rfl).1 1 (by decide)) (by decide)
  · refine ⟨_,rfl,fun h => ?_⟩
    exact absurd ((h "main" 0 [] rfl).2 _ rfl) (by decide)

/-- A sweep between the exit of one shell and the return to another. -/
theorem sweep_collects_exited : ∃ h, run SessionManager.step (Host.new Limits.default)
    [.lookup "main" (24,80) 0 true,.lookup "side" (24,80) 0 true,.session 0 .exit,.gcStart 60,
      .gcInspect 0,.gcInspect 0,.gcSelected,.attach 1 7 (24,80) 61] = some h ∧
    Collects h .gcRemove := by
  refine ⟨_,rfl,?_⟩
  have hok : Along SessionManager.step Undisturbed (Host.new Limits.default)
      [.lookup "main" (24,80) 0 true,.lookup "side" (24,80) 0 true,.session 0 .exit,.gcStart 60,
        .gcInspect 0,.gcInspect 0,.gcSelected,.attach 1 7 (24,80) 61,.gcRemove] := by decide
  have hall := sweep_collects_selected Limits.default _ hok
  exact (along_iff SessionManager.step).mp hall
    [.lookup "main" (24,80) 0 true,.lookup "side" (24,80) 0 true,.session 0 .exit,.gcStart 60,
      .gcInspect 0,.gcInspect 0,.gcSelected,.attach 1 7 (24,80) 61] .gcRemove [] _ rfl rfl

end Term.SessionSweep
