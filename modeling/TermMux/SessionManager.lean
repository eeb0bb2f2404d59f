import TermMux.SessionFanout

/-!
# The session manager

The map of sessions by id, `lookup_or_spawn`, the removal behind `KillSession` and
the sweep of idle and exited sessions. A session is identified by its position
in the list of all sessions ever spawned, as the source identifies it by its
`Arc`: the map only says which one an id names at the moment. The map lock is held over
the selection of a sweep, but the lock of each session only while it is looked at,
and a sweep removes and kills its entries one by one with the map lock released
in between.
-/

set_option autoImplicit false

namespace Term.SessionManager
open Term.FrameModel Term.Machine Term.SessionFanout Term.SessionState

abbrev SessionId := String

structure Limits where
  scrollbackCapBytes : ℕ
  idleTtl : ℕ
  maxSessions : ℕ
  deriving DecidableEq, Repr

def Limits.default : Limits := ⟨defaultScrollbackCapBytes,24*60*60,64⟩

structure Manager where
  limits : Limits
  sessions : List Fanout
  map : AList fun _ : SessionId => ℕ

inductive LookupError where
  | limitReached (maxSessions : ℕ)
  | spawnFailed
  deriving DecidableEq, Repr

namespace Manager

def new (limits : Limits) : Manager := ⟨limits,[],∅⟩

def exited (m : Manager) (k : ℕ) : Bool := (m.sessions[k]?).any fun s => s.inner.exited

def remove (m : Manager) (id : SessionId) : Manager := { m with map := m.map.erase id }

def insert (m : Manager) (id : SessionId) (s : Fanout) : Manager :=
  { m with sessions := m.sessions++[s], map := m.map.insert id m.sessions.length }

/-- The cap, then `Session::spawn`; `spawns` is whether the shell could be started. -/
def spawn (m : Manager) (id : SessionId) (initialSize : Size) (now : ℕ) (spawns : Bool) :
    Manager × Except LookupError ℕ :=
  if m.limits.maxSessions ≤ m.map.keys.length then (m,.error (.limitReached m.limits.maxSessions))
  else if spawns then
    (m.insert id (Fanout.spawn initialSize m.limits.scrollbackCapBytes now),.ok m.sessions.length)
  else (m,.error .spawnFailed)

def lookupOrSpawn (m : Manager) (id : SessionId) (initialSize : Size) (now : ℕ) (spawns : Bool) :
    Manager × Except LookupError ℕ :=
  match m.map.lookup id with
  | none => m.spawn id initialSize now spawns
  | some k =>
    -- A stale entry is removed even where the cap then refuses the new session.
    if m.exited k then (m.remove id).spawn id initialSize now spawns else (m,.ok k)

/-- The test of `gc_pass`. -/
def collectable (m : Manager) (now k : ℕ) : Bool :=
  (m.sessions[k]?).any fun s =>
    s.inner.exited || (s.inner.attached.keys.isEmpty &&
      m.limits.idleTtl < now-s.inner.lastAttachedAt)

end Manager

abbrev Entry := SessionId × ℕ

/-- Where `gc_pass` is. `todo` has not been looked at; `drops` is the selection. -/
inductive Sweep where
  | idle
  | selecting (now : ℕ) (todo drops : List Entry)
  | dropping (drops : List Entry)
  | killing (k : ℕ) (drops : List Entry)
  deriving DecidableEq, Repr

namespace Sweep

def dropAll : List Entry → Sweep
  | [] => .idle
  | e::drops => .dropping (e::drops)

def locksMap : Sweep → Bool
  | .selecting _ _ _ => true
  | _ => false

def waiting : Sweep → List Entry
  | .idle => []
  | .selecting _ _ drops => drops
  | .dropping drops => drops
  | .killing _ drops => drops

def doomed : Sweep → List ℕ
  | .killing k drops => k::drops.map Prod.snd
  | sweep => sweep.waiting.map Prod.snd

end Sweep

@[simp] theorem Sweep.waiting_dropAll (drops : List Entry) : (dropAll drops).waiting = drops := by
  cases drops <;> rfl

@[simp] theorem Sweep.doomed_dropAll (drops : List Entry) :
    (dropAll drops).doomed = drops.map Prod.snd := by
  cases drops <;> rfl

@[simp] theorem Sweep.locksMap_dropAll (drops : List Entry) : (dropAll drops).locksMap = false := by
  cases drops <;> rfl

/-- The manager, its sweeper, and the stream tasks that have a session from
`lookup_or_spawn` but have not yet attached to it. -/
structure Host where
  manager : Manager
  sweep : Sweep
  opened : List ℕ

def Host.new (limits : Limits) : Host := ⟨Manager.new limits,.idle,[]⟩

inductive Action where
  | lookup (id : SessionId) (initialSize : Size) (now : ℕ) (spawns : Bool)
  | attach (j : ℕ) (sid : StreamId) (size : Size) (now : ℕ)
  | session (k : ℕ) (a : SessionFanout.Action)
  | killSession (id : SessionId)
  | gcStart (now : ℕ)
  | gcInspect (j : ℕ)
  | gcSelected
  | gcRemove
  | gcKill
  deriving DecidableEq, Repr

namespace Host

def act (h : Host) (k : ℕ) (a : SessionFanout.Action) : Option Host :=
  match h.manager.sessions[k]? with
  | none => none
  | some s => (SessionFanout.step s a).map fun s' =>
    { h with manager := { h.manager with sessions := h.manager.sessions.set k s' } }

end Host

def step (h : Host) : Action → Option Host
  | .lookup id initialSize now spawns =>
    if h.sweep.locksMap then none else
    let (manager,found) := h.manager.lookupOrSpawn id initialSize now spawns
    match found with
    | .ok k => some { h with manager := manager, opened := h.opened++[k] }
    | .error _ => some { h with manager := manager }
  | .attach j sid size now =>
    match h.opened[j]? with
    | none => none
    | some k => Host.act { h with opened := h.opened.eraseIdx j } k (.attach sid size now)
  | .session _ (.attach _ _ _) => none
  | .session k a => h.act k a
  | .killSession id =>
    if h.sweep.locksMap then none else some { h with manager := h.manager.remove id }
  | .gcStart now =>
    match h.sweep with
    | .idle =>
      let todo := h.manager.map.entries.map fun e => (e.1,e.2)
      some { h with sweep := .selecting now todo [] }
    | _ => none
  | .gcInspect j =>
    match h.sweep with
    | .selecting now todo drops =>
      match todo[j]? with
      | none => none
      | some e =>
        let drops' := if h.manager.collectable now e.2 then drops++[e] else drops
        some { h with sweep := .selecting now (todo.eraseIdx j) drops' }
    | _ => none
  | .gcSelected =>
    match h.sweep with
    | .selecting _ [] drops => some { h with sweep := .dropAll drops }
    | _ => none
  | .gcRemove =>
    match h.sweep with
    | .dropping ((id,k)::drops) =>
      some { h with manager := h.manager.remove id, sweep := .killing k drops }
    | _ => none
  | .gcKill =>
    match h.sweep with
    | .killing _ drops => some { h with sweep := .dropAll drops }
    | _ => none

def Host.target (h : Host) : Action → Option (ℕ × SessionFanout.Action)
  | .attach j sid size now => (h.opened[j]?).map fun k => (k,.attach sid size now)
  | .session k a => some (k,a)
  | _ => none

namespace Manager

def SpawnsUnder (m : Manager) (id : SessionId) (spawns : Bool) : Prop :=
  (∀ k, m.map.lookup id = some k → m.exited k = true) ∧
    (m.remove id).map.keys.length < m.limits.maxSessions ∧ spawns = true

instance (m : Manager) (id : SessionId) (spawns : Bool) : Decidable (m.SpawnsUnder id spawns) :=
  decidable_of_iff ((∀ k ∈ m.map.lookup id, m.exited k = true) ∧
    (m.remove id).map.keys.length < m.limits.maxSessions ∧ spawns = true) Iff.rfl

theorem spawn_cases (m : Manager) (id : SessionId) (initialSize : Size) (now : ℕ) (spawns : Bool) :
    (∃ e, m.spawn id initialSize now spawns = (m,.error e)) ∨
    (m.map.keys.length < m.limits.maxSessions ∧ spawns = true ∧
      m.spawn id initialSize now spawns =
        (m.insert id (Fanout.spawn initialSize m.limits.scrollbackCapBytes now),
          .ok m.sessions.length)) := by
  unfold spawn
  by_cases hcap : m.limits.maxSessions ≤ m.map.keys.length
  · exact .inl ⟨_,if_pos hcap⟩
  · rw [if_neg hcap]
    cases spawns with
    | false => exact .inl ⟨_,rfl⟩
    | true => exact .inr ⟨not_le.mp hcap,rfl,rfl⟩

/-- A lookup finds a live session, fails and at most drops a stale entry, or spawns. -/
theorem lookupOrSpawn_cases (m : Manager) (id : SessionId) (initialSize : Size) (now : ℕ)
    (spawns : Bool) :
    (∃ k, m.map.lookup id = some k ∧ m.exited k = false ∧
      m.lookupOrSpawn id initialSize now spawns = (m,.ok k)) ∨
    ∃ v, (v = m ∨ v = m.remove id) ∧
      ((∃ e, m.lookupOrSpawn id initialSize now spawns = (v,.error e)) ∨
        m.SpawnsUnder id spawns ∧ m.lookupOrSpawn id initialSize now spawns =
          (v.insert id (Fanout.spawn initialSize m.limits.scrollbackCapBytes now),
            .ok m.sessions.length)) := by
  unfold lookupOrSpawn
  cases hl : m.map.lookup id with
  | none =>
    refine .inr ⟨m,.inl rfl,?_⟩
    rcases m.spawn_cases id initialSize now spawns with herr | ⟨hcap,hs,heq⟩
    · exact .inl herr
    · refine .inr ⟨⟨by simp [hl],?_,hs⟩,heq⟩
      change (m.map.erase id).keys.length < _
      rw [AList.keys_erase]
      exact Nat.lt_of_le_of_lt List.erase_sublist.length_le hcap
  | some k =>
    dsimp only
    by_cases hx : m.exited k = true
    · rw [if_pos hx]
      refine .inr ⟨m.remove id,.inr rfl,?_⟩
      rcases (m.remove id).spawn_cases id initialSize now spawns with herr | ⟨hcap,hs,heq⟩
      · exact .inl herr
      · refine .inr ⟨⟨?_,hcap,hs⟩,heq⟩
        intro k' hk'
        cases hl.symm.trans hk'
        exact hx
    · exact .inl ⟨k,rfl,Bool.not_eq_true _ ▸ hx,if_neg hx⟩

end Manager

theorem step_lookup {h h' : Host} {id : SessionId} {initialSize : Size} {now : ℕ} {spawns : Bool}
    (hstep : step h (.lookup id initialSize now spawns) = some h') :
    h.sweep.locksMap = false ∧ h'.sweep = h.sweep ∧
      h'.manager = (h.manager.lookupOrSpawn id initialSize now spawns).1 := by
  unfold step at hstep
  cases hl : h.sweep.locksMap with
  | true => simp [hl] at hstep
  | false =>
    simp only [hl, Bool.false_eq_true, if_false] at hstep
    refine ⟨rfl,?_⟩
    split at hstep <;>
    · cases hstep
      exact ⟨rfl,rfl⟩

theorem act_cases {h h' : Host} {k : ℕ} {a : SessionFanout.Action} (hact : h.act k a = some h') :
    ∃ s s', h.manager.sessions[k]? = some s ∧ SessionFanout.step s a = some s' ∧
      h' = { h with manager := { h.manager with sessions := h.manager.sessions.set k s' } } := by
  unfold Host.act at hact
  cases hk : h.manager.sessions[k]? with
  | none => simp [hk] at hact
  | some s =>
    simp only [hk] at hact
    obtain ⟨s',hs',heq⟩ := Option.map_eq_some_iff.mp hact
    exact ⟨s,s',rfl,hs',heq.symm⟩

theorem step_target {h h' : Host} {a : Action} {k : ℕ} {b : SessionFanout.Action}
    (ht : h.target a = some (k,b)) (hstep : step h a = some h') :
    ∃ s s', h.manager.sessions[k]? = some s ∧ SessionFanout.step s b = some s' ∧
      h'.manager = { h.manager with sessions := h.manager.sessions.set k s' } ∧
      h'.sweep = h.sweep := by
  cases a with
  | attach j sid size now =>
    simp only [Host.target, Option.map_eq_some_iff, Prod.mk.injEq] at ht
    obtain ⟨_,hj,rfl,rfl⟩ := ht
    simp only [step, hj] at hstep
    obtain ⟨s,s',hk,hs',rfl⟩ := act_cases hstep
    exact ⟨s,s',hk,hs',rfl,rfl⟩
  | session k' b' =>
    cases ht
    have hact : h.act k b = some h' := by
      cases b with
      | attach sid size now => cases hstep
      | _ => exact hstep
    obtain ⟨s,s',hk,hs',rfl⟩ := act_cases hact
    exact ⟨s,s',hk,hs',rfl,rfl⟩
  | _ => cases ht

theorem step_killSession {h h' : Host} {id : SessionId}
    (hstep : step h (.killSession id) = some h') :
    h.sweep.locksMap = false ∧ h' = { h with manager := h.manager.remove id } := by
  simp only [step, Option.ite_none_left_eq_some, Option.some.injEq, Bool.not_eq_true] at hstep
  exact ⟨hstep.1,hstep.2.symm⟩

theorem step_gcStart {h h' : Host} {now : ℕ} (hstep : step h (.gcStart now) = some h') :
    h.sweep = .idle ∧ h' = { h with
      sweep := .selecting now (h.manager.map.entries.map fun e => (e.1,e.2)) [] } := by
  simp only [step] at hstep
  split at hstep
  · next hs =>
    cases hstep
    exact ⟨hs,rfl⟩
  · cases hstep

theorem step_gcInspect {h h' : Host} {j : ℕ} (hstep : step h (.gcInspect j) = some h') :
    ∃ now todo drops e, h.sweep = .selecting now todo drops ∧ todo[j]? = some e ∧
      h' = { h with
        sweep := .selecting now (todo.eraseIdx j)
          (if h.manager.collectable now e.2 then drops++[e] else drops) } := by
  simp only [step] at hstep
  split at hstep
  · next now todo drops hs =>
    split at hstep
    · cases hstep
    · next e he =>
      cases hstep
      exact ⟨now,todo,drops,e,hs,he,rfl⟩
  · cases hstep

theorem step_gcSelected {h h' : Host} (hstep : step h .gcSelected = some h') :
    ∃ now drops, h.sweep = .selecting now [] drops ∧ h' = { h with sweep := .dropAll drops } := by
  simp only [step] at hstep
  split at hstep
  · next now drops hs =>
    cases hstep
    exact ⟨now,drops,hs,rfl⟩
  · cases hstep

theorem step_gcRemove {h h' : Host} (hstep : step h .gcRemove = some h') :
    ∃ id k drops, h.sweep = .dropping ((id,k)::drops) ∧
      h' = { h with manager := h.manager.remove id, sweep := .killing k drops } := by
  simp only [step] at hstep
  split at hstep
  · next id k drops hs =>
    cases hstep
    exact ⟨id,k,drops,hs,rfl⟩
  · cases hstep

theorem step_gcKill {h h' : Host} (hstep : step h .gcKill = some h') :
    ∃ k drops, h.sweep = .killing k drops ∧ h' = { h with sweep := .dropAll drops } := by
  simp only [step] at hstep
  split at hstep
  · next k drops hs =>
    cases hstep
    exact ⟨k,drops,hs,rfl⟩
  · cases hstep

theorem step_untargeted {h h' : Host} {a : Action} (ht : h.target a = none)
    (hstep : step h a = some h') :
    h'.manager.limits = h.manager.limits ∧
      (h'.manager.sessions = h.manager.sessions ∨
      ∃ initialSize cap now,
        h'.manager.sessions = h.manager.sessions++[Fanout.spawn initialSize cap now]) := by
  cases a with
  | lookup id initialSize now spawns =>
    obtain ⟨-,-,hm⟩ := step_lookup hstep
    rw [hm]
    rcases h.manager.lookupOrSpawn_cases id initialSize now spawns with ⟨k,-,-,heq⟩ |
      ⟨v,hv,⟨e,heq⟩ | ⟨-,heq⟩⟩
    · rw [heq]
      exact ⟨rfl,.inl rfl⟩
    · rw [heq]
      rcases hv with rfl | rfl <;> exact ⟨rfl,.inl rfl⟩
    · rw [heq]
      rcases hv with rfl | rfl <;> exact ⟨rfl,.inr ⟨_,_,_,rfl⟩⟩
  | attach j sid size now =>
    simp only [Host.target, Option.map_eq_none_iff] at ht
    simp [step, ht] at hstep
  | session k b => cases ht
  | killSession id =>
    obtain ⟨-,rfl⟩ := step_killSession hstep
    exact ⟨rfl,.inl rfl⟩
  | gcStart now =>
    obtain ⟨-,rfl⟩ := step_gcStart hstep
    exact ⟨rfl,.inl rfl⟩
  | gcInspect j =>
    obtain ⟨now,todo,drops,e,-,-,rfl⟩ := step_gcInspect hstep
    exact ⟨rfl,.inl rfl⟩
  | gcSelected =>
    obtain ⟨now,drops,-,rfl⟩ := step_gcSelected hstep
    exact ⟨rfl,.inl rfl⟩
  | gcRemove =>
    obtain ⟨id,k,drops,-,rfl⟩ := step_gcRemove hstep
    exact ⟨rfl,.inl rfl⟩
  | gcKill =>
    obtain ⟨k,drops,-,rfl⟩ := step_gcKill hstep
    exact ⟨rfl,.inl rfl⟩

theorem step_limits {h h' : Host} {a : Action} (hstep : step h a = some h') :
    h'.manager.limits = h.manager.limits := by
  cases ht : h.target a with
  | none => exact (step_untargeted ht hstep).1
  | some kb =>
    obtain ⟨s,s',-,-,hm,-⟩ := step_target ht hstep
    rw [hm]

end Term.SessionManager
