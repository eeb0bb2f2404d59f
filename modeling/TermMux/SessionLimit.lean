import TermMux.KeyedMap
import TermMux.SessionManager

/-!
# The session limit

`lookup_or_spawn` compares `max_sessions` with the size of the map. The map also holds
sessions whose shell is gone, until a sweep or a lookup of their own id removes them, so
there are never too many live sessions, but a new one can be refused where fewer are live.
-/

set_option autoImplicit false

namespace Term.SessionLimit
open Term.FrameModel Term.KeyedMap Term.Machine Term.SessionFanout Term.SessionManager
open Term.SessionState

def live (m : Manager) : ℕ := (m.map.entries.filter fun e => !m.exited e.2).length

def others (m : Manager) (id : SessionId) : ℕ := (m.map.erase id).entries.length

def Absent (m : Manager) (id : SessionId) : Prop :=
  ∀ k, m.map.lookup id = some k → m.exited k = true

def Refused (m : Manager) (id : SessionId) (initialSize : Size) (now : ℕ) : Prop :=
  (m.lookupOrSpawn id initialSize now true).2 = .error (.limitReached m.limits.maxSessions)

def Bounded (limits : Limits) (h : Host) : Prop :=
  h.manager.limits = limits ∧ h.manager.map.entries.length ≤ limits.maxSessions

theorem keys_length (m : Manager) : m.map.keys.length = m.map.entries.length := by
  rw [AList.keys, List.keys, List.length_map]

theorem live_le (m : Manager) : live m ≤ m.map.entries.length :=
  List.length_filter_le _ _

theorem live_le_others {m : Manager} {id : SessionId} (h : Absent m id) : live m ≤ others m id := by
  unfold others
  cases hl : m.map.lookup id with
  | none =>
    rw [erase_of_none hl]
    exact live_le m
  | some k =>
    have hperm := (entries_perm hl).filter fun e => !m.exited e.2
    rw [List.filter_cons_of_neg (by simp [h k hl])] at hperm
    rw [live, hperm.length_eq]
    exact List.length_filter_le _ _

/-- A lookup leaves the map as it is, less the entry of its id or with that entry in its place,
where there was room. -/
theorem lookup_bounded {limits : Limits} {m : Manager} {id : SessionId} {initialSize : Size}
    {now : ℕ} {spawns : Bool} (hlimits : m.limits = limits)
    (h : m.map.entries.length ≤ limits.maxSessions) :
    (m.lookupOrSpawn id initialSize now spawns).1.map.entries.length ≤ limits.maxSessions := by
  have hremoved : (m.remove id).map.entries.length ≤ limits.maxSessions :=
    (length_erase_le m.map id).trans h
  rcases m.lookupOrSpawn_cases id initialSize now spawns with ⟨k,-,-,heq⟩ |
    ⟨v,hv,⟨e,heq⟩ | ⟨hspawn,heq⟩⟩
  · rw [heq]
    exact h
  · rw [heq]
    rcases hv with rfl | rfl
    · exact h
    · exact hremoved
  · have hroom := hspawn.2.1
    rw [keys_length, hlimits] at hroom
    have hold : (v.map.erase id).entries.length ≤ (m.remove id).map.entries.length := by
      rcases hv with rfl | rfl
      · exact le_rfl
      · exact length_erase_le _ id
    rw [heq, Manager.insert, entries_insert, List.length_cons]
    omega

theorem step_bounded {limits : Limits} {h h' : Host} {a : SessionManager.Action}
    (hi : Bounded limits h) (hstep : SessionManager.step h a = some h') : Bounded limits h' := by
  refine ⟨(step_limits hstep).trans hi.1,?_⟩
  cases ht : h.target a with
  | some p =>
    obtain ⟨s,s',-,-,hm,-⟩ := step_target ht hstep
    rw [hm]
    exact hi.2
  | none =>
    cases a with
    | lookup id initialSize now spawns =>
      obtain ⟨-,-,hm⟩ := step_lookup hstep
      rw [hm]
      exact lookup_bounded hi.1 hi.2
    | attach j sid size now =>
      simp only [Host.target, Option.map_eq_none_iff] at ht
      simp [SessionManager.step, ht] at hstep
    | session k b => cases ht
    | killSession id =>
      obtain ⟨-,rfl⟩ := step_killSession hstep
      exact (length_erase_le h.manager.map id).trans hi.2
    | gcStart now =>
      obtain ⟨-,rfl⟩ := step_gcStart hstep
      exact hi.2
    | gcInspect j =>
      obtain ⟨now,todo,drops,e,-,-,rfl⟩ := step_gcInspect hstep
      exact hi.2
    | gcSelected =>
      obtain ⟨now,drops,-,rfl⟩ := step_gcSelected hstep
      exact hi.2
    | gcRemove =>
      obtain ⟨id,k,drops,-,rfl⟩ := step_gcRemove hstep
      exact (length_erase_le h.manager.map id).trans hi.2
    | gcKill =>
      obtain ⟨k,drops,-,rfl⟩ := step_gcKill hstep
      exact hi.2

theorem run_bounded {limits : Limits} {as : List SessionManager.Action} {h : Host}
    (hrun : run SessionManager.step (Host.new limits) as = some h) : Bounded limits h :=
  run_invariant SessionManager.step (fun _ _ _ hi hstep => step_bounded hi hstep)
    ⟨rfl,Nat.zero_le _⟩ hrun

theorem lookup_live {m : Manager} {id : SessionId} {k : ℕ} (hl : m.map.lookup id = some k)
    (hx : m.exited k = false) (initialSize : Size) (now : ℕ) (spawns : Bool) :
    m.lookupOrSpawn id initialSize now spawns = (m,.ok k) := by
  unfold Manager.lookupOrSpawn
  rw [hl]
  dsimp only
  rw [hx, if_neg Bool.false_ne_true]

theorem spawn_refused (m : Manager) (id : SessionId) (initialSize : Size) (now : ℕ) :
    (m.spawn id initialSize now true).2 = .error (.limitReached m.limits.maxSessions) ↔
      m.limits.maxSessions ≤ m.map.entries.length := by
  unfold Manager.spawn
  rw [keys_length]
  by_cases hcap : m.limits.maxSessions ≤ m.map.entries.length
  · rw [if_pos hcap]
    exact iff_of_true rfl hcap
  · rw [if_neg hcap, if_pos rfl]
    refine iff_of_false ?_ hcap
    intro hok
    cases hok

/-- What is refused depends on the entries of other ids, live or not. -/
theorem refused_iff {m : Manager} {id : SessionId} (h : Absent m id) (initialSize : Size)
    (now : ℕ) : Refused m id initialSize now ↔ m.limits.maxSessions ≤ others m id := by
  unfold Refused Manager.lookupOrSpawn others
  cases hl : m.map.lookup id with
  | none =>
    rw [erase_of_none hl]
    exact spawn_refused m id initialSize now
  | some k =>
    dsimp only
    rw [if_pos (h k hl)]
    exact spawn_refused (m.remove id) id initialSize now

/-- In every state of every run there are at most as many live sessions as the limit allows,
and a live session is returned. A new one is refused for live sessions alone exactly where
these reach the limit, or where all sessions under other ids together do not. -/
theorem session_limit (limits : Limits) (as : List SessionManager.Action) (h : Host)
    (hrun : run SessionManager.step (Host.new limits) as = some h) (id : SessionId) :
    live h.manager ≤ limits.maxSessions ∧
    (∀ k, h.manager.map.lookup id = some k → h.manager.exited k = false →
      ∀ initialSize now spawns,
        h.manager.lookupOrSpawn id initialSize now spawns = (h.manager,.ok k)) ∧
    (Absent h.manager id → ∀ initialSize now,
      (Refused h.manager id initialSize now ↔ limits.maxSessions ≤ live h.manager) ↔
        limits.maxSessions ≤ live h.manager ∨ others h.manager id < limits.maxSessions) := by
  obtain ⟨hlimits,hmap⟩ := run_bounded hrun
  refine ⟨(live_le h.manager).trans hmap,fun k hl hx => lookup_live hl hx,?_⟩
  intro habsent initialSize now
  have hle := live_le_others habsent
  rw [refused_iff habsent, hlimits]
  omega

def oneSession : Limits := { Limits.default with maxSessions := 1 }

def exited : List SessionManager.Action := [.lookup "main" (24,80) 0 true,.session 0 .exit]

/-- The id of the session that is gone can be opened again. -/
theorem session_limit_one : ∃ h, run SessionManager.step (Host.new oneSession) exited = some h ∧
    live h.manager ≤ 1 ∧ (Refused h.manager "main" (24,80) 1 ↔ 1 ≤ live h.manager) := by
  refine ⟨_,rfl,?_⟩
  obtain ⟨hle,-,hnew⟩ := session_limit oneSession exited _ rfl "main"
  refine ⟨hle,(hnew ?_ (24,80) 1).mpr (.inr (by decide))⟩
  intro k hk
  cases hk
  rfl

/-- A session that is gone keeps a new one from being opened. -/
theorem gone_session_counts : ¬ ∀ (limits : Limits) (as : List SessionManager.Action) (h : Host),
    run SessionManager.step (Host.new limits) as = some h → ∀ id : SessionId,
      live h.manager ≤ limits.maxSessions ∧
      (∀ k, h.manager.map.lookup id = some k → h.manager.exited k = false →
        ∀ initialSize now spawns,
          h.manager.lookupOrSpawn id initialSize now spawns = (h.manager,.ok k)) ∧
      (Absent h.manager id → ∀ initialSize now,
        Refused h.manager id initialSize now ↔ limits.maxSessions ≤ live h.manager) := by
  intro hclaim
  obtain ⟨-,-,hnew⟩ := hclaim oneSession exited _ rfl "side"
  refine absurd ((hnew ?_ (24,80) 1).mp rfl) (by decide)
  intro k hk
  cases hk

end Term.SessionLimit
