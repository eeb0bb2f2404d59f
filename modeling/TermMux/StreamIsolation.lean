import TermMux.AgentStreams
import TermMux.StreamEnds

/-!
# Streams do not disturb each other

Both readers keep a table of streams: the hub with one queue a stream, the agent
with one a priority class. What each places on the queues of a stream is a prefix of
what was addressed to it, and a function of what the stream itself was given.
-/

set_option autoImplicit false

namespace Term.StreamIsolation
open Term.FrameModel Term.Machine Term.StreamDemux
open Term.HubLink (Half half allocStreamId)

section Hub
open Term.HubStreams Term.StreamEnds

def hubCap (_ : Unit) : ℕ := streamChanCap

def hubEntry (p : Proxy) : Entry UInt32 Unit Body := ⟨p.sid,p.alive,fun _ => p.queue⟩

def hubTable (s : Hub) : Table UInt32 Unit Body := ⟨s.proxies.map hubEntry,s.streams,s.log⟩

variable {s t : Hub} {a : Act}

theorem hubTable_get {k : ℕ} {p : Proxy} (hp : s.proxies[k]? = some p) :
    (hubTable s).entries[k]? = some (hubEntry p) := by
  simp [hubTable, hp]

theorem update_unit (q r : List Body) : Function.update (fun _ : Unit => q) () r = fun _ => r := by
  funext u
  simp

theorem hubTable_demux (s : Hub) (sid : UInt32) (body : Body) :
    hubTable (demux s sid body) = (hubTable s).apply hubCap (.frame sid () body) := by
  have hentry : ∀ k : ℕ, ((hubTable s).entries[k]?.filter (Entry.takes hubCap ())) =
      (s.proxies[k]?.filter Proxy.takes).map hubEntry := by
    intro k
    simp only [hubTable, List.getElem?_map, Option.filter_map]
    rfl
  have hsenders : (hubTable s).senders = s.streams := rfl
  unfold demux
  simp only [Table.apply, hsenders]
  cases s.streams.lookup sid with
  | none => rfl
  | some k =>
    simp only [hentry]
    cases s.proxies[k]?.filter Proxy.takes with
    | none => rfl
    | some p =>
      simp only [Option.map_some, hubTable, hubEntry, List.map_set, update_unit]
      rfl

theorem hubTable_open (s : Hub) :
    hubTable (openStream s) =
      (hubTable s).apply hubCap (.open_ (allocStreamId s.nextStreamId).1) := by
  simp only [hubTable, openStream, Table.apply, List.map_append, List.map_cons, List.map_nil,
    List.length_map]
  rfl

def HubCause (s : Hub) (a : Act) : Op UInt32 Unit Body → Prop
  | .open_ k => a = .openStream ∧ k = (allocStreamId s.nextStreamId).1
  | .frame _ _ _ => s.reading = true
  | .clear => s.reading = false
  | _ => True

theorem hubTable_step (h : step s a = some t) : hubTable t = hubTable s ∨
    ∃ op, hubTable t = (hubTable s).apply hubCap op ∧ HubCause s a op := by
  cases effect_of_step h with
  | idle a r l u => exact .inl rfl
  | opened =>
    refine .inr ⟨.open_ (allocStreamId s.nextStreamId).1,hubTable_open s,rfl,rfl⟩
  | frame f hsid =>
    have hreading : s.reading = true := by
      simp only [step, Option.ite_none_right_eq_some] at h
      exact h.1
    refine .inr ⟨.frame f.streamId () f.body,?_,hreading⟩
    rw [← hubTable_demux, handleFrame_stream hsid]
    split <;> rfl
  | moved a k p q hp hrunning hsid hqueue hlive =>
    have hentry : hubEntry q = hubEntry p := by
      have halive : p.alive = true := by simp [Proxy.alive, hrunning]
      simp only [hubEntry, hsid, hqueue, hlive, halive]
    left
    simp only [hubTable, setProxy, map_set_same hubEntry hp hentry]
  | took k p hp hrunning =>
    refine .inr ⟨.take k (),?_,trivial⟩
    simp only [Table.apply, hubTable_get hp]
    simp only [hubTable, setProxy, hubEntry, List.map_set, update_unit]
    rfl
  | forwarded k p body hp hrunning =>
    left
    simp only [hubTable, setProxy]
    rw [map_set_same hubEntry hp]
    rfl
  | returned k p hp hclosing =>
    refine .inr ⟨.drop k,?_,trivial⟩
    simp only [Table.apply, hubTable_get hp]
    simp only [hubTable, setProxy, List.map_set]
    rfl
  | cleaned k p hp hreturned =>
    refine .inr ⟨.remove k,?_,trivial⟩
    have hentry : hubEntry { p with phase := .cleaned } = hubEntry p := by
      simp only [hubEntry, Proxy.alive, hreturned]
      rfl
    simp only [Table.apply, hubTable_get hp]
    simp only [hubTable, setProxy, map_set_same hubEntry hp hentry]
    rfl
  | cleared =>
    have hreading : s.reading = false := by
      simp only [step, Option.ite_none_right_eq_some] at h
      exact h.1.1
    exact .inr ⟨.clear,rfl,hreading⟩

theorem reading_step (h : step s a = some t) (ht : t.reading = true) : s.reading = true := by
  have hframe : ∀ f, step s (.agentFrame f) = some t → s.reading = true := by
    intro f hf
    simp only [step, Option.ite_none_right_eq_some] at hf
    exact hf.1
  cases effect_of_step h with
  | idle a r l u hr => exact hr ht
  | frame f hsid => exact hframe f h
  | opened
  | moved a k p q hp hr hs hq hl
  | took k p hp hr
  | forwarded k p body hp hr
  | returned k p hp hc
  | cleaned k p hp hr
  | cleared => exact ht

structure Counted (s : Hub) : Prop where
  next : s.nextStreamId.toNat = s.proxies.length+1
  ids : ∀ e ∈ (hubTable s).entries.map Entry.key, e.toNat ≤ s.proxies.length

theorem alloc_toNat {next : UInt32} {n : ℕ} (h : next.toNat = n+1) (hn : n+1 < 2^32-1) :
    (allocStreamId next).1 = next ∧ (allocStreamId next).2.toNat = n+2 := by
  have hne : next ≠ 0 := by
    rintro rfl
    simp at h
  unfold allocStreamId
  rw [if_pos hne]
  refine ⟨rfl,?_⟩
  rw [UInt32.toNat_add, h, UInt32.toNat_one]
  exact Nat.mod_eq_of_lt (by omega)

theorem handleFrame_ids (s : Hub) (f : Frame) :
    (handleFrame s f).nextStreamId = s.nextStreamId ∧
      (handleFrame s f).proxies.length = s.proxies.length := by
  have hdemux : ∀ sid body, (demux s sid body).nextStreamId = s.nextStreamId ∧
      (demux s sid body).proxies.length = s.proxies.length := by
    intro sid body
    unfold demux
    split
    · exact ⟨rfl,rfl⟩
    · split
      · exact ⟨rfl,List.length_set⟩
      · exact ⟨rfl,rfl⟩
  unfold handleFrame
  split
  · split <;> exact ⟨rfl,rfl⟩
  · split
    · exact hdemux _ _
    · exact hdemux _ _

theorem step_ids (h : step s a = some t) (ha : a ≠ .openStream) :
    t.nextStreamId = s.nextStreamId ∧ t.proxies.length = s.proxies.length := by
  cases effect_of_step h with
  | idle a r l u => exact ⟨rfl,rfl⟩
  | opened => exact absurd rfl ha
  | frame f hsid => exact handleFrame_ids s f
  | moved a k p q hp hr hs hq hl
  | took k p hp hr
  | forwarded k p body hp hr
  | returned k p hp hc
  | cleaned k p hp hr => exact ⟨rfl,List.length_set⟩
  | cleared => exact ⟨rfl,rfl⟩

structure HubSync (bs : List Act) (s : Hub) : Prop where
  reading : .cleared ∈ (hubTable s).log → s.reading = false
  opened : s.proxies.length = bs.count .openStream
  table : bs.count .openStream < 2^32-1 → Table.Sync hubCap (hubTable s) ∧ Counted s

theorem counted_open {u : Hub} (h : Counted u) (hlen : u.proxies.length+1 < 2^32-1) :
    Counted (openStream u) := by
  obtain ⟨hid,hnext⟩ := alloc_toNat h.next hlen
  refine ⟨?_,?_⟩
  · simp [openStream, hnext]
  · intro e he
    simp only [hubTable, openStream, List.map_append, List.map_cons, List.map_nil, List.mem_append,
      List.mem_singleton] at he
    simp only [openStream, List.length_append, List.length_singleton]
    rcases he with hold | rfl
    · exact (h.ids e hold).trans (Nat.le_succ _)
    · show (allocStreamId u.nextStreamId).1.toNat ≤ _
      rw [hid, h.next]

theorem fresh_id {u : Hub} (h : Counted u) (hlen : u.proxies.length+1 < 2^32-1) :
    (allocStreamId u.nextStreamId).1 ∉ (hubTable u).entries.map Entry.key := by
  intro hmem
  have hle := h.ids _ hmem
  rw [(alloc_toNat h.next hlen).1, h.next] at hle
  omega

theorem ids_step (h : step s a = some t) (ha : a ≠ .openStream) :
    (hubTable t).entries.map Entry.key = (hubTable s).entries.map Entry.key := by
  rcases hubTable_step h with heq | ⟨op,heq,hcause⟩
  · rw [heq]
  · rw [heq]
    apply keys_apply
    rintro k rfl
    exact ha hcause.1

theorem hubReading_step (h : .cleared ∈ (hubTable s).log → s.reading = false)
    (hstep : step s a = some t) (ht : .cleared ∈ (hubTable t).log) : t.reading = false := by
  have hold : s.reading = false → t.reading = false := by
    intro hs
    cases hreading : t.reading with
    | false => rfl
    | true => exact absurd (hs.symm.trans (reading_step hstep hreading)) (by decide)
  apply hold
  rcases hubTable_step hstep with heq | ⟨op,heq,hcause⟩
  · rw [heq] at ht
    exact h ht
  · rw [heq] at ht
    rcases cleared_apply ht with hs | rfl
    · exact h hs
    · exact hcause

theorem hubSync_step (bs : List Act) (h : HubSync bs s) (hstep : step s a = some t) :
    HubSync (bs++[a]) t := by
  have hreading := hubReading_step h.reading hstep
  by_cases ha : a = .openStream
  · subst ha
    have hcount : (bs++[Act.openStream]).count .openStream = bs.count .openStream+1 := by simp
    simp only [step, Option.ite_none_right_eq_some, Option.some.injEq] at hstep
    obtain ⟨-,rfl⟩ := hstep
    have hlen : (openStream s).proxies.length = s.proxies.length+1 := by simp [openStream]
    refine ⟨hreading,?_,fun hfew => ?_⟩
    · rw [hcount, hlen, h.opened]
    · rw [hcount] at hfew
      obtain ⟨hsync,hcounted⟩ := h.table (by omega)
      have hroom : s.proxies.length+1 < 2^32-1 := by
        rw [h.opened]
        exact hfew
      refine ⟨?_,counted_open hcounted hroom⟩
      rw [hubTable_open]
      exact sync_apply hsync (fresh_id hcounted hroom)
  · have hcount : (bs++[a]).count .openStream = bs.count .openStream := by simp [ha]
    obtain ⟨hnext,hlen⟩ := step_ids hstep ha
    refine ⟨hreading,?_,fun hfew => ?_⟩
    · rw [hcount, hlen, h.opened]
    · rw [hcount] at hfew
      obtain ⟨hsync,hcounted⟩ := h.table hfew
      refine ⟨?_,?_,?_⟩
      · rcases hubTable_step hstep with heq | ⟨op,heq,hcause⟩
        · rw [heq]
          exact hsync
        · rw [heq]
          apply sync_apply hsync
          cases op with
          | open_ k => exact absurd hcause.1 ha
          | frame k c b =>
            intro hcleared
            exact absurd ((h.reading hcleared).symm.trans hcause) (by decide)
          | take i c
          | drop i
          | remove i
          | clear => trivial
      · rw [hnext, hlen]
        exact hcounted.next
      · rw [ids_step hstep ha, hlen]
        exact hcounted.ids

theorem hubSync_of_run {as : List Act} (hrun : run step Hub.start as = some s) : HubSync as s := by
  apply run_history step _ (fun bs u a v _ h hstep => hubSync_step bs h hstep) hrun
  refine ⟨nofun,rfl,fun _ => ⟨sync_empty,rfl,?_⟩⟩
  exact fun e he => absurd he (List.not_mem_nil)

end Hub

section Agent
open Term.AgentStreams

def agentEntry (t : Task) : Entry UInt32 Half Body := ⟨t.sid,t.live,t.queue⟩

def agentTable (s : Agent) : Table UInt32 Half Body := ⟨s.tasks.map agentEntry,s.streams,s.log⟩

/-- `Open` comes once for a stream id. -/
def OpensOnce (s : Agent) : Act → Prop
  | .hubFrame f => f.ty = .open_ → f.streamId ∉ s.tasks.map Task.sid
  | _ => True

structure AgentSync (s : Agent) : Prop where
  reading : .cleared ∈ s.log → s.reading = false
  table : Table.Sync streamCap (agentTable s)

variable {s t : Agent} {a : Act}

theorem agentTable_get {k : ℕ} {p : Task} (hp : s.tasks[k]? = some p) :
    (agentTable s).entries[k]? = some (agentEntry p) := by
  simp [agentTable, hp]

theorem agentTable_demux (s : Agent) (sid : UInt32) (body : Body) :
    agentTable (demux s sid body) =
      (agentTable s).apply streamCap (.frame sid (half body.ty) body) := by
  have hentry : ∀ k : ℕ,
      ((agentTable s).entries[k]?.filter (Entry.takes streamCap (half body.ty))) =
        (s.tasks[k]?.filter (Task.takes (half body.ty))).map agentEntry := by
    intro k
    simp only [agentTable, List.getElem?_map, Option.filter_map]
    rfl
  have hsenders : (agentTable s).senders = s.streams := rfl
  unfold demux
  simp only [Table.apply, hsenders]
  cases s.streams.lookup sid with
  | none => rfl
  | some k =>
    simp only [hentry]
    cases s.tasks[k]?.filter (Task.takes (half body.ty)) with
    | none => rfl
    | some p =>
      simp only [Option.map_some, agentTable, agentEntry, List.map_set]
      rfl

theorem agentTable_keep {k : ℕ} {p q : Task} (hp : s.tasks[k]? = some p)
    (hentry : agentEntry q = agentEntry p) (htasks : t.tasks = s.tasks.set k q)
    (hstreams : t.streams = s.streams) (hlog : t.log = s.log) : agentTable t = agentTable s := by
  unfold agentTable
  rw [htasks, hstreams, hlog, map_set_same agentEntry hp hentry]

theorem sync_dropped {k : ℕ} {p : Task} {phase : Phase} (h : Table.Sync streamCap (agentTable s))
    (hp : s.tasks[k]? = some p) (htasks : t.tasks = s.tasks.set k { p with phase := phase })
    (hlive : Task.live { p with phase := phase } = false) (hstreams : t.streams = s.streams)
    (hlog : t.log = s.log++[.dropped p.sid]) : Table.Sync streamCap (agentTable t) := by
  have hdrop : agentTable t = (agentTable s).apply streamCap (.drop k) := by
    simp only [Table.apply, agentTable_get hp]
    unfold agentTable agentEntry
    rw [htasks, hstreams, hlog, List.map_set, hlive]
  rw [hdrop]
  exact sync_drop h

theorem agentTable_take {k : ℕ} {p : Task} {c : Half} (hp : s.tasks[k]? = some p)
    (htasks : t.tasks = s.tasks.set k { p with queue := Function.update p.queue c (p.queue c).tail })
    (hstreams : t.streams = s.streams) (hlog : t.log = s.log++[.took p.sid c]) :
    agentTable t = (agentTable s).apply streamCap (.take k c) := by
  simp only [Table.apply, agentTable_get hp]
  unfold agentTable
  rw [htasks, hstreams, hlog, List.map_set]
  rfl

theorem agentTable_open (s : Agent) (sid : UInt32) :
    agentTable (openTask s sid) = (agentTable s).apply streamCap (.open_ sid) := by
  simp only [agentTable, openTask, Table.apply, List.map_append, List.map_cons, List.map_nil,
    List.length_map]
  rfl

theorem sync_took {k m : ℕ} {p : Task} {c : Half} {b : Body}
    (h : Table.Sync streamCap (agentTable s)) (hp : s.tasks[k]? = some p) :
    Table.Sync streamCap (agentTable (took s k m p c b)) := by
  let q : Task := { p with queue := Function.update p.queue c (p.queue c).tail }
  let u : Agent := { setTask s k q with log := s.log++[.took p.sid c] }
  have hsync : Table.Sync streamCap (agentTable u) := by
    rw [agentTable_take (t := u) hp rfl rfl rfl]
    exact sync_take h
  unfold took
  split
  · have hq : u.tasks[k]? = some q :=
      List.getElem?_set_self (List.getElem?_eq_some_iff.mp hp).1
    exact sync_dropped hsync hq (List.set_set q).symm rfl rfl rfl
  · exact hsync

theorem agentTable_remove {k : ℕ} {p : Task} (hp : s.tasks[k]? = some p)
    (hphase : p.phase = .closed) :
    agentTable { setTask s k { p with phase := .done } with
        streams := s.streams.erase p.sid
        log := s.log++[.removed p.sid] } = (agentTable s).apply streamCap (.remove k) := by
  have hentry : agentEntry { p with phase := .done } = agentEntry p := by
    simp only [agentEntry, Task.live, hphase]
  simp only [Table.apply, agentTable_get hp]
  simp only [agentTable, setTask, map_set_same agentEntry hp hentry]
  rfl

theorem agentTable_sync (h : AgentSync s) (hok : OpensOnce s a) (hstep : step s a = some t) :
    Table.Sync streamCap (agentTable t) := by
  have hkeep : agentTable t = agentTable s → Table.Sync streamCap (agentTable t) := by
    intro heq
    rw [heq]
    exact h.table
  cases effect_of_step hstep with
  | idle a reading hreading => exact h.table
  | opened f hreading hty =>
    rw [agentTable_open]
    apply sync_open h.table
    simp only [agentTable, List.map_map]
    exact hok hty
  | frame f hreading =>
    rw [agentTable_demux]
    apply sync_frame h.table
    intro hcleared
    exact absurd ((h.reading hcleared).symm.trans hreading) (by decide)
  | moved a k p phase closes hp hoff halive hphase hlive =>
    apply hkeep (agentTable_keep hp _ rfl rfl rfl)
    simp only [agentEntry, hlive]
  | refused k p hp hphase => exact sync_dropped h.table hp rfl rfl rfl rfl
  | attached k m p hp hphase =>
    apply hkeep (agentTable_keep hp _ rfl rfl rfl)
    simp only [agentEntry, Task.live, hphase]
  | took k m p c b hp hphase => exact sync_took h.table hp
  | stopped a k m p closes hp hphase => exact sync_dropped h.table hp rfl rfl rfl rfl
  | detached k m p hp hphase =>
    apply hkeep (agentTable_keep hp _ rfl rfl rfl)
    simp only [agentEntry, Task.live, hphase]
  | removed k p hp hphase =>
    rw [agentTable_remove hp hphase]
    exact sync_remove h.table
  | cleared hreading => exact sync_clear h.table

/-- A step adds `cleared` to the log only when the reader has ended. -/
theorem log_step (hstep : step s a = some t) :
    ∃ events, t.log = s.log++events ∧ (.cleared ∈ events → s.reading = false) := by
  cases effect_of_step hstep with
  | idle a reading hreading
  | moved a k p phase closes hp hoff halive hphase hlive
  | attached k m p hp hphase
  | detached k m p hp hphase => exact ⟨[],(List.append_nil _).symm,by simp⟩
  | opened f hreading hty
  | refused k p hp hphase
  | stopped a k m p closes hp hphase
  | removed k p hp hphase => exact ⟨[_],rfl,by simp⟩
  | frame f hreading =>
    unfold demux
    split
    · exact ⟨[_],rfl,by simp⟩
    · simp only
      split <;> exact ⟨[_],rfl,by simp⟩
  | took k m p c b hp hphase =>
    unfold took
    split
    · exact ⟨[_,_],List.append_assoc _ _ _,by simp⟩
    · exact ⟨[_],rfl,by simp⟩
  | cleared hreading => exact ⟨[_],rfl,fun _ => hreading⟩

theorem reading_false (hstep : step s a = some t) (h : s.reading = false) : t.reading = false := by
  cases effect_of_step hstep with
  | idle a reading hreading =>
    cases hr : reading with
    | false => rfl
    | true => exact absurd (h.symm.trans (hreading hr)) (by decide)
  | frame f hreading => exact absurd (h.symm.trans hreading) (by decide)
  | took k m p c b hp hphase =>
    unfold took
    split <;> exact h
  | opened f hreading hty
  | moved a k p phase closes hp hoff halive hphase hlive
  | refused k p hp hphase
  | attached k m p hp hphase
  | stopped a k m p closes hp hphase
  | detached k m p hp hphase
  | removed k p hp hphase
  | cleared hreading => exact h

theorem agentReading_step (h : .cleared ∈ s.log → s.reading = false) (hstep : step s a = some t)
    (hcleared : .cleared ∈ t.log) : t.reading = false := by
  obtain ⟨events,hlog,hevents⟩ := log_step hstep
  rw [hlog] at hcleared
  rcases List.mem_append.mp hcleared with hold | hnew
  · exact reading_false hstep (h hold)
  · exact reading_false hstep (hevents hnew)

theorem agentSync_of_run {as : List Act} (hok : Along step OpensOnce Agent.start as)
    (hrun : run step Agent.start as = some s) : AgentSync s := by
  apply run_along step _ ⟨nofun,sync_empty⟩ hok hrun
  intro s a t h hok hstep
  exact ⟨agentReading_step h.reading hstep,agentTable_sync h hok hstep⟩

end Agent

section Isolation
open Term.HubStreams (Hub)
open Term.AgentStreams (Agent)

variable {K C α : Type} [DecidableEq K] [DecidableEq C]

structure Isolated (t t' : Table K C α) (k : K) (c : C) : Prop where
  placed : placedOn k c t.log <+: addressedOn k c t.log
  queued : ∀ e ∈ t.entries, e.key = k → e.queue c <:+ placedOn k c t.log
  same : inputs k t.log = inputs k t'.log → placedOn k c t.log = placedOn k c t'.log

theorem isolated_of_sync {cap : C → ℕ} {t t' : Table K C α} (h : Table.Sync cap t)
    (h' : Table.Sync cap t') (k : K) (c : C) : Isolated t t' k c where
  placed := (placed_isPrefix (h.honest k)).1
  queued := by
    rintro e he rfl
    obtain ⟨i,hi⟩ := List.mem_iff_getElem?.mp he
    have hqueue := queue_suffix (c := c) (h.honest e.key)
    rw [h.port, port_eq (entryOf_get h.keys hi)] at hqueue
    exact hqueue
  same := placed_of_inputs (h.honest k) (h'.honest k) (h.first k) (h'.first k)

/-- In any two runs of the hub's reader and any two of the agent's, each stream is placed
what it was addressed up to a first refusal, and what the other streams are addressed or
how they overflow makes no difference to it. -/
theorem streams_isolated (as as' : List HubStreams.Act) (s s' : Hub)
    (bs bs' : List AgentStreams.Act) (u u' : Agent)
    (hhub : run HubStreams.step Hub.start as = some s)
    (hhub' : run HubStreams.step Hub.start as' = some s')
    (hfew : as.count .openStream < 2^32-1) (hfew' : as'.count .openStream < 2^32-1)
    (hagent : run AgentStreams.step Agent.start bs = some u)
    (hagent' : run AgentStreams.step Agent.start bs' = some u')
    (honce : Along AgentStreams.step OpensOnce Agent.start bs)
    (honce' : Along AgentStreams.step OpensOnce Agent.start bs') :
    (∀ sid, Isolated (hubTable s) (hubTable s') sid ()) ∧
      ∀ sid c, Isolated (agentTable u) (agentTable u') sid c := by
  have hs := ((hubSync_of_run hhub).table hfew).1
  have hs' := ((hubSync_of_run hhub').table hfew').1
  have hu := (agentSync_of_run honce hagent).table
  have hu' := (agentSync_of_run honce' hagent').table
  exact ⟨fun sid => isolated_of_sync hs hs' sid (),isolated_of_sync hu hu'⟩

def quietHub : List HubStreams.Act :=
  [.lookup,.openStream,.lookup,.openStream,.agentFrame (Frame.data 1 [104])]

def floodedHub : List HubStreams.Act :=
  [.lookup,.openStream,.lookup,.openStream]++
    List.replicate 65 (.agentFrame (Frame.data 2 [97]))++[.agentFrame (Frame.data 1 [104])]

def openAct (sid : UInt32) : AgentStreams.Act := .hubFrame ⟨sid,.open_ "main" (24,80)⟩

def quietAgent : List AgentStreams.Act := [openAct 1,.hubFrame (Frame.data 1 [104])]

def floodedAgent : List AgentStreams.Act :=
  [openAct 1,openAct 2]++List.replicate 65 (.hubFrame (Frame.data 2 [97]))++
    [.hubFrame (Frame.data 1 [104])]

instance (s : Agent) (a : AgentStreams.Act) : Decidable (OpensOnce s a) :=
  match a with
  | .hubFrame f => inferInstanceAs (Decidable (f.ty = .open_ → f.streamId ∉ s.tasks.map _))
  | .lookup _ _ => isTrue trivial
  | .attach _ => isTrue trivial
  | .take _ => isTrue trivial
  | .stop _ => isTrue trivial
  | .sessionClosed _ => isTrue trivial
  | .detach _ => isTrue trivial
  | .sendClose _ => isTrue trivial
  | .remove _ => isTrue trivial
  | .readEnds => isTrue trivial
  | .teardown => isTrue trivial

theorem flood_elsewhere_isolated : ∃ s s' u u', run HubStreams.step Hub.start quietHub = some s ∧
    run HubStreams.step Hub.start floodedHub = some s' ∧
    run AgentStreams.step Agent.start quietAgent = some u ∧
    run AgentStreams.step Agent.start floodedAgent = some u' ∧
    s'.streams.lookup 2 = none ∧ inputs 1 s.log = inputs 1 s'.log ∧
    placedOn 1 () s.log = placedOn 1 () s'.log ∧
    u'.streams.lookup 2 = none ∧ inputs 1 u.log = inputs 1 u'.log ∧
    placedOn 1 .hi u.log = placedOn 1 .hi u'.log := by
  have hs : ((run HubStreams.step Hub.start quietHub).map fun s => inputs 1 s.log) =
      some [.opened 1,.frame 1 () (.data [104]) false] := by decide +kernel
  have hs' : ((run HubStreams.step Hub.start floodedHub).map fun s =>
      (s.streams.lookup 2,inputs 1 s.log)) =
      some (none,[.opened 1,.frame 1 () (.data [104]) false]) := by decide +kernel
  have hu : ((run AgentStreams.step Agent.start quietAgent).map fun s => inputs 1 s.log) =
      some [.opened 1,.frame 1 .hi (.data [104]) false] := by decide +kernel
  have hu' : ((run AgentStreams.step Agent.start floodedAgent).map fun s =>
      (s.streams.lookup 2,inputs 1 s.log)) =
      some (none,[.opened 1,.frame 1 .hi (.data [104]) false]) := by decide +kernel
  obtain ⟨s,hrun,hin⟩ := Option.map_eq_some_iff.mp hs
  obtain ⟨s',hrun',hfacts'⟩ := Option.map_eq_some_iff.mp hs'
  obtain ⟨u,hagent,huin⟩ := Option.map_eq_some_iff.mp hu
  obtain ⟨u',hagent',hufacts'⟩ := Option.map_eq_some_iff.mp hu'
  obtain ⟨hgone,hin'⟩ := Prod.mk.inj hfacts'
  obtain ⟨hugone,huin'⟩ := Prod.mk.inj hufacts'
  obtain ⟨hhub,hagents⟩ := streams_isolated quietHub floodedHub s s' quietAgent floodedAgent u u'
    hrun hrun' (by decide +kernel) (by decide +kernel) hagent hagent' (by decide +kernel)
    (by decide +kernel)
  have hsame : inputs 1 s.log = inputs 1 s'.log := hin.trans hin'.symm
  have husame : inputs 1 u.log = inputs 1 u'.log := huin.trans huin'.symm
  exact ⟨s,s',u,u',hrun,hrun',hagent,hagent',hgone,hsame,(hhub 1).same hsame,hugone,husame,
    (hagents 1 .hi).same husame⟩

end Isolation

end Term.StreamIsolation
