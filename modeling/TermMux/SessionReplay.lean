import TermMux.SessionFanout

/-!
# Scrollback replay is exactly once

The reader appends to the scrollback and broadcasts under the lock that an
attach holds around its snapshot and its subscription, so the snapshot is the
end of the output before the subscription and the receiver starts right after
it. What a task has handed to its writer, with what it still holds, is always
that snapshot and the events it has received.
-/

set_option autoImplicit false

namespace Term.SessionReplay
open Term.Broadcast Term.ByteOrder Term.FrameModel Term.Machine Term.SessionState
  Term.SessionFanout

def outputBytes (events : List SessionEvent) : Bytes :=
  events.flatMap fun
    | .data bytes => bytes
    | _ => []

def payloads (frames : List Frame) : Bytes :=
  frames.flatMap fun f =>
    match f.body with
    | .data bytes => bytes
    | _ => []

@[simp] theorem outputBytes_append (a b : List SessionEvent) :
    outputBytes (a++b) = outputBytes a++outputBytes b := List.flatMap_append

@[simp] theorem payloads_append (a b : List Frame) : payloads (a++b) = payloads a++payloads b :=
  List.flatMap_append

@[simp] theorem payloads_nil : payloads [] = [] := rfl

theorem payloads_map_data (sid : StreamId) (l : List Bytes) :
    payloads (l.map (Frame.data sid)) = l.flatten := by
  induction l with
  | nil => rfl
  | cons b l ih =>
    rw [List.map_cons, List.flatten_cons, ← ih]
    rfl

theorem payloads_dataFrames (sid : StreamId) (bytes : Bytes) :
    payloads (dataFrames sid bytes) = bytes := by
  rw [dataFrames, payloads_map_data, chunks_flatten (by decide)]

theorem payloads_eventFrames (sid : StreamId) (event : SessionEvent) :
    payloads (eventFrames sid event) = outputBytes [event] := by
  cases event with
  | data bytes =>
    rw [eventFrames, payloads_dataFrames]
    simp [outputBytes]
  | controllerChanged controller => rfl
  | closed => rfl

def Small (frames : List Frame) : Prop :=
  ∀ f ∈ frames, ∀ bytes, f.body = .data bytes → bytes.length ≤ maxDataLen

theorem small_dataFrames (sid : StreamId) (bytes : Bytes) : Small (dataFrames sid bytes) := by
  intro f hf b hb
  obtain ⟨c,hc,rfl⟩ := List.mem_map.mp hf
  cases hb
  exact length_of_mem_chunks hc

theorem small_eventFrames (sid : StreamId) (event : SessionEvent) :
    Small (eventFrames sid event) := by
  cases event with
  | data bytes => exact small_dataFrames sid bytes
  | controllerChanged controller => simp [Small, eventFrames, Frame.controllerChanged]
  | closed => simp [Small, eventFrames, Frame.close]

def owed (log : List SessionEvent) (t : Task) : Bytes :=
  t.scrollback++outputBytes (t.eventRx.seen log)

structure Delivered (cap : ℕ) (log : List SessionEvent) (t : Task) : Prop where
  within : t.eventRx.Within log
  snapshot : t.scrollback = (outputBytes (log.take t.eventRx.start)).rtake cap
  writer : t.failed = true → t.writerClosed = true
  small : Small (t.sent++t.todo)
  sentPrefix : t.eventRx.lagged = false → payloads t.sent <+: owed log t
  whole : t.eventRx.lagged = false → t.failed = false →
    payloads t.sent++payloads t.todo = owed log t

theorem Delivered.append {cap : ℕ} {log : List SessionEvent} {t : Task}
    (h : Delivered cap log t) (more : List SessionEvent) : Delivered cap (log++more) t := by
  have howed : owed (log++more) t = owed log t := by
    rw [owed, h.within.seen_append, owed]
  refine ⟨h.within.append more,?_,h.writer,h.small,?_,?_⟩
  · rw [h.within.take_start_append]
    exact h.snapshot
  · rw [howed]
    exact h.sentPrefix
  · rw [howed]
    exact h.whole

theorem Delivered.phase {cap : ℕ} {log : List SessionEvent} {t : Task} (h : Delivered cap log t)
    (phase : Phase) : Delivered cap log { t with phase := phase } :=
  ⟨h.within,h.snapshot,h.writer,h.small,h.sentPrefix,h.whole⟩

theorem Delivered.closeWriter {cap : ℕ} {log : List SessionEvent} {t : Task}
    (h : Delivered cap log t) : Delivered cap log { t with writerClosed := true } :=
  ⟨h.within,h.snapshot,fun _ => rfl,h.small,h.sentPrefix,h.whole⟩

theorem Delivered.not_failed {cap : ℕ} {log : List SessionEvent} {t : Task}
    (h : Delivered cap log t) (hw : t.writerClosed = false) : t.failed = false := by
  cases hf : t.failed with
  | false => rfl
  | true =>
    rw [h.writer hf] at hw
    cases hw

theorem Delivered.send {cap : ℕ} {log : List SessionEvent} {t u : Task} (h : Delivered cap log t)
    (hsend : t.send = some u) : Delivered cap log u := by
  rcases Task.send_cases hsend with ⟨hw,phase,todo,hsub,-,rfl⟩ | ⟨hw,f,rest,phase,htodo,-,rfl⟩ |
    ⟨hw,-,htodo,rfl⟩
  · refine ⟨h.within,h.snapshot,fun _ => hw,?_,h.sentPrefix,fun _ hfail => by cases hfail⟩
    intro f hf
    apply h.small f
    rcases List.mem_append.mp hf with hmem | hmem
    · exact List.mem_append_left _ hmem
    · exact List.mem_append_right _ (hsub hmem)
  · -- The frame moves from what is held to what was sent.
    have hmove : payloads (t.sent++[f])++payloads rest = payloads t.sent++payloads t.todo := by
      rw [← payloads_append, ← payloads_append, htodo, List.append_assoc, List.singleton_append]
    have hwhole : t.eventRx.lagged = false →
        payloads (t.sent++[f])++payloads rest = owed log t := by
      intro hlag
      rw [hmove]
      exact h.whole hlag (h.not_failed hw)
    refine ⟨h.within,h.snapshot,h.writer,?_,?_,fun hlag _ => hwhole hlag⟩
    · have hsmall := h.small
      rw [htodo] at hsmall
      change Small ((t.sent++[f])++rest)
      rw [List.append_assoc, List.singleton_append]
      exact hsmall
    · intro hlag
      exact ⟨_,hwhole hlag⟩
  · have hsame : payloads (t.sent++[Frame.controllerChanged t.sid
        (initialStatus t.sid t.currentController)]) = payloads t.sent := by
      rw [payloads_append]
      exact List.append_nil _
    refine ⟨h.within,h.snapshot,h.writer,?_,?_,?_⟩
    · intro f hf b hb
      simp only [htodo, List.append_nil, List.mem_append, List.mem_singleton] at hf
      rcases hf with hmem | heq
      · exact h.small f (List.mem_append_left _ hmem) b hb
      · rw [heq] at hb
        cases hb
    · intro hlag
      change payloads (t.sent++_) <+: _
      rw [hsame]
      exact h.sentPrefix hlag
    · intro hlag hfail
      change payloads (t.sent++_)++_ = _
      rw [hsame]
      exact h.whole hlag hfail

theorem Delivered.recv {cap : ℕ} {log : List SessionEvent} {t u : Task} (h : Delivered cap log t)
    (hrecv : t.recv log = some u) : Delivered cap log u := by
  obtain ⟨-,htodo,rx,hwithin,hstart,hcase⟩ := Task.recv_cases h.within hrecv
  have hsnap : t.scrollback = (outputBytes (log.take rx.start)).rtake cap := by
    rw [hstart]
    exact h.snapshot
  rcases hcase with ⟨hlag,rfl⟩ | ⟨hlag,event,hseen,rfl⟩
  · refine ⟨hwithin,hsnap,h.writer,h.small,?_,?_⟩
    · intro hno
      rw [hlag] at hno
      cases hno
    · intro hno
      rw [hlag] at hno
      cases hno
  · have howed : owed log { t with eventRx := rx, todo := eventFrames t.sid event } =
        owed log t++outputBytes [event] := by
      simp only [owed, hseen, outputBytes_append, List.append_assoc]
    refine ⟨hwithin,hsnap,h.writer,?_,?_,?_⟩
    · intro f hf
      rcases List.mem_append.mp hf with hmem | hmem
      · exact h.small f (List.mem_append_left _ hmem)
      · exact small_eventFrames t.sid event f hmem
    · intro hno
      rw [howed]
      exact (h.sentPrefix (hlag.symm.trans hno)).trans (List.prefix_append _ _)
    · intro hno hfail
      have hwhole := h.whole (hlag.symm.trans hno) hfail
      rw [htodo, payloads_nil, List.append_nil] at hwhole
      rw [howed, ← hwhole, ← payloads_eventFrames t.sid event]

theorem Delivered.act {cap : ℕ} {log : List SessionEvent} {t u : Task} {a : TaskAct}
    (h : Delivered cap log t) (hact : t.act log a = some u) : Delivered cap log u := by
  rcases Task.act_cases hact with hsend | hrecv | ⟨-,rfl⟩ | ⟨-,rfl⟩ | rfl
  · exact h.send hsend
  · exact h.recv hrecv
  · exact h.phase .replaying
  · exact h.phase .winding
  · exact h.closeWriter

structure Invariant (cap : ℕ) (s : Fanout) : Prop where
  cap_eq : s.inner.scrollback.cap = cap
  ring : s.inner.scrollback.buf = (outputBytes s.log).rtake cap
  tasks : ∀ t ∈ s.tasks, Delivered cap s.log t

theorem new_delivered {cap : ℕ} {s : Fanout} (h : Invariant cap s) (sid : StreamId)
    (current : Option StreamId) : Delivered cap s.log (Task.new sid s.log s.inner current) := by
  have howed : owed s.log (Task.new sid s.log s.inner current) = s.inner.scrollback.buf := by
    change s.inner.scrollback.buf++outputBytes ((subscribe s.log).seen s.log) = _
    rw [subscribe_seen]
    exact List.append_nil _
  refine ⟨subscribe_within s.log,?_,?_,?_,?_,?_⟩
  · change s.inner.scrollback.buf = (outputBytes (s.log.take s.log.length)).rtake cap
    rw [List.take_length]
    exact h.ring
  · intro hf
    cases hf
  · exact small_dataFrames sid _
  · intro _
    exact List.nil_prefix
  · intro _ _
    rw [howed]
    exact payloads_dataFrames sid _

/-- The reader appends to the ring what it broadcasts. -/
theorem reader_invariant {cap : ℕ} {s s' : Fanout} {a : Action} (h : Invariant cap s)
    (ha : (∃ chunk, a = .read chunk) ∨ a = .exit ∨ a = .announceClosed)
    (hstep : step s a = some s') : Invariant cap s' := by
  obtain ⟨inner,osc,closed,more,rfl,-,-,-,hmore⟩ := step_reader ha hstep
  have htasks : ∀ t ∈ s.tasks, Delivered cap (s.log++more) t := fun t ht => (h.tasks t ht).append more
  rcases hmore with ⟨hring,hquiet⟩ | ⟨bytes,hring,rfl⟩
  · refine ⟨(congrArg ByteRing.cap hring).trans h.cap_eq,?_,htasks⟩
    have hsame : outputBytes (s.log++more) = outputBytes s.log := by
      rcases hquiet with rfl | rfl
      · rw [List.append_nil]
      · rw [outputBytes_append]
        exact List.append_nil _
    change inner.scrollback.buf = (outputBytes (s.log++more)).rtake cap
    rw [hring, hsame]
    exact h.ring
  · refine ⟨(congrArg ByteRing.cap hring).trans h.cap_eq,?_,htasks⟩
    have hdata : outputBytes (s.log++[.data bytes]) = outputBytes s.log++bytes := by
      simp [outputBytes]
    change inner.scrollback.buf = (outputBytes (s.log++[.data bytes])).rtake cap
    rw [hring, hdata, ← h.cap_eq]
    apply ByteRing.extend_buf
    rw [h.cap_eq]
    exact h.ring

theorem step_invariant (cap : ℕ) (s : Fanout) (a : Action) (s' : Fanout) (h : Invariant cap s)
    (hstep : step s a = some s') : Invariant cap s' := by
  cases a with
  | read chunk => exact reader_invariant h (.inl ⟨chunk,rfl⟩) hstep
  | exit => exact reader_invariant h (.inr (.inl rfl)) hstep
  | announceClosed => exact reader_invariant h (.inr (.inr rfl)) hstep
  | attach sid size now =>
    obtain ⟨-,rfl⟩ := step_attach hstep
    have hkeep := attach_scrollback s.inner sid size now
    refine ⟨(congrArg ByteRing.cap hkeep).trans h.cap_eq,(congrArg ByteRing.buf hkeep).trans h.ring,?_⟩
    exact forall_mem_concat h.tasks (new_delivered h sid _)
  | task i act =>
    obtain ⟨-,t,u,ht,hact,rfl⟩ := step_task hstep
    refine ⟨h.cap_eq,h.ring,?_⟩
    exact forall_mem_set h.tasks ((h.tasks t (List.mem_of_getElem? ht)).act hact)
  | op i op =>
    obtain ⟨t,-,-,rfl⟩ := step_op hstep
    have hkeep := locked_scrollback s.inner t.sid op
    exact ⟨(congrArg ByteRing.cap hkeep).trans h.cap_eq,(congrArg ByteRing.buf hkeep).trans h.ring,
      h.tasks⟩
  | detach i now =>
    obtain ⟨t,ht,-,rfl⟩ := step_detach hstep
    have hkeep := detach_scrollback s.inner t.sid now
    refine ⟨(congrArg ByteRing.cap hkeep).trans h.cap_eq,(congrArg ByteRing.buf hkeep).trans h.ring,?_⟩
    exact forall_mem_set h.tasks ((h.tasks t (List.mem_of_getElem? ht)).phase .detached)
  | resizePty k applied =>
    obtain ⟨i,size,-,rfl⟩ := step_resizePty hstep
    exact ⟨h.cap_eq,h.ring,h.tasks⟩
  | broadcast k =>
    obtain ⟨i,controller,-,rfl⟩ := step_broadcast hstep
    refine ⟨h.cap_eq,?_,fun t ht => (h.tasks t ht).append _⟩
    have hsame : outputBytes (s.log++[.controllerChanged controller]) = outputBytes s.log := by
      rw [outputBytes_append]
      exact List.append_nil _
    change s.inner.scrollback.buf = (outputBytes (s.log++[.controllerChanged controller])).rtake cap
    rw [hsame]
    exact h.ring

theorem spawn_invariant (initialSize : Size) (cap now : ℕ) :
    Invariant cap (Fanout.spawn initialSize cap now) := by
  refine ⟨rfl,?_,?_⟩
  · simp [Fanout.spawn, SessionInner.spawn, ByteRing.new, outputBytes]
  · intro t ht
    cases ht

def Drained (s : Fanout) (t : Task) : Prop :=
  t.phase ≠ .attaching ∧ t.phase ≠ .replaying ∧ t.todo = [] ∧ t.eventRx.next = s.log.length ∧
    t.failed = false

instance (s : Fanout) (t : Task) : Decidable (Drained s t) := inferInstanceAs (Decidable (_ ∧ _))

/-- For every stream that never lagged, the Data payloads it was sent are a prefix of
the last `cap` bytes of the output before its attach followed by all output
after it, all of it once the stream is drained, in frames within
`MAX_DATA_LEN`. -/
theorem replay_exactly_once (initialSize : Size) (cap now : ℕ) (as : List Action) (s : Fanout)
    (hrun : run step (Fanout.spawn initialSize cap now) as = some s) (t : Task) (ht : t ∈ s.tasks)
    (hlag : t.eventRx.lagged = false) :
    payloads t.sent <+: (outputBytes (s.log.take t.eventRx.start)).rtake cap++
      outputBytes (s.log.drop t.eventRx.start) ∧
    (Drained s t → payloads t.sent = (outputBytes (s.log.take t.eventRx.start)).rtake cap++
      outputBytes (s.log.drop t.eventRx.start)) ∧
    ∀ f ∈ t.sent, ∀ bytes, f.body = .data bytes → bytes.length ≤ maxDataLen := by
  have hinv : Invariant cap s :=
    run_invariant step (step_invariant cap) (spawn_invariant initialSize cap now) hrun
  have hd := hinv.tasks t ht
  refine ⟨?_,?_,?_⟩
  · apply (hd.sentPrefix hlag).trans
    rw [owed, ← hd.snapshot]
    obtain ⟨rest,hrest⟩ := t.eventRx.seen_isPrefix s.log
    refine ⟨outputBytes rest,?_⟩
    rw [List.append_assoc, ← outputBytes_append, hrest]
  · intro hdrained
    have hwhole := hd.whole hlag hdrained.2.2.2.2
    rw [hdrained.2.2.1, payloads_nil, List.append_nil, owed,
      Receiver.seen_of_drained hdrained.2.2.2.1, hd.snapshot] at hwhole
    exact hwhole
  · intro f hf
    exact hd.small f (List.mem_append_left _ hf)

def reattach : List Action :=
  [.read [97,98,99,100],.attach 1 (24,80) 0,.resizePty 0 true,.broadcast 0,.read [101],
    .task 0 .start,.task 0 .send,.task 0 .send,.task 0 .recv,.task 0 .send,.task 0 .recv,
    .task 0 .send]

theorem replay_exactly_once_reattach :
    ∃ s, run step (Fanout.spawn (24,80) 3 0) reattach = some s ∧ ∃ t ∈ s.tasks,
      t.eventRx.lagged = false ∧ Drained s t ∧ payloads t.sent = [98,99,100,101] ∧
      payloads t.sent = (outputBytes (s.log.take t.eventRx.start)).rtake 3++
        outputBytes (s.log.drop t.eventRx.start) := by
  have heval : (run step (Fanout.spawn (24,80) 3 0) reattach).any (fun s => s.tasks.any fun t =>
      t.eventRx.lagged = false ∧ Drained s t ∧ payloads t.sent = [98,99,100,101]) = true := by
    decide +kernel
  obtain ⟨s,hs,hany⟩ := (Option.any_eq_true _ _).mp heval
  obtain ⟨t,ht,hfacts⟩ := List.any_eq_true.mp hany
  have hfacts := of_decide_eq_true hfacts
  exact ⟨s,hs,t,ht,hfacts.1,hfacts.2.1,hfacts.2.2,
    (replay_exactly_once (24,80) 3 0 reattach s hs t ht hfacts.1).2.1 hfacts.2.1⟩

end Term.SessionReplay
