import Mathlib.Data.List.Basic

/-!
# Broadcast receivers and chunked delivery

A broadcast channel is the log of everything sent. A receiver is a position in
it; one that falls more than the capacity behind is moved forward and has
lagged. What a receiver that never lagged has received is the part of the log
between its subscription and its position. Long payloads are cut in chunks.
-/

set_option autoImplicit false

namespace Term.Broadcast

variable {α : Type}

structure Receiver where
  start : ℕ
  next : ℕ
  lagged : Bool
  deriving DecidableEq, Repr

def subscribe (log : List α) : Receiver := ⟨log.length,log.length,false⟩

/-- The next event, or the notice that events were lost; `none` while there is nothing. -/
def Receiver.recv (cap : ℕ) (log : List α) (r : Receiver) : Option (Receiver × Option α) :=
  if cap < log.length-r.next then some (⟨r.start,log.length-cap,true⟩,none)
  else
    match log[r.next]? with
    | none => none
    | some event => some (⟨r.start,r.next+1,r.lagged⟩,some event)

def Receiver.seen (log : List α) (r : Receiver) : List α := (log.take r.next).drop r.start

structure Receiver.Within (log : List α) (r : Receiver) : Prop where
  start_le : r.start ≤ r.next
  next_le : r.next ≤ log.length

theorem subscribe_within (log : List α) : (subscribe log).Within log := ⟨Nat.le_refl _,Nat.le_refl _⟩

@[simp] theorem subscribe_seen (log : List α) : (subscribe log).seen log = [] := by
  simp [subscribe, Receiver.seen]

theorem Receiver.Within.append {log : List α} {r : Receiver} (h : r.Within log) (more : List α) :
    r.Within (log++more) := by
  refine ⟨h.start_le,?_⟩
  rw [List.length_append]
  exact Nat.le_add_right_of_le h.next_le

theorem Receiver.Within.seen_append {log : List α} {r : Receiver} (h : r.Within log)
    (more : List α) : r.seen (log++more) = r.seen log := by
  unfold seen
  rw [List.take_append_of_le_length h.next_le]

theorem Receiver.Within.take_start_append {log : List α} {r : Receiver} (h : r.Within log)
    (more : List α) : (log++more).take r.start = log.take r.start :=
  List.take_append_of_le_length (Nat.le_trans h.start_le h.next_le)

theorem Receiver.seen_isPrefix (log : List α) (r : Receiver) : r.seen log <+: log.drop r.start := by
  unfold seen
  rw [List.drop_take]
  exact List.take_prefix _ _

theorem Receiver.seen_of_drained {log : List α} {r : Receiver} (h : r.next = log.length) :
    r.seen log = log.drop r.start := by
  unfold seen
  rw [h, List.take_length]

theorem Receiver.recv_start {cap : ℕ} {log : List α} {r r' : Receiver} {got : Option α}
    (h : r.recv cap log = some (r',got)) : r'.start = r.start := by
  unfold recv at h
  split at h
  · cases h
    rfl
  · split at h <;> cases h
    rfl

/-- What a receive did. -/
theorem Receiver.recv_eq_some {cap : ℕ} {log : List α} {r r' : Receiver} {got : Option α}
    (h : r.recv cap log = some (r',got)) :
    r' = ⟨r.start,log.length-cap,true⟩ ∧ got = none ∧ cap < log.length-r.next ∨
      ∃ event, r' = ⟨r.start,r.next+1,r.lagged⟩ ∧ got = some event ∧
        log[r.next]? = some event := by
  unfold recv at h
  by_cases hlag : cap < log.length-r.next
  · rw [if_pos hlag, Option.some.injEq, Prod.mk.injEq] at h
    exact .inl ⟨h.1.symm,h.2.symm,hlag⟩
  · rw [if_neg hlag] at h
    cases hget : log[r.next]? with
    | none => simp [hget] at h
    | some event =>
      simp only [hget, Option.some.injEq, Prod.mk.injEq] at h
      exact .inr ⟨event,h.1.symm,h.2.symm,rfl⟩

/-- One receive: the receiver lags, or it gets the event after those it has seen. -/
theorem Receiver.recv_cases {cap : ℕ} {log : List α} {r r' : Receiver} {got : Option α}
    (hr : r.Within log) (h : r.recv cap log = some (r',got)) :
    r'.Within log ∧ r'.start = r.start ∧
      (r'.lagged = true ∧ got = none ∨
        r'.lagged = r.lagged ∧ ∃ event, got = some event ∧ r'.seen log = r.seen log++[event]) := by
  rcases recv_eq_some h with ⟨rfl,rfl,hlag⟩ | ⟨event,rfl,rfl,hget⟩
  · have hstart := hr.start_le
    exact ⟨⟨by dsimp only; omega,by dsimp only; omega⟩,rfl,.inl ⟨rfl,rfl⟩⟩
  · have hlt : r.next < log.length := (List.getElem?_eq_some_iff.mp hget).1
    refine ⟨⟨Nat.le_succ_of_le hr.start_le,hlt⟩,rfl,.inr ⟨rfl,event,rfl,?_⟩⟩
    unfold seen
    rw [List.take_add_one, hget, Option.toList_some, List.drop_append_of_le_length]
    rw [List.length_take, Nat.min_eq_left hr.next_le]
    exact hr.start_le

/-- What a receive hands out comes, with gaps, in the order of the log. -/
theorem Receiver.recv_take {cap : ℕ} {log : List α} {r r' : Receiver} {got : Option α}
    (hr : r.next ≤ log.length) (h : r.recv cap log = some (r',got)) :
    r'.next ≤ log.length ∧ (log.take r.next++got.toList).Sublist (log.take r'.next) := by
  rcases recv_eq_some h with ⟨rfl,rfl,hlag⟩ | ⟨event,rfl,rfl,hget⟩
  · refine ⟨Nat.sub_le _ _,?_⟩
    rw [Option.toList_none, List.append_nil]
    exact (List.take_prefix_take_left (by dsimp only; omega)).sublist
  · refine ⟨(List.getElem?_eq_some_iff.mp hget).1,?_⟩
    rw [List.take_add_one, hget]

/-- `slice::chunks`, with fuel for at least one element a chunk. -/
def chunksFuel (n : ℕ) : ℕ → List α → List (List α)
  | _, [] => []
  | 0, _ => []
  | fuel+1, a::l => (a::l).take n::chunksFuel n fuel ((a::l).drop n)

def chunks (n : ℕ) (l : List α) : List (List α) := chunksFuel n l.length l

theorem chunksFuel_flatten {n : ℕ} (hn : 0 < n) (fuel : ℕ) (l : List α) (h : l.length ≤ fuel) :
    (chunksFuel n fuel l).flatten = l := by
  induction fuel generalizing l with
  | zero =>
    rw [List.length_eq_zero_iff.mp (Nat.le_zero.mp h)]
    rfl
  | succ fuel ih =>
    cases l with
    | nil => rfl
    | cons a l =>
      have hdrop : ((a::l).drop n).length ≤ fuel := by
        rw [List.length_drop]
        omega
      rw [chunksFuel, List.flatten_cons, ih _ hdrop, List.take_append_drop]

theorem chunks_flatten {n : ℕ} (hn : 0 < n) (l : List α) : (chunks n l).flatten = l :=
  chunksFuel_flatten hn l.length l (Nat.le_refl _)

theorem length_of_mem_chunksFuel {n fuel : ℕ} {l c : List α} (h : c ∈ chunksFuel n fuel l) :
    c.length ≤ n := by
  induction fuel generalizing l with
  | zero =>
    cases l with
    | nil => cases h
    | cons a l => cases h
  | succ fuel ih =>
    cases l with
    | nil => cases h
    | cons a l =>
      rcases List.mem_cons.mp h with heq | hmem
      · rw [heq, List.length_take]
        exact Nat.min_le_left n _
      · exact ih hmem

theorem length_of_mem_chunks {n : ℕ} {l c : List α} (h : c ∈ chunks n l) : c.length ≤ n :=
  length_of_mem_chunksFuel h

end Term.Broadcast
