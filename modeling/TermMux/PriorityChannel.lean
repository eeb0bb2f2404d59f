import Mathlib
import TermMux.Machine

/-!
# Channels with priority classes

A channel has one bounded queue a class. A send is granted room in its queue and
then pushes; senders are counted and can be cloned and dropped. The receiver
polls the classes in a fixed order, takes the first item it finds, marks a class
closed once its senders are gone and it is drained, and finishes when every class
is closed. The log of pushes numbers the items, so that orders across classes can
be stated.
-/

set_option autoImplicit false

namespace Term.PriorityChannel
open Term.Machine

/-- An item with its place among all pushes of the channel. -/
structure Sent (α : Type) where
  seq : ℕ
  item : α
  deriving DecidableEq, Repr

structure Queue (α : Type) where
  cap : ℕ
  items : List (Sent α)
  /-- Sends that have their room and have not pushed yet. -/
  granted : List α
  senders : ℕ
  deriving DecidableEq, Repr

structure Channel (K α : Type) where
  queue : K → Queue α
  closed : K → Bool
  receiving : Bool
  sent : List (K × Sent α)
  delivered : List (K × Sent α)

inductive Scan (K α : Type) where
  | item (k : K) (x : Sent α) (rest : List (Sent α))
  | ended (k : K)
  | pending

inductive Received (α : Type) where
  | item (x : Sent α)
  | finished
  | pending
  deriving DecidableEq, Repr

inductive Act (K α : Type) where
  | grant (k : K) (x : α)
  | push (k : K) (x : α)
  | clone (k : K)
  | drop (k : K)
  | recv
  | dropReceiver
  deriving DecidableEq, Repr

variable {K α : Type} [DecidableEq K]

def on (k : K) (log : List (K × Sent α)) : List (Sent α) :=
  log.filterMap fun p => if p.1 = k then some p.2 else none

def Queue.used (size : α → ℕ) (q : Queue α) : ℕ :=
  (q.items.map fun x => size x.item).sum+(q.granted.map size).sum

namespace Channel

def new (cap : K → ℕ) : Channel K α where
  queue k := ⟨cap k,[],[],1⟩
  closed _ := false
  receiving := true
  sent := []
  delivered := []

def setQueue (c : Channel K α) (k : K) (q : Queue α) : Channel K α :=
  { c with queue := Function.update c.queue k q }

def push [DecidableEq α] (c : Channel K α) (k : K) (x : α) : Channel K α :=
  let q := c.queue k
  if c.receiving then
    { c.setQueue k { q with
        items := q.items++[⟨c.sent.length,x⟩]
        granted := q.granted.erase x } with
      sent := c.sent++[(k,⟨c.sent.length,x⟩)] }
  else c.setQueue k { q with granted := q.granted.erase x }

def scan (c : Channel K α) : List K → Scan K α
  | [] => .pending
  | k::ks =>
    if c.closed k then scan c ks
    else
      match (c.queue k).items with
      | x::rest => .item k x rest
      | [] => if (c.queue k).senders = 0 then .ended k else scan c ks

def deliver (c : Channel K α) (k : K) (x : Sent α) (rest : List (Sent α)) : Channel K α :=
  { c.setQueue k { c.queue k with items := rest } with delivered := c.delivered++[(k,x)] }

def close (c : Channel K α) (k : K) : Channel K α :=
  { c with closed := Function.update c.closed k true }

/-- The receiver's loop, which goes round again after it has marked a class closed. -/
def recvLoop (order : List K) : ℕ → Channel K α → Received α × Channel K α
  | 0, c => (.pending,c)
  | n+1, c =>
    if order.all c.closed then (.finished,c)
    else
      match scan c order with
      | .item k x rest => (.item x,c.deliver k x rest)
      | .ended k => recvLoop order n (c.close k)
      | .pending => (.pending,c)

def recv (order : List K) (c : Channel K α) : Received α × Channel K α :=
  recvLoop order (order.length+1) c

def step [DecidableEq α] (size : α → ℕ) (order : List K) (c : Channel K α) :
    Act K α → Option (Channel K α)
  | .grant k x =>
    let q := c.queue k
    if 0 < q.senders ∧ q.used size+size x ≤ q.cap then
      some (c.setQueue k { q with granted := x::q.granted })
    else none
  | .push k x => if x ∈ (c.queue k).granted then some (c.push k x) else none
  | .clone k =>
    let q := c.queue k
    if 0 < q.senders then some (c.setQueue k { q with senders := q.senders+1 }) else none
  | .drop k =>
    -- A send borrows its sender.
    let q := c.queue k
    if 0 < q.senders ∧ (q.senders = 1 → q.granted = []) then
      some (c.setQueue k { q with senders := q.senders-1 })
    else none
  | .recv => if c.receiving then some (recv order c).2 else none
  | .dropReceiver =>
    if c.receiving then
      some { c with receiving := false, queue := fun k => { c.queue k with items := [] } }
    else none

@[simp] theorem setQueue_self (c : Channel K α) (k : K) (q : Queue α) :
    (c.setQueue k q).queue k = q := by simp [setQueue]

theorem setQueue_ne (c : Channel K α) {k k' : K} (q : Queue α) (h : k' ≠ k) :
    (c.setQueue k q).queue k' = c.queue k' := by simp [setQueue, Function.update_of_ne h]

@[simp] theorem setQueue_closed (c : Channel K α) (k : K) (q : Queue α) :
    (c.setQueue k q).closed = c.closed := rfl

@[simp] theorem deliver_self (c : Channel K α) (k : K) (x : Sent α) (rest : List (Sent α)) :
    (c.deliver k x rest).queue k = { c.queue k with items := rest } :=
  setQueue_self c k { c.queue k with items := rest }

theorem deliver_ne (c : Channel K α) {k k' : K} (x : Sent α) (rest : List (Sent α)) (h : k' ≠ k) :
    (c.deliver k x rest).queue k' = c.queue k' :=
  setQueue_ne c { c.queue k with items := rest } h

end Channel

open Channel

section Logs
variable {log more : List (K × Sent α)} {k k' : K} {x y : Sent α}

theorem on_append (k : K) (log more : List (K × Sent α)) :
    on k (log++more) = on k log++on k more := by
  unfold on
  exact List.filterMap_append

theorem on_cons (k : K) (p : K × Sent α) (log : List (K × Sent α)) :
    on k (p::log) = on k [p]++on k log :=
  on_append k [p] log

theorem on_self (k : K) (x : Sent α) : on k [(k,x)] = [x] := by simp [on]

theorem on_other (h : k ≠ k') (x : Sent α) : on k' [(k,x)] = [] := by simp [on, h]

theorem mem_on : x ∈ on k log ↔ (k,x) ∈ log := by
  simp only [on, List.mem_filterMap]
  constructor
  · rintro ⟨⟨k',x'⟩,hmem,h⟩
    split at h
    · next heq =>
      cases h
      cases heq
      exact hmem
    · cases h
  · intro hmem
    exact ⟨(k,x),hmem,by simp⟩

def Rising (log : List (K × Sent α)) : Prop := log.Pairwise fun p q => p.2.seq < q.2.seq

theorem rising_on (h : Rising log) (k : K) : (on k log).Pairwise fun x y => x.seq < y.seq := by
  unfold on
  rw [List.pairwise_filterMap]
  refine h.imp fun {p q} hpq x hx y hy => ?_
  split at hx
  · split at hy
    · cases hx
      cases hy
      exact hpq
    · cases hy
  · cases hx

theorem mem_before {before after : List (Sent α)} (h : Rising log)
    (hon : on k log = before++y::after) (hx : (k,x) ∈ log) (hlt : x.seq < y.seq) :
    x ∈ before := by
  have hrise := rising_on h k
  rw [hon] at hrise
  have hmem := mem_on.mpr hx
  rw [hon] at hmem
  rcases List.mem_append.mp hmem with hbefore | hrest
  · exact hbefore
  · obtain ⟨-,htail,-⟩ := List.pairwise_append.mp hrise
    rcases List.mem_cons.mp hrest with rfl | hafter
    · omega
    · have hgt := (List.pairwise_cons.mp htail).1 x hafter
      omega

omit [DecidableEq K] in
/-- Numbered items that all stand in a numbered log stand there in their order. -/
theorem sublist_of_rising {l : List (K × Sent α)} (hl : Rising l) (hlog : Rising log)
    (hsub : l ⊆ log) : l.Sublist log := by
  have hanti : Std.Antisymm fun p q : K × Sent α => p.2.seq < q.2.seq :=
    ⟨fun p q hpq hqp => absurd (Nat.lt_trans hpq hqp) (Nat.lt_irrefl _)⟩
  have hnodup : l.Nodup := hl.imp fun {p q} hlt heq => by
    rw [heq] at hlt
    exact Nat.lt_irrefl _ hlt
  exact List.sublist_of_subperm_of_pairwise (List.subperm_of_subset hnodup hsub) hl hlog

theorem rising_filter (h : (on k log).Pairwise fun x y => x.seq < y.seq) :
    Rising (log.filter fun p => p.1 = k) := by
  have hon : on k log = (log.filter fun p => p.1 = k).map Prod.snd := by
    induction log with
    | nil => rfl
    | cons p log ih =>
      obtain ⟨k',x⟩ := p
      rw [on_cons] at h ⊢
      rw [List.filter_cons]
      by_cases hk : k' = k
      · rw [hk, on_self] at h ⊢
        rw [ih (List.pairwise_cons.mp h).2]
        simp
      · rw [on_other hk] at h ⊢
        rw [ih h]
        simp [hk]
  rw [hon, List.pairwise_map] at h
  exact h

end Logs

def Before (p q : K × Sent α) (log : List (K × Sent α)) : Prop :=
  p ∈ log ∧ ∀ ds es, log = ds++q::es → p ∈ ds

omit [DecidableEq K] in
theorem before_fresh {p q : K × Sent α} {log : List (K × Sent α)} (hp : p ∈ log) (hq : q ∉ log) :
    Before p q log := by
  refine ⟨hp,fun ds es h => ?_⟩
  rw [h] at hq
  exact absurd (by simp) hq

omit [DecidableEq K] in
theorem before_concat {p q : K × Sent α} {log : List (K × Sent α)} (h : Before p q log)
    (r : K × Sent α) : Before p q (log++[r]) := by
  refine ⟨List.mem_append_left _ h.1,fun ds es heq => ?_⟩
  rcases List.eq_nil_or_concat es with rfl | ⟨es',z,rfl⟩
  · obtain ⟨rfl,-⟩ := List.append_inj' heq rfl
    exact h.1
  · rw [List.concat_eq_append, ← List.cons_append, ← List.append_assoc] at heq
    obtain ⟨hold,-⟩ := List.append_inj' heq rfl
    exact h.2 ds es' hold

section Receiving
variable {c : Channel K α} {order : List K}

theorem scan_item {k : K} {x : Sent α} {rest : List (Sent α)}
    (h : c.scan order = .item k x rest) :
    k ∈ order ∧ (c.queue k).items = x::rest ∧
      ∀ k', order.idxOf k' < order.idxOf k → c.closed k' = true ∨ (c.queue k').items = [] := by
  induction order with
  | nil => cases h
  | cons k₀ ks ih =>
    unfold scan at h
    -- Every class the scan passes over is closed or empty.
    have hpass : (c.closed k₀ = true ∨ (c.queue k₀).items = []) → c.scan ks = .item k x rest →
        k ∈ k₀::ks ∧ (c.queue k).items = x::rest ∧
          ∀ k', (k₀::ks).idxOf k' < (k₀::ks).idxOf k →
            c.closed k' = true ∨ (c.queue k').items = [] := by
      intro hskip hks
      obtain ⟨hk,hitems,hbefore⟩ := ih hks
      refine ⟨List.mem_cons_of_mem _ hk,hitems,fun k' hlt => ?_⟩
      by_cases h₀ : k₀ = k'
      · rw [← h₀]
        exact hskip
      · apply hbefore
        rw [List.idxOf_cons_ne _ h₀] at hlt
        by_cases hk : k₀ = k
        · rw [hk, List.idxOf_cons_self] at hlt
          omega
        · rw [List.idxOf_cons_ne _ hk] at hlt
          omega
    split at h
    · next hclosed => exact hpass (.inl hclosed) h
    · split at h
      · next x' rest' hitems =>
        cases h
        refine ⟨List.mem_cons_self,hitems,fun k' hlt => ?_⟩
        rw [List.idxOf_cons_self] at hlt
        omega
      · next hitems =>
        split at h
        · cases h
        · exact hpass (.inr hitems) h

omit [DecidableEq K] in
theorem scan_ended {k : K} (h : c.scan order = .ended k) :
    k ∈ order ∧ c.closed k = false ∧ (c.queue k).senders = 0 ∧ (c.queue k).items = [] := by
  induction order with
  | nil => cases h
  | cons k₀ ks ih =>
    unfold scan at h
    have hpass : c.scan ks = .ended k → k ∈ k₀::ks ∧ c.closed k = false ∧
        (c.queue k).senders = 0 ∧ (c.queue k).items = [] := fun hks =>
      ⟨List.mem_cons_of_mem _ (ih hks).1,(ih hks).2⟩
    split at h
    · exact hpass h
    · next hopen =>
      split at h
      · cases h
      · next hitems =>
        split at h
        · next hsenders =>
          cases h
          exact ⟨List.mem_cons_self,by simpa using hopen,hsenders,hitems⟩
        · exact hpass h

def Closes (c : Channel K α) (closed : K → Bool) : Prop :=
  ∀ k, closed k = true → c.closed k = true ∨ (c.queue k).senders = 0 ∧ (c.queue k).items = []

theorem recvLoop_cases (n : ℕ) (c : Channel K α) : ∃ closed, Closes c closed ∧
    ((∀ k ∈ order, closed k = true) ∧ recvLoop order n c = (.finished,{ c with closed := closed }) ∨
      recvLoop order n c = (.pending,{ c with closed := closed }) ∨
      ∃ k ∈ order, ∃ x rest, (c.queue k).items = x::rest ∧
        (∀ k', order.idxOf k' < order.idxOf k → closed k' = true ∨ (c.queue k').items = []) ∧
        recvLoop order n c = (.item x,{ c with closed := closed }.deliver k x rest)) := by
  induction n generalizing c with
  | zero => exact ⟨c.closed,fun k hk => .inl hk,.inr (.inl rfl)⟩
  | succ n ih =>
    unfold recvLoop
    split
    · next hall =>
      exact ⟨c.closed,fun k hk => .inl hk,.inl ⟨List.all_eq_true.mp hall,rfl⟩⟩
    · split
      · next k x rest hscan =>
        obtain ⟨hk,hitems,hbefore⟩ := scan_item hscan
        exact ⟨c.closed,fun k hk => .inl hk,.inr (.inr ⟨k,hk,x,rest,hitems,hbefore,rfl⟩)⟩
      · next k hscan =>
        obtain ⟨-,-,hsenders,hitems⟩ := scan_ended hscan
        obtain ⟨closed,hcloses,hcases⟩ := ih (c.close k)
        refine ⟨closed,fun k' hk' => ?_,hcases⟩
        rcases hcloses k' hk' with hold | hended
        · by_cases heq : k' = k
          · rw [heq]
            exact .inr ⟨hsenders,hitems⟩
          · left
            simpa [Channel.close, Function.update_of_ne heq] using hold
        · exact .inr hended
      · exact ⟨c.closed,fun k hk => .inl hk,.inr (.inl rfl)⟩

theorem recv_cases (order : List K) (c : Channel K α) : ∃ closed, Closes c closed ∧
    ((∀ k ∈ order, closed k = true) ∧ recv order c = (.finished,{ c with closed := closed }) ∨
      recv order c = (.pending,{ c with closed := closed }) ∨
      ∃ k ∈ order, ∃ x rest, (c.queue k).items = x::rest ∧
        (∀ k', order.idxOf k' < order.idxOf k → closed k' = true ∨ (c.queue k').items = []) ∧
        recv order c = (.item x,{ c with closed := closed }.deliver k x rest)) :=
  recvLoop_cases _ c

theorem close_open_lt {k : K} (hk : k ∈ order) (hopen : c.closed k = false) :
    (order.filter fun k' => !(c.close k).closed k').length <
      (order.filter fun k' => !c.closed k').length := by
  have hsub : List.Sublist (order.filter fun k' => !(c.close k).closed k')
      (order.filter fun k' => !c.closed k') := by
    apply List.monotone_filter_right
    intro k' h
    by_cases heq : k' = k
    · simp [heq, Channel.close] at h
    · simpa [Channel.close, Function.update_of_ne heq] using h
  apply Nat.lt_of_le_of_ne hsub.length_le
  intro hlen
  have hmem : k ∈ order.filter fun k' => !c.closed k' := by simp [hk, hopen]
  rw [← hsub.eq_of_length hlen] at hmem
  simp [Channel.close] at hmem

/-- The loop goes round at most once a class: more rounds change nothing. -/
theorem recvLoop_enough (n m : ℕ) (c : Channel K α)
    (hopen : (order.filter fun k => !c.closed k).length ≤ n) :
    recvLoop order (n+1+m) c = recvLoop order (n+1) c := by
  induction n generalizing c with
  | zero =>
    have hall : order.all c.closed = true := by
      rw [List.all_eq_true]
      intro k hk
      by_contra hne
      have hmem : k ∈ order.filter fun k => !c.closed k := by simpa [hk] using hne
      rw [List.length_eq_zero_iff.mp (Nat.le_zero.mp hopen)] at hmem
      cases hmem
    rw [show 0+1+m = m+1 by omega]
    simp only [recvLoop, hall, if_true]
  | succ n ih =>
    rw [show n+1+1+m = (n+1+m)+1 by omega]
    conv_lhs => unfold recvLoop
    conv_rhs => unfold recvLoop
    split
    · rfl
    · split
      · rfl
      · next k hscan =>
        apply ih
        obtain ⟨hk,hclosed,-,-⟩ := scan_ended hscan
        have hlt := close_open_lt hk hclosed
        omega
      · rfl

end Receiving

section Orders
variable {order : List K} {c d : Channel K α}

structure InOrder (order : List K) (c : Channel K α) : Prop where
  rising : Rising c.sent
  below : ∀ p ∈ c.sent, p.2.seq < c.sent.length
  fifo : c.receiving = true → ∀ k, on k c.sent = on k c.delivered++(c.queue k).items
  part : ∀ k, on k c.delivered <+: on k c.sent
  drained : ∀ k, c.closed k = true → (c.queue k).senders = 0 ∧ (c.queue k).items = []
  idle : ∀ k, (c.queue k).senders = 0 → (c.queue k).granted = []
  first : ∀ ds k y es, c.delivered = ds++(k,y)::es → ∀ k' x, (k',x) ∈ c.sent →
    order.idxOf k' ≤ order.idxOf k → x.seq < y.seq → (k',x) ∈ ds

theorem new_inOrder (cap : K → ℕ) : InOrder order (Channel.new cap : Channel K α) where
  rising := List.Pairwise.nil
  below := by simp [Channel.new]
  fifo := by simp [Channel.new, on]
  part := by simp [Channel.new, on]
  drained := by simp [Channel.new]
  idle := by simp [Channel.new]
  first := by simp [Channel.new]

/-- A step that keeps both logs, and keeps the items of every class, keeps the order. -/
theorem inOrder_quiet (h : InOrder order c) (hsent : d.sent = c.sent)
    (hdelivered : d.delivered = c.delivered) (hreceiving : d.receiving = c.receiving)
    (hitems : ∀ k, (d.queue k).items = (c.queue k).items)
    (hdrained : ∀ k, d.closed k = true → (d.queue k).senders = 0 ∧ (c.queue k).items = [])
    (hidle : ∀ k, (d.queue k).senders = 0 → (d.queue k).granted = []) : InOrder order d where
  rising := hsent ▸ h.rising
  below := hsent ▸ h.below
  fifo := by
    intro hr k
    rw [hsent, hdelivered, hitems]
    exact h.fifo (hreceiving ▸ hr) k
  part := by
    rw [hsent, hdelivered]
    exact h.part
  drained := by
    intro k hk
    rw [hitems]
    exact hdrained k hk
  idle := hidle
  first := by
    rw [hsent, hdelivered]
    exact h.first

theorem setQueue_inOrder {k : K} {q : Queue α} (h : InOrder order c)
    (hitems : q.items = (c.queue k).items) (hsenders : c.closed k = true → q.senders = 0)
    (hidle : q.senders = 0 → q.granted = []) : InOrder order (c.setQueue k q) := by
  refine inOrder_quiet h rfl rfl rfl ?_ ?_ ?_
  · intro k'
    by_cases heq : k' = k
    · rw [heq, setQueue_self, hitems]
    · rw [setQueue_ne c q heq]
  · intro k' hk'
    refine ⟨?_,(h.drained k' hk').2⟩
    by_cases heq : k' = k
    · rw [heq] at hk' ⊢
      rw [setQueue_self]
      exact hsenders hk'
    · rw [setQueue_ne c q heq]
      exact (h.drained k' hk').1
  · intro k' hk'
    by_cases heq : k' = k
    · rw [heq, setQueue_self] at hk' ⊢
      exact hidle hk'
    · rw [setQueue_ne c q heq] at hk' ⊢
      exact h.idle k' hk'

theorem closing_inOrder {closed : K → Bool} (h : InOrder order c) (hcloses : Closes c closed) :
    InOrder order { c with closed := closed } := by
  refine inOrder_quiet h rfl rfl rfl (fun _ => rfl) ?_ ?_
  · intro k hk
    rcases hcloses k hk with hold | hended
    · exact h.drained k hold
    · exact hended
  · exact h.idle

omit [DecidableEq K] in
theorem rising_concat {log : List (K × Sent α)} {n : ℕ} (h : Rising log)
    (hbelow : ∀ p ∈ log, p.2.seq < n) (k : K) (x : α) : Rising (log++[(k,⟨n,x⟩)]) := by
  apply List.pairwise_append.mpr
  refine ⟨h,List.pairwise_singleton _ _,fun p hp q hq => ?_⟩
  rw [List.mem_singleton.mp hq]
  exact hbelow p hp

theorem push_inOrder [DecidableEq α] {k : K} {x : α} (h : InOrder order c) (hr : c.receiving = true)
    (hopen : (c.queue k).senders ≠ 0) : InOrder order (c.push k x) := by
  have hclosed : c.closed k = false := by
    by_contra hk
    exact hopen (h.drained k (by simpa using hk)).1
  have hpush : c.push k x = { c.setQueue k { c.queue k with
      items := (c.queue k).items++[⟨c.sent.length,x⟩]
      granted := (c.queue k).granted.erase x } with
      sent := c.sent++[(k,⟨c.sent.length,x⟩)] } := by
    simp only [push, hr, if_true]
  rw [hpush]
  constructor
  · exact rising_concat h.rising h.below k x
  · intro p hp
    simp only [List.length_append, List.length_singleton]
    rcases List.mem_append.mp hp with hold | hnew
    · exact Nat.lt_succ_of_lt (h.below p hold)
    · rw [List.mem_singleton.mp hnew]
      exact Nat.lt_succ_self _
  · intro _ k'
    show on k' (c.sent++_) = on k' c.delivered++_
    rw [on_append, h.fifo hr k']
    by_cases heq : k' = k
    · rw [heq, on_self, setQueue_self, List.append_assoc]
    · rw [on_other (Ne.symm heq), setQueue_ne c _ heq, List.append_nil]
  · intro k'
    show on k' c.delivered <+: on k' (c.sent++_)
    rw [on_append]
    exact (h.part k').trans (List.prefix_append _ _)
  · intro k' hk'
    rw [setQueue_closed] at hk'
    have heq : k' ≠ k := by
      rintro rfl
      cases hclosed.symm.trans hk'
    rw [setQueue_ne c _ heq]
    exact h.drained k' hk'
  · intro k' hk'
    by_cases heq : k' = k
    · rw [heq, setQueue_self] at hk'
      exact absurd hk' hopen
    · rw [setQueue_ne c _ heq] at hk' ⊢
      exact h.idle k' hk'
  · intro ds k' y es hd k'' x' hx' hle hlt
    rcases List.mem_append.mp hx' with hold | hnew
    · exact h.first ds k' y es hd k'' x' hold hle hlt
    · -- A new item has a larger number than everything delivered.
      exfalso
      cases List.mem_singleton.mp hnew
      have hy : y ∈ on k' c.delivered := by
        apply mem_on.mpr
        show (k',y) ∈ c.delivered
        change c.delivered = _ at hd
        simp [hd]
      have hmem := mem_on.mp ((h.part k').subset hy)
      have hbelow := h.below _ hmem
      simp only at hlt hbelow
      omega

theorem deliver_inOrder {k : K} {x : Sent α} {rest : List (Sent α)} (h : InOrder order c)
    (hr : c.receiving = true) (hitems : (c.queue k).items = x::rest)
    (hbefore : ∀ k', order.idxOf k' < order.idxOf k → (c.queue k').items = [])
    (hk : k ∈ order) : InOrder order (c.deliver k x rest) := by
  have hfifo := h.fifo hr
  have hfifo' : ∀ k', on k' c.sent =
      on k' (c.delivered++[(k,x)])++((c.deliver k x rest).queue k').items := by
    intro k'
    rw [hfifo k', on_append]
    by_cases heq : k' = k
    · rw [heq, on_self, hitems, deliver_self, List.append_assoc]
      rfl
    · rw [on_other (Ne.symm heq), deliver_ne c x rest heq, List.append_nil]
  constructor
  · exact h.rising
  · exact h.below
  · exact fun _ => hfifo'
  · intro k'
    show on k' (c.delivered++[(k,x)]) <+: on k' c.sent
    rw [hfifo' k']
    exact List.prefix_append _ _
  · intro k' hk'
    have heq : k' ≠ k := by
      rintro rfl
      have hnil := (h.drained k' hk').2
      rw [hitems] at hnil
      cases hnil
    rw [deliver_ne c x rest heq]
    exact h.drained k' hk'
  · intro k' hk'
    by_cases heq : k' = k
    · rw [heq, deliver_self] at hk' ⊢
      exact h.idle k hk'
    · rw [deliver_ne c x rest heq] at hk' ⊢
      exact h.idle k' hk'
  · intro ds k' y es hd k'' x' hx' hle hlt
    change c.delivered++[(k,x)] = ds++(k',y)::es at hd
    rcases List.eq_nil_or_concat es with rfl | ⟨es',z,rfl⟩
    · -- The item just delivered: nothing of its class or a better one was left before it.
      obtain ⟨rfl,hlast⟩ := List.append_inj' hd rfl
      cases hlast
      by_cases heq : k'' = k
      · rw [heq] at hx' ⊢
        have hon := hfifo k
        rw [hitems] at hon
        exact mem_on.mp (mem_before h.rising hon hx' hlt)
      · have hidx : order.idxOf k'' < order.idxOf k := by
          apply Nat.lt_of_le_of_ne hle
          intro hsame
          exact heq ((List.idxOf_inj hk).mp hsame.symm).symm
        have hmem : x' ∈ on k'' c.sent := mem_on.mpr hx'
        rw [hfifo k'', hbefore k'' hidx, List.append_nil] at hmem
        exact mem_on.mp hmem
    · rw [List.concat_eq_append, ← List.cons_append, ← List.append_assoc] at hd
      obtain ⟨hold,-⟩ := List.append_inj' hd rfl
      exact h.first ds k' y es' hold k'' x' hx' hle hlt

theorem recv_inOrder (h : InOrder order c) (hr : c.receiving = true) :
    InOrder order (recv order c).2 := by
  obtain ⟨closed,hcloses,hcases⟩ := recv_cases order c
  have hclosing := closing_inOrder h hcloses
  rcases hcases with ⟨-,heq⟩ | heq | ⟨k,hk,x,rest,hitems,hbefore,heq⟩
  · rw [heq]
    exact hclosing
  · rw [heq]
    exact hclosing
  · rw [heq]
    apply deliver_inOrder hclosing hr hitems _ hk
    intro k' hlt
    rcases hbefore k' hlt with hclosed | hempty
    · exact (hclosing.drained k' hclosed).2
    · exact hempty

variable [DecidableEq α] {size : α → ℕ}

theorem step_inOrder {a : Act K α} (h : InOrder order c) (hstep : step size order c a = some d) :
    InOrder order d := by
  have hopen : ∀ k, 0 < (c.queue k).senders → c.closed k = true → False := by
    intro k hpos hk
    have := (h.drained k hk).1
    omega
  cases a with
  | grant k x =>
    simp only [step, Option.ite_none_right_eq_some, Option.some.injEq] at hstep
    obtain ⟨⟨hpos,-⟩,rfl⟩ := hstep
    refine setQueue_inOrder h rfl ?_ ?_
    · exact fun hk => (hopen k hpos hk).elim
    · intro hzero
      exact absurd hzero (Nat.ne_of_gt hpos)
  | push k x =>
    simp only [step, Option.ite_none_right_eq_some, Option.some.injEq] at hstep
    obtain ⟨hmem,rfl⟩ := hstep
    have hsenders : (c.queue k).senders ≠ 0 := by
      intro hzero
      rw [h.idle k hzero] at hmem
      cases hmem
    by_cases hr : c.receiving = true
    · exact push_inOrder h hr hsenders
    · simp only [Channel.push, hr, Bool.false_eq_true, if_false]
      refine setQueue_inOrder h rfl ?_ ?_
      · exact fun hk => (h.drained k hk).1
      · exact fun hzero => absurd hzero hsenders
  | clone k =>
    simp only [step, Option.ite_none_right_eq_some, Option.some.injEq] at hstep
    obtain ⟨hpos,rfl⟩ := hstep
    refine setQueue_inOrder h rfl ?_ ?_
    · exact fun hk => (hopen k hpos hk).elim
    · exact nofun
  | drop k =>
    simp only [step, Option.ite_none_right_eq_some, Option.some.injEq] at hstep
    obtain ⟨⟨hpos,hlast⟩,rfl⟩ := hstep
    refine setQueue_inOrder h rfl ?_ ?_
    · exact fun hk => (hopen k hpos hk).elim
    · intro hzero
      exact hlast (by simp only at hzero; omega)
  | recv =>
    simp only [step, Option.ite_none_right_eq_some, Option.some.injEq] at hstep
    obtain ⟨hr,rfl⟩ := hstep
    exact recv_inOrder h hr
  | dropReceiver =>
    simp only [step, Option.ite_none_right_eq_some, Option.some.injEq] at hstep
    obtain ⟨-,rfl⟩ := hstep
    exact ⟨h.rising,h.below,nofun,h.part,fun k hk => ⟨(h.drained k hk).1,rfl⟩,h.idle,h.first⟩

end Orders

end Term.PriorityChannel
