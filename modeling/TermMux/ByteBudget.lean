import TermMux.ByteOrder
import TermMux.Machine
import TermMux.Semaphore

/-!
# The byte budget of a channel

`BytesTx::send` takes as many permits as the message has bytes and puts them into the queue with
the message; `BytesRx::recv` gives them back when it pulls the message. A send waits for its
permits, then has them in hand until it has put the message into the queue, and it may be cancelled
as long as it has not run on. A receiver that goes away is closed first and then drained.
-/

set_option autoImplicit false

namespace Term.ByteBudget
open Term.ByteOrder Term.Machine Term.Semaphore

structure Permitted where
  permit : ℕ
  bytes : Bytes
  deriving DecidableEq, Repr

structure Channel where
  cap : ℕ
  /-- Each waiter is a `send` with its message. -/
  sem : Sem Bytes
  /-- Sends that have been given all of their permits. -/
  granted : List Permitted := []
  queue : List Permitted := []
  receiving : Bool := true
  /-- Messages that `send` returned to its caller. -/
  returned : List Bytes := []
  received : List Bytes := []
  deriving DecidableEq, Repr

def maxPermits : ℕ := 2^32-1

def bytesChannel (capBytes : ℕ) : Channel where
  cap := min capBytes maxPermits
  sem := ⟨min capBytes maxPermits,[]⟩

def giveBack (c : Channel) (n : ℕ) : Channel :=
  { c with
    sem := c.sem.release n
    granted := c.granted++(c.sem.served n).map fun w => ⟨w.want,w.item⟩ }

inductive Act where
  | send (bytes : Bytes)
  | enqueue (i : ℕ)
  | cancelWaiting (i : ℕ)
  | cancelGranted (i : ℕ)
  | recv
  | dropReceiver
  | drain
  deriving DecidableEq, Repr

def send (c : Channel) (bytes : Bytes) : Channel :=
  if c.cap < bytes.length then { c with returned := c.returned++[bytes] }
  else
    let n := bytes.length%2^32
    if n ≤ c.sem.permits then
      { c with
        sem := { c.sem with permits := c.sem.permits-n }
        granted := c.granted++[⟨n,bytes⟩] }
    else { c with sem := c.sem.enqueue n bytes }

/-- `self.tx.send((permit, bytes))`, which gives both back when the receiver is gone. -/
def enqueue (c : Channel) (i : ℕ) (p : Permitted) : Channel :=
  let c := { c with granted := c.granted.eraseIdx i }
  if c.receiving then { c with queue := c.queue++[p] }
  else giveBack { c with returned := c.returned++[p.bytes] } p.permit

def step (c : Channel) : Act → Option Channel
  | .send bytes => some (send c bytes)
  | .enqueue i => c.granted[i]?.map (enqueue c i)
  | .cancelWaiting i =>
    c.sem.waiters[i]?.map fun w => giveBack { c with sem := c.sem.leave i } w.got
  | .cancelGranted i =>
    c.granted[i]?.map fun p => giveBack { c with granted := c.granted.eraseIdx i } p.permit
  | .recv =>
    match c.queue with
    | p::rest =>
      if c.receiving then
        some (giveBack { c with queue := rest, received := c.received++[p.bytes] } p.permit)
      else none
    | [] => none
  | .dropReceiver => if c.receiving then some { c with receiving := false } else none
  | .drain =>
    match c.queue with
    | p::rest => if c.receiving then none else some (giveBack { c with queue := rest } p.permit)
    | [] => none

def queuedBytes (c : Channel) : ℕ := (c.queue.map fun p => p.bytes.length).sum

def heldPermits (c : Channel) : ℕ := assigned c.sem.waiters+(c.granted.map Permitted.permit).sum

/-- The budget is whole, and every permit count is the length of its message. -/
structure Inv (total : ℕ) (c : Channel) : Prop where
  hcap : c.cap = total
  whole : c.sem.permits+heldPermits c+queuedBytes c = total
  fair : Fair c.sem
  waiting : ∀ w ∈ c.sem.waiters, w.want = w.item.length ∧ w.item.length ≤ total
  granted : ∀ p ∈ c.granted, p.permit = p.bytes.length
  queued : ∀ p ∈ c.queue, p.permit = p.bytes.length

section Conservation
variable {total n : ℕ} {c d : Channel} {a : Act}

theorem inv_giveBack (hcap : c.cap = total)
    (hwhole : c.sem.permits+heldPermits c+queuedBytes c+n = total) (hfair : Fair c.sem)
    (hwaiting : ∀ w ∈ c.sem.waiters, w.want = w.item.length ∧ w.item.length ≤ total)
    (hgranted : ∀ p ∈ c.granted, p.permit = p.bytes.length)
    (hqueued : ∀ p ∈ c.queue, p.permit = p.bytes.length) : Inv total (giveBack c n) := by
  refine ⟨hcap,?_,hfair.release n,?_,List.forall_mem_append.mpr ⟨hgranted,?_⟩,hqueued⟩
  · have htotal := release_total c.sem n
    have hmap : ((c.sem.served n).map fun w => (⟨w.want,w.item⟩ : Permitted)).map Permitted.permit =
        (c.sem.served n).map Waiter.want := by
      rw [List.map_map]
      rfl
    simp only [giveBack, heldPermits, queuedBytes, List.map_append, List.sum_append, hmap] at hwhole ⊢
    omega
  · intro w hw
    obtain ⟨v,hv,hwant,hitem⟩ := mem_serve_rest hw
    rw [← hwant, ← hitem]
    exact hwaiting v hv
  · intro p hp
    obtain ⟨w,hw,rfl⟩ := List.mem_map.mp hp
    exact (hwaiting w (mem_serve_done hw)).1

theorem inv_send (h : Inv total c) (hmax : total ≤ maxPermits) (bytes : Bytes) :
    Inv total (send c bytes) := by
  have hcap := h.hcap
  have hwhole := h.whole
  have hpow : maxPermits < 2^32 := by decide
  unfold send
  by_cases hlong : c.cap < bytes.length
  · rw [if_pos hlong]
    exact ⟨h.hcap,h.whole,h.fair,h.waiting,h.granted,h.queued⟩
  rw [if_neg hlong, Nat.mod_eq_of_lt (show bytes.length < 2^32 by omega)]
  dsimp only
  split_ifs with hfree
  · refine ⟨hcap,?_,⟨fun hne => ?_,h.fair.short,h.fair.behind⟩,h.waiting,
      forall_mem_concat h.granted rfl,h.queued⟩
    · simp only [heldPermits, queuedBytes, List.map_append, List.map_cons, List.map_nil,
        List.sum_append, List.sum_cons, List.sum_nil] at hwhole ⊢
      omega
    · have hnone := h.fair.free hne
      change c.sem.permits-bytes.length = 0
      omega
  · have htotal := enqueue_total c.sem bytes.length bytes
    refine ⟨hcap,?_,h.fair.enqueue (by omega) bytes,forall_mem_concat h.waiting ⟨rfl,?_⟩,h.granted,
      h.queued⟩
    · simp only [heldPermits, queuedBytes] at hwhole ⊢
      omega
    · change bytes.length ≤ total
      omega

theorem inv_enqueue {i : ℕ} {p : Permitted} (h : Inv total c) (hp : c.granted[i]? = some p) :
    Inv total (enqueue c i p) := by
  have hwhole := h.whole
  have hsum := sum_map_eraseIdx Permitted.permit hp
  have hpermit := h.granted p (List.mem_of_getElem? hp)
  have hrest : ∀ q ∈ c.granted.eraseIdx i, q.permit = q.bytes.length :=
    fun q hq => h.granted q (List.mem_of_mem_eraseIdx hq)
  unfold enqueue
  dsimp only
  split_ifs with hreceiving
  · refine ⟨h.hcap,?_,h.fair,h.waiting,hrest,forall_mem_concat h.queued hpermit⟩
    simp only [heldPermits, queuedBytes, List.map_append, List.map_cons, List.map_nil,
      List.sum_append, List.sum_cons, List.sum_nil] at hwhole ⊢
    omega
  · refine inv_giveBack h.hcap ?_ h.fair h.waiting hrest h.queued
    simp only [heldPermits, queuedBytes] at hwhole ⊢
    omega

theorem inv_pull {p : Permitted} {rest : List Permitted} {received : List Bytes} (h : Inv total c)
    (hqueue : c.queue = p::rest) :
    Inv total (giveBack { c with queue := rest, received := received } p.permit) := by
  have hwhole := h.whole
  obtain ⟨hpermit,hrest⟩ := List.forall_mem_cons.mp (hqueue ▸ h.queued)
  refine inv_giveBack h.hcap ?_ h.fair h.waiting h.granted hrest
  simp only [heldPermits, queuedBytes, hqueue, List.map_cons, List.sum_cons] at hwhole ⊢
  omega

theorem inv_step (hmax : total ≤ maxPermits) (h : Inv total c) (hstep : step c a = some d) :
    Inv total d := by
  have hwhole := h.whole
  cases a with
  | send bytes =>
    cases hstep
    exact inv_send h hmax bytes
  | enqueue i =>
    obtain ⟨p,hp,rfl⟩ := Option.map_eq_some_iff.mp hstep
    exact inv_enqueue h hp
  | cancelWaiting i =>
    obtain ⟨w,hw,rfl⟩ := Option.map_eq_some_iff.mp hstep
    have hleave := leave_total hw
    refine inv_giveBack h.hcap ?_ (h.fair.leave i)
      (fun v hv => h.waiting v (List.mem_of_mem_eraseIdx hv)) h.granted h.queued
    simp only [heldPermits, queuedBytes] at hwhole ⊢
    change c.sem.permits+_+_+_ = total
    omega
  | cancelGranted i =>
    obtain ⟨p,hp,rfl⟩ := Option.map_eq_some_iff.mp hstep
    have hsum := sum_map_eraseIdx Permitted.permit hp
    refine inv_giveBack h.hcap ?_ h.fair h.waiting
      (fun q hq => h.granted q (List.mem_of_mem_eraseIdx hq)) h.queued
    simp only [heldPermits, queuedBytes] at hwhole ⊢
    omega
  | recv =>
    simp only [step] at hstep
    split at hstep
    next p rest hqueue =>
      split_ifs at hstep
      cases hstep
      exact inv_pull h hqueue
    next => cases hstep
  | dropReceiver =>
    simp only [step] at hstep
    split_ifs at hstep
    cases hstep
    exact ⟨h.hcap,h.whole,h.fair,h.waiting,h.granted,h.queued⟩
  | drain =>
    simp only [step] at hstep
    split at hstep
    next p rest hqueue =>
      split_ifs at hstep
      cases hstep
      exact inv_pull h hqueue
    next => cases hstep

theorem inv_bytesChannel (capBytes : ℕ) :
    Inv (min capBytes maxPermits) (bytesChannel capBytes) := by
  refine ⟨rfl,rfl,⟨fun h => absurd rfl h,?_,?_⟩,?_,?_,?_⟩
  all_goals exact fun _ h => absurd h List.not_mem_nil

end Conservation

section Drain
variable {total : ℕ} {c : Channel}

def everything (c : Channel) : List Bytes :=
  c.received++(c.queue.map Permitted.bytes++(c.granted.map Permitted.bytes++
    c.sem.waiters.map Waiter.item))

/-- Steps until every send is done and everything is received. -/
def work (c : Channel) : ℕ := 3*c.sem.waiters.length+2*c.granted.length+c.queue.length

theorem served_items (s : Sem Bytes) (n : ℕ) :
    ((s.served n).map fun w => (⟨w.want,w.item⟩ : Permitted)).map Permitted.bytes++
      (s.release n).waiters.map Waiter.item = s.waiters.map Waiter.item := by
  rw [List.map_map]
  exact serve_items n s.waiters

theorem served_length (s : Sem Bytes) (n : ℕ) :
    (s.served n).length+(s.release n).waiters.length = s.waiters.length := by
  have hlen := congrArg List.length (serve_items n s.waiters)
  rw [List.length_append, List.length_map, List.length_map, List.length_map] at hlen
  exact hlen

theorem enqueue_first {p : Permitted} {rest : List Permitted} (hreceiving : c.receiving = true)
    (hgranted : c.granted = p::rest) :
    enqueue c 0 p = { c with granted := rest, queue := c.queue++[p] } := by
  rw [enqueue, hgranted, List.eraseIdx_cons_zero]
  exact if_pos hreceiving

/-- With nothing queued and nothing in hand, no send waits and all permits are free. -/
theorem all_free (h : Inv total c) (hqueue : c.queue = []) (hgranted : c.granted = []) :
    c.sem.waiters = [] ∧ c.sem.permits = total := by
  have hwhole := h.whole
  simp only [heldPermits, queuedBytes, hgranted, hqueue, List.map_nil, List.sum_nil,
    Nat.add_zero] at hwhole
  apply h.fair.no_waiter hwhole
  intro w hw
  rw [(h.waiting w hw).1]
  exact (h.waiting w hw).2

/-- A message that fits the budget goes straight through a drained channel. -/
theorem send_through (h : Inv total c) (hmax : total ≤ maxPermits)
    (hreceiving : c.receiving = true) (hqueue : c.queue = []) (hgranted : c.granted = [])
    {bytes : Bytes} (hfits : bytes.length ≤ total) :
    ∃ d, run step c [.send bytes,.enqueue 0] = some d ∧ d.queue = [⟨bytes.length,bytes⟩] := by
  have hfree := (all_free h hqueue hgranted).2
  have hpow : maxPermits < 2^32 := by decide
  have hsend : send c bytes = { c with
      sem := { c.sem with permits := c.sem.permits-bytes.length }
      granted := [⟨bytes.length,bytes⟩] } := by
    rw [send, if_neg (by rw [h.hcap]; omega), Nat.mod_eq_of_lt (show bytes.length < 2^32 by omega)]
    dsimp only
    rw [if_pos (by omega), hgranted, List.nil_append]
  have hgranted' : (send c bytes).granted = [⟨bytes.length,bytes⟩] := by rw [hsend]
  have hreceiving' : (send c bytes).receiving = true := by
    rw [hsend]
    exact hreceiving
  have hqueue' : (send c bytes).queue = [] := by
    rw [hsend]
    exact hqueue
  have henqueue : step (send c bytes) (.enqueue 0) =
      some (enqueue (send c bytes) 0 ⟨bytes.length,bytes⟩) := by
    rw [step, hgranted']
    rfl
  refine ⟨_,(run_cons step).mpr ⟨_,rfl,(run_cons step).mpr ⟨_,henqueue,rfl⟩⟩,?_⟩
  rw [enqueue_first hreceiving' hgranted', hqueue']
  rfl

/-- Whoever has got permits goes on, and the receiver pulls: all that is on its way arrives. -/
theorem drains (h : Inv total c) (hmax : total ≤ maxPermits) (hreceiving : c.receiving = true) :
    ∃ bs d, (∀ b ∈ bs, b = .enqueue 0 ∨ b = .recv) ∧ run step c bs = some d ∧ Inv total d ∧
      d.receiving = true ∧ d.received = everything c ∧ d.queue = [] ∧ d.granted = [] := by
  induction hwork : work c using Nat.strong_induction_on generalizing c with
  | _ k ih =>
    subst hwork
    -- One step that leaves less to do.
    have hgo : ∀ {b d}, (b = .enqueue 0 ∨ b = .recv) → step c b = some d → d.receiving = true →
        everything d = everything c → work d < work c →
        ∃ bs d, (∀ b ∈ bs, b = .enqueue 0 ∨ b = .recv) ∧ run step c bs = some d ∧ Inv total d ∧
          d.receiving = true ∧ d.received = everything c ∧ d.queue = [] ∧ d.granted = [] := by
      intro b d hb hstep hd hsame hless
      obtain ⟨bs,e,hbs,hrun,hinv,he,hall,hqueue,hgranted⟩ :=
        ih (work d) hless (inv_step hmax h hstep) hd rfl
      exact ⟨b::bs,e,List.forall_mem_cons.mpr ⟨hb,hbs⟩,(run_cons step).mpr ⟨d,hstep,hrun⟩,hinv,he,
        by rw [hall, hsame],hqueue,hgranted⟩
    cases hgranted : c.granted with
    | cons p rest =>
      have hstep : step c (.enqueue 0) = some (enqueue c 0 p) := by rw [step, hgranted]; rfl
      have henqueue := enqueue_first hreceiving hgranted
      refine hgo (.inl rfl) hstep ?_ ?_ ?_
      · rw [henqueue]
        exact hreceiving
      · rw [henqueue, everything, everything, hgranted]
        simp only [List.map_append, List.map_cons, List.map_nil, List.append_assoc,
          List.cons_append, List.nil_append]
      · rw [henqueue, work, work, hgranted]
        simp only [List.length_append, List.length_cons, List.length_nil]
        omega
    | nil =>
      cases hqueue : c.queue with
      | cons p rest =>
        have hstep : step c .recv = some
            (giveBack { c with queue := rest, received := c.received++[p.bytes] } p.permit) := by
          rw [step, hqueue]
          exact if_pos hreceiving
        refine hgo (.inr rfl) hstep hreceiving ?_ ?_
        · have hitems := served_items c.sem p.permit
          simp only [everything, giveBack, hqueue, hgranted, List.map_cons, List.map_nil,
            List.nil_append, List.append_assoc, List.cons_append, ← hitems]
        · have hlen := served_length c.sem p.permit
          simp only [work, giveBack, hqueue, hgranted, List.length_append, List.length_cons,
            List.length_nil, List.length_map]
          omega
      | nil =>
        have hnone := (all_free h hqueue hgranted).1
        refine ⟨[],c,fun _ hb => absurd hb List.not_mem_nil,rfl,h,hreceiving,?_,hqueue,hgranted⟩
        simp [everything, hqueue, hgranted, hnone]

end Drain

/-- The free permits, those of sends on their way into the queue and the bytes in the queue are
the capacity, in every state; and a drained channel takes any message of at most that size. -/
theorem byte_budget_conserved (capBytes : ℕ) {as : List Act} {c : Channel}
    (hrun : run step (bytesChannel capBytes) as = some c) :
    c.sem.permits+heldPermits c+queuedBytes c = min capBytes (2^32-1) ∧
    queuedBytes c ≤ min capBytes (2^32-1) ∧
    (∀ bytes, min capBytes (2^32-1) < bytes.length →
      step c (.send bytes) = some { c with returned := c.returned++[bytes] }) ∧
    (c.queue = [] → c.granted = [] →
      c.sem.waiters = [] ∧ c.sem.permits = min capBytes (2^32-1)) ∧
    (c.receiving = true → ∃ bs d, (∀ b ∈ bs, b = .enqueue 0 ∨ b = .recv) ∧
      run step c bs = some d ∧ d.received = everything c ∧ d.queue = [] ∧
      ∀ bytes, bytes.length ≤ min capBytes (2^32-1) →
        ∃ e, run step d [.send bytes,.enqueue 0] = some e ∧ e.queue = [⟨bytes.length,bytes⟩]) := by
  have hmax : min capBytes maxPermits ≤ maxPermits := min_le_right _ _
  have h : Inv (min capBytes maxPermits) c :=
    run_invariant step (fun c a d hc hd => inv_step hmax hc hd) (inv_bytesChannel capBytes) hrun
  have hwhole := h.whole
  refine ⟨hwhole,?_,?_,all_free h,?_⟩
  · change queuedBytes c ≤ min capBytes maxPermits
    omega
  · intro bytes hlong
    have hcap : c.cap < bytes.length := by
      rw [h.hcap]
      exact hlong
    rw [step, send, if_pos hcap]
  · intro hreceiving
    obtain ⟨bs,d,hbs,hrun',hd,hreceiving',hall,hqueue,hgranted⟩ := drains h hmax hreceiving
    exact ⟨bs,d,hbs,hrun',hall,hqueue,fun bytes hfits =>
      send_through hd hmax hreceiving' hqueue hgranted hfits⟩

/-- Two sends into ten bytes: the second takes what the first has left and waits, gets the rest
when the first message is pulled, and is cancelled before it runs on. -/
def contended : List Act :=
  [.send (List.replicate 6 1),.send (List.replicate 8 2),.send (List.replicate 11 3),.enqueue 0,
    .recv,.cancelGranted 0,.send [4],.enqueue 0]

theorem byte_budget_conserved_contended : ∃ c, run step (bytesChannel 10) contended = some c ∧
    c.sem.permits+heldPermits c+queuedBytes c = 10 ∧ queuedBytes c = 1 ∧
    c.returned = [List.replicate 11 3] := by
  obtain ⟨c,hc⟩ : ∃ c, run step (bytesChannel 10) contended = some c := ⟨_,rfl⟩
  refine ⟨c,hc,(byte_budget_conserved 10 hc).1,?_⟩
  cases hc
  exact ⟨rfl,rfl⟩

end Term.ByteBudget
