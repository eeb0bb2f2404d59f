import TermMux.Machine
import Mathlib.Algebra.Group.Nat.Defs

/-!
# The connection of one browser tab

`connectTab`, `scheduleReconnect` and the part of `closeTab` that ends a
connection, with the events of the sockets and timers that they make. A tab
keeps every socket and timer it ever made, so an event may come late. An open
tab always has one socket that has not closed or one timer that will make the
next, and never both; a closed tab has no timer, and its socket is on its way out.
-/

set_option autoImplicit false

namespace Term.TabConnection
open Term.Machine

inductive Ready where
  | connecting | opened | closing | closed
  deriving DecidableEq, Repr

structure Timer where
  pending : Bool
  /-- Milliseconds before jitter. -/
  base : ℕ
  deriving DecidableEq, Repr

structure Conn where
  closing : Bool
  ws : Option ℕ
  reconnectAttempt : ℕ
  reconnectTimer : Option ℕ
  sockets : List Ready
  timers : List Timer
  deriving DecidableEq, Repr

def Conn.new : Conn := ⟨false,none,0,none,[],[]⟩

def reconnectBase (attempt : ℕ) : ℕ := min (500*2^(attempt-1)) 30000

def scheduleReconnect (c : Conn) : Conn :=
  if c.closing then c
  else
    { c with
      reconnectAttempt := c.reconnectAttempt+1
      reconnectTimer := some c.timers.length
      timers := c.timers++[⟨true,reconnectBase (c.reconnectAttempt+1)⟩] }

/-- `clearTimeout` -/
def clear (timers : List Timer) (j : ℕ) : List Timer :=
  timers.modify j fun t => { t with pending := false }

def clearTimer (c : Conn) : Conn :=
  match c.reconnectTimer with
  | some j => { c with reconnectTimer := none, timers := clear c.timers j }
  | none => c

/-- The constructor of the socket may throw. -/
def connectTab (c : Conn) (throws : Bool) : Conn :=
  if c.closing then c
  else
    let c := clearTimer c
    if throws then scheduleReconnect c
    else { c with ws := some c.sockets.length, sockets := c.sockets++[.connecting] }

def Ready.close : Ready → Ready
  | .connecting | .opened => .closing
  | r => r

def shut (c : Conn) : Conn :=
  let c := clearTimer { c with closing := true }
  match c.ws with
  | some k => { c with sockets := c.sockets.modify k Ready.close }
  | none => c

/-- The server's closing handshake comes before the close event, and runs no handler. -/
inductive Event where
  | opened (k : ℕ)
  | closing (k : ℕ)
  | closed (k : ℕ)
  | fire (j : ℕ) (throws : Bool)
  deriving DecidableEq, Repr

def handle (c : Conn) : Event → Option Conn
  | .opened k =>
    if c.sockets[k]? = some .connecting then
      some { c with reconnectAttempt := 0, sockets := c.sockets.set k .opened }
    else none
  | .closing k =>
    if c.sockets[k]? = some .opened then some { c with sockets := c.sockets.set k .closing }
    else none
  | .closed k =>
    match c.sockets[k]? with
    | none | some .closed => none
    | some _ => some (scheduleReconnect { c with ws := none, sockets := c.sockets.set k .closed })
  | .fire j throws =>
    match c.timers[j]? with
    | some ⟨true,_⟩ => some (connectTab { c with timers := clear c.timers j } throws)
    | _ => none

structure Idle (c : Conn) : Prop where
  sockets : ∀ r ∈ c.sockets, r = .closed
  timers : ∀ t ∈ c.timers, t.pending = false
  ws : c.ws = none
  reconnectTimer : c.reconnectTimer = none

structure Live (c : Conn) : Prop where
  sockets : ∀ k r, c.sockets[k]? = some r → r ≠ .closed → c.ws = some k
  timers : ∀ j t, c.timers[j]? = some t → t.pending = true → c.reconnectTimer = some j
  either : (∃ k r, c.ws = some k ∧ c.reconnectTimer = none ∧ c.sockets[k]? = some r ∧
      r ≠ .closed) ∨
    ∃ j t, c.ws = none ∧ c.reconnectTimer = some j ∧ c.timers[j]? = some t ∧ t.pending = true

structure Over (c : Conn) : Prop where
  sockets : ∀ r ∈ c.sockets, r = .closing ∨ r = .closed
  timers : ∀ t ∈ c.timers, t.pending = false
  reconnectTimer : c.reconnectTimer = none

structure ConnOk (c : Conn) : Prop where
  live : c.closing = false → Live c
  ended : c.closing = true → Over c
  bases : ∀ t ∈ c.timers, 500 ≤ t.base ∧ t.base ≤ 30000

section Steps
variable {c d : Conn} {e : Event} {j k : ℕ} {timers : List Timer}

theorem reconnectBase_bounds (attempt : ℕ) :
    500 ≤ reconnectBase attempt ∧ reconnectBase attempt ≤ 30000 := by
  have hpos : 0 < 2^(attempt-1) := Nat.two_pow_pos _
  rw [reconnectBase]
  omega

theorem mem_clear {t : Timer} (h : t ∈ clear timers j) :
    ∃ u ∈ timers, t.base = u.base ∧ (t.pending = true → t = u) := by
  have ⟨i,hi⟩ := List.mem_iff_getElem?.mp h
  rw [clear, List.getElem?_modify] at hi
  have ⟨u,hu,ht⟩ := Option.map_eq_some_iff.mp hi
  refine ⟨u,List.mem_of_getElem? hu,?_⟩
  split_ifs at ht <;> simp [← ht]

theorem clear_none (h : ∀ i t, timers[i]? = some t → t.pending = true → i = j) :
    ∀ t ∈ clear timers j, t.pending = false := by
  intro t ht
  have ⟨i,hi⟩ := List.mem_iff_getElem?.mp ht
  rw [clear, List.getElem?_modify] at hi
  have ⟨u,hu,ht⟩ := Option.map_eq_some_iff.mp hi
  by_cases hij : j = i
  · simp [← ht, hij]
  · cases hp : t.pending with
    | false => rfl
    | true =>
      have hsame : u = t := by simpa [hij] using ht
      subst hsame
      exact absurd (h i u hu hp).symm hij

theorem bases_clear (h : ∀ t ∈ timers, 500 ≤ t.base ∧ t.base ≤ 30000) :
    ∀ t ∈ clear timers j, 500 ≤ t.base ∧ t.base ≤ 30000 := by
  intro t ht
  have ⟨u,hu,hbase,_⟩ := mem_clear ht
  rw [hbase]
  exact h u hu

theorem live_scheduleReconnect (hclosing : c.closing = false) (hc : Idle c) :
    Live (scheduleReconnect c) := by
  rw [scheduleReconnect, hclosing]
  constructor
  · intro k r hk hr
    exact absurd (hc.sockets r (List.mem_of_getElem? hk)) hr
  · intro j t hj hpending
    rcases getElem?_concat_cases hj with hj | ⟨rfl,-⟩
    · rw [hc.timers t (List.mem_of_getElem? hj)] at hpending
      cases hpending
    · rfl
  · exact .inr ⟨_,_,hc.ws,rfl,List.getElem?_concat_length,rfl⟩

theorem bases_scheduleReconnect (h : ∀ t ∈ c.timers, 500 ≤ t.base ∧ t.base ≤ 30000) :
    ∀ t ∈ (scheduleReconnect c).timers, 500 ≤ t.base ∧ t.base ≤ 30000 := by
  intro t ht
  rw [scheduleReconnect] at ht
  split_ifs at ht
  · exact h t ht
  · rcases List.mem_append.mp ht with ht | ht
    · exact h t ht
    · rw [List.mem_singleton.mp ht]
      exact reconnectBase_bounds _

@[simp] theorem clearTimer_closing (c : Conn) : (clearTimer c).closing = c.closing := by
  rw [clearTimer]
  split <;> rfl

@[simp] theorem clearTimer_ws (c : Conn) : (clearTimer c).ws = c.ws := by
  rw [clearTimer]
  split <;> rfl

@[simp] theorem clearTimer_sockets (c : Conn) : (clearTimer c).sockets = c.sockets := by
  rw [clearTimer]
  split <;> rfl

theorem clearTimer_reconnectTimer (c : Conn) : (clearTimer c).reconnectTimer = none := by
  rw [clearTimer]
  split
  · rfl
  · assumption

/-- The timer that a tab knows of is the only one that may be pending. -/
theorem clearTimer_timers (h : ∀ j t, c.timers[j]? = some t → t.pending = true →
    c.reconnectTimer = some j) : ∀ t ∈ (clearTimer c).timers, t.pending = false := by
  rw [clearTimer]
  split
  · rename_i j hj
    apply clear_none
    intro i t ht hpending
    exact Option.some.inj ((h i t ht hpending).symm.trans hj)
  · rename_i hnone
    intro t ht
    have ⟨i,hi⟩ := List.mem_iff_getElem?.mp ht
    cases hp : t.pending with
    | false => rfl
    | true =>
      have hsome := h i t hi hp
      rw [hnone] at hsome
      cases hsome

theorem bases_clearTimer (h : ∀ t ∈ c.timers, 500 ≤ t.base ∧ t.base ≤ 30000) :
    ∀ t ∈ (clearTimer c).timers, 500 ≤ t.base ∧ t.base ≤ 30000 := by
  rw [clearTimer]
  split
  · exact bases_clear h
  · exact h

theorem live_connectTab (hclosing : c.closing = false) (hc : Idle (clearTimer c)) (throws : Bool) :
    Live (connectTab c throws) := by
  rw [connectTab, hclosing]
  cases throws with
  | true => exact live_scheduleReconnect (by simpa using hclosing) hc
  | false =>
    constructor
    · intro k r hk hr
      rcases getElem?_concat_cases hk with hk | ⟨rfl,rfl⟩
      · exact absurd (hc.sockets r (List.mem_of_getElem? hk)) hr
      · rfl
    · intro j t hj hpending
      rw [hc.timers t (List.mem_of_getElem? hj)] at hpending
      cases hpending
    · exact .inl ⟨_,_,rfl,hc.reconnectTimer,List.getElem?_concat_length,nofun⟩

theorem bases_connectTab (h : ∀ t ∈ c.timers, 500 ≤ t.base ∧ t.base ≤ 30000) (throws : Bool) :
    ∀ t ∈ (connectTab c throws).timers, 500 ≤ t.base ∧ t.base ≤ 30000 := by
  rw [connectTab]
  cases c.closing with
  | true => exact h
  | false =>
    cases throws with
    | true => exact bases_scheduleReconnect (bases_clearTimer h)
    | false => exact bases_clearTimer h

theorem scheduleReconnect_closing (c : Conn) : (scheduleReconnect c).closing = c.closing := by
  rw [scheduleReconnect]
  split_ifs <;> rfl

theorem connectTab_closing (c : Conn) (throws : Bool) :
    (connectTab c throws).closing = c.closing := by
  rw [connectTab]
  split_ifs
  · rfl
  · rw [scheduleReconnect_closing, clearTimer_closing]
  · exact clearTimer_closing c

theorem connOk_of_live (hclosing : c.closing = false) (hlive : Live c)
    (hbases : ∀ t ∈ c.timers, 500 ≤ t.base ∧ t.base ≤ 30000) : ConnOk c where
  live _ := hlive
  ended h := by rw [hclosing] at h; cases h
  bases := hbases

theorem connOk_new (throws : Bool) : ConnOk (connectTab Conn.new throws) := by
  have hidle : Idle (clearTimer Conn.new) := ⟨nofun,nofun,rfl,rfl⟩
  exact connOk_of_live (connectTab_closing _ _) (live_connectTab rfl hidle throws)
    (bases_connectTab (fun _ h => absurd h List.not_mem_nil) throws)

theorem live_timerless (hc : Live c) (hws : c.ws = some k) : c.reconnectTimer = none := by
  rcases hc.either with ⟨_,_,_,hnone,_,_⟩ | ⟨_,_,hno,_,_,_⟩
  · exact hnone
  · rw [hws] at hno
    cases hno

theorem live_set {r r' : Ready} (hc : Live c) (hk : c.sockets[k]? = some r) (hr : r ≠ .closed)
    (hr' : r' ≠ .closed) (attempt : ℕ) :
    Live { c with reconnectAttempt := attempt, sockets := c.sockets.set k r' } := by
  have hws := hc.sockets k r hk hr
  have hnone : c.reconnectTimer = none := live_timerless hc hws
  have hlt : k < c.sockets.length := (List.getElem?_eq_some_iff.mp hk).1
  constructor
  · intro i u hi hu
    rcases getElem?_set_cases hi with ⟨rfl,rfl⟩ | ⟨-,hi⟩
    · exact hws
    · exact hc.sockets i u hi hu
  · exact hc.timers
  · exact .inl ⟨k,r',hws,hnone,List.getElem?_set_self hlt,hr'⟩

theorem idle_closed {r : Ready} (hc : Live c) (hk : c.sockets[k]? = some r) (hr : r ≠ .closed) :
    Idle { c with ws := none, sockets := c.sockets.set k .closed } := by
  have hws := hc.sockets k r hk hr
  have hnone : c.reconnectTimer = none := live_timerless hc hws
  constructor
  · intro r' hr'
    have ⟨i,hi⟩ := List.mem_iff_getElem?.mp hr'
    rcases getElem?_set_cases hi with ⟨-,rfl⟩ | ⟨hne,hi⟩
    · rfl
    · by_contra hlive
      have hws' := hc.sockets i r' hi hlive
      exact hne (Option.some.inj (hws'.symm.trans hws))
  · intro t ht
    have ⟨j,hj⟩ := List.mem_iff_getElem?.mp ht
    cases hp : t.pending with
    | false => rfl
    | true =>
      have hsome := hc.timers j t hj hp
      rw [hnone] at hsome
      cases hsome
  · rfl
  · exact hnone

theorem idle_fired {t : Timer} (hc : Live c) (hj : c.timers[j]? = some t)
    (hpending : t.pending = true) : Idle (clearTimer { c with timers := clear c.timers j }) := by
  have htimer := hc.timers j t hj hpending
  have hws : c.ws = none := by
    rcases hc.either with ⟨_,_,_,hnone,_,_⟩ | ⟨_,_,hws,_,_,_⟩
    · rw [htimer] at hnone
      cases hnone
    · exact hws
  constructor
  · intro r hr
    rw [clearTimer_sockets] at hr
    by_contra hlive
    have ⟨i,hi⟩ := List.mem_iff_getElem?.mp hr
    have hsome := hc.sockets i r hi hlive
    rw [hws] at hsome
    cases hsome
  · apply clearTimer_timers
    intro i u hu hp
    have hone : ∀ i t, c.timers[i]? = some t → t.pending = true → i = j := fun i t ht hp =>
      Option.some.inj ((hc.timers i t ht hp).symm.trans htimer)
    rw [clear_none hone u (List.mem_of_getElem? hu)] at hp
    cases hp
  · rw [clearTimer_ws]
    exact hws
  · exact clearTimer_reconnectTimer _

/-- Only the connection of an open tab has a socket that connects or is open. -/
theorem connOk_set {r r' : Ready} (hc : ConnOk c) (hk : c.sockets[k]? = some r)
    (hr : r ≠ .closing ∧ r ≠ .closed) (hr' : r' ≠ .closed) (attempt : ℕ) :
    ConnOk { c with reconnectAttempt := attempt, sockets := c.sockets.set k r' } := by
  by_cases hclosing : c.closing = true
  · rcases (hc.ended hclosing).sockets r (List.mem_of_getElem? hk) with h | h
    · exact absurd h hr.1
    · exact absurd h hr.2
  · have hclosing : c.closing = false := by simpa using hclosing
    exact connOk_of_live hclosing (live_set (hc.live hclosing) hk hr.2 hr' attempt) hc.bases

theorem handle_ok (hc : ConnOk c) (h : handle c e = some d) :
    ConnOk d ∧ d.closing = c.closing := by
  cases e with
  | opened k =>
    simp only [handle] at h
    split_ifs at h with hk
    cases h
    exact ⟨connOk_set hc hk (by decide) (by decide) 0,rfl⟩
  | closing k =>
    simp only [handle] at h
    split_ifs at h with hk
    cases h
    exact ⟨connOk_set hc hk (by decide) (by decide) c.reconnectAttempt,rfl⟩
  | closed k =>
    simp only [handle] at h
    split at h
    · cases h
    · cases h
    · rename_i r hr hk
      cases h
      by_cases hclosing : c.closing = true
      · have hover := hc.ended hclosing
        rw [scheduleReconnect, if_pos hclosing]
        refine ⟨⟨fun h => ?_,fun _ => ⟨?_,hover.timers,hover.reconnectTimer⟩,hc.bases⟩,rfl⟩
        · cases h.symm.trans hclosing
        · intro r' hr'
          rcases List.mem_or_eq_of_mem_set hr' with hr' | rfl
          · exact hover.sockets r' hr'
          · exact .inr rfl
      · have hclosing : c.closing = false := by simpa using hclosing
        have hidle := idle_closed (hc.live hclosing) hk fun h => hr (h ▸ rfl)
        have hsame := scheduleReconnect_closing
          { c with ws := none, sockets := c.sockets.set k .closed }
        exact ⟨connOk_of_live (hsame.trans hclosing) (live_scheduleReconnect hclosing hidle)
          (bases_scheduleReconnect hc.bases),hsame⟩
  | fire j throws =>
    simp only [handle] at h
    split at h
    · rename_i base hj
      cases h
      by_cases hclosing : c.closing = true
      · cases (hc.ended hclosing).timers _ (List.mem_of_getElem? hj)
      · have hclosing : c.closing = false := by simpa using hclosing
        have hidle := idle_fired (hc.live hclosing) hj rfl
        have hsame := connectTab_closing { c with timers := clear c.timers j } throws
        have hfired : Live (connectTab { c with timers := clear c.timers j } throws) :=
          live_connectTab (c := { c with timers := clear c.timers j }) hclosing hidle throws
        exact ⟨connOk_of_live (hsame.trans hclosing) hfired
          (bases_connectTab (bases_clear hc.bases) throws),hsame⟩
    · cases h

theorem shut_closing (c : Conn) : (shut c).closing = true := by
  rw [shut]
  split <;> simp

theorem shut_ok (hc : ConnOk c) (hclosing : c.closing = false) : ConnOk (shut c) := by
  have hlive := hc.live hclosing
  have htimers : ∀ t ∈ (clearTimer { c with closing := true }).timers, t.pending = false :=
    clearTimer_timers hlive.timers
  have hbases : ∀ t ∈ (clearTimer { c with closing := true }).timers,
      500 ≤ t.base ∧ t.base ≤ 30000 := bases_clearTimer hc.bases
  have hdead : ∀ k r, c.sockets[k]? = some r → c.ws ≠ some k → r = .closed := by
    intro k r hk hne
    by_contra hr
    exact hne (hlive.sockets k r hk hr)
  rw [shut]
  split
  · rename_i k hk
    rw [clearTimer_ws] at hk
    refine ⟨fun h => ?_,fun _ => ⟨?_,htimers,clearTimer_reconnectTimer _⟩,hbases⟩
    · rw [clearTimer_closing] at h
      cases h
    · intro r hr
      rw [clearTimer_sockets] at hr
      have ⟨i,hi⟩ := List.mem_iff_getElem?.mp hr
      rw [List.getElem?_modify] at hi
      have ⟨u,hu,hr⟩ := Option.map_eq_some_iff.mp hi
      by_cases hik : k = i
      · subst hik
        cases u <;> simp [Ready.close] at hr <;> simp [← hr]
      · have hsame : u = r := by simpa [hik] using hr
        subst hsame
        exact .inr (hdead i u hu fun h => hik (Option.some.inj (hk.symm.trans h)))
  · rename_i hnone
    rw [clearTimer_ws] at hnone
    refine ⟨fun h => ?_,fun _ => ⟨?_,htimers,clearTimer_reconnectTimer _⟩,hbases⟩
    · rw [clearTimer_closing] at h
      cases h
    · intro r hr
      rw [clearTimer_sockets] at hr
      have ⟨i,hi⟩ := List.mem_iff_getElem?.mp hr
      exact .inr (hdead i r hi (by rw [show c.ws = none from hnone]; nofun))

end Steps

section Counts
variable {c : Conn}

/-- The sockets that have not closed, the one in its closing handshake among them. -/
def Conn.unclosed (c : Conn) : ℕ := c.sockets.countP fun r => r ≠ .closed

def Conn.pending (c : Conn) : ℕ := c.timers.countP Timer.pending

theorem countP_one {α : Type} {l : List α} {p : α → Bool} {k : ℕ} {a : α} (hk : l[k]? = some a)
    (ha : p a = true) (h : ∀ i b, l[i]? = some b → p b = true → i = k) : l.countP p = 1 := by
  induction l generalizing k with
  | nil => cases hk
  | cons b l ih =>
    cases k with
    | zero =>
      cases hk
      have hrest : l.countP p = 0 := by
        rw [List.countP_eq_zero]
        intro b hb hp
        have ⟨i,hi⟩ := List.mem_iff_getElem?.mp hb
        cases h (i+1) b hi hp
      rw [List.countP_cons_of_pos ha, hrest]
    | succ k =>
      have hb : ¬ p b = true := fun hp => by cases h 0 b rfl hp
      rw [List.countP_cons_of_neg hb]
      exact ih hk fun i b hi hp => Nat.succ_inj.mp (h (i+1) b hi hp)

/-- One unclosed socket or one pending timer, and the socket is the one that the tab sends on. -/
theorem live_counts (h : Live c) : c.unclosed+c.pending = 1 ∧ ∀ k, c.ws = some k ↔
    ∃ r, c.sockets[k]? = some r ∧ r ≠ .closed := by
  rcases h.either with ⟨k,r,hk,htimer,hr,hlive⟩ | ⟨j,t,hk,htimer,ht,hpending⟩
  · have hone : c.unclosed = 1 := by
      apply countP_one hr
      · exact decide_eq_true hlive
      · intro i b hi hb
        exact Option.some.inj ((h.sockets i b hi (of_decide_eq_true hb)).symm.trans hk)
    have hnone : c.pending = 0 := by
      rw [Conn.pending, List.countP_eq_zero]
      intro t ht hp
      have ⟨j,hj⟩ := List.mem_iff_getElem?.mp ht
      cases (h.timers j t hj hp).symm.trans htimer
    refine ⟨by omega,fun i => ⟨fun hi => ?_,fun ⟨r,hr,hl⟩ => h.sockets i r hr hl⟩⟩
    cases hi.symm.trans hk
    exact ⟨r,hr,hlive⟩
  · have hone : c.pending = 1 := by
      apply countP_one ht hpending
      intro i t hi hp
      exact Option.some.inj ((h.timers i t hi hp).symm.trans htimer)
    have hnone : c.unclosed = 0 := by
      rw [Conn.unclosed, List.countP_eq_zero]
      intro r hr hl
      have ⟨i,hi⟩ := List.mem_iff_getElem?.mp hr
      cases (h.sockets i r hi (of_decide_eq_true hl)).symm.trans hk
    refine ⟨by omega,fun i => ⟨fun hi => ?_,fun ⟨r,hr,hl⟩ => h.sockets i r hr hl⟩⟩
    cases hi.symm.trans hk

theorem over_pending (h : Over c) : c.pending = 0 := by
  rw [Conn.pending, List.countP_eq_zero]
  intro t ht
  simp [h.timers t ht]

end Counts

end Term.TabConnection
