import Mathlib.Data.List.AList
import TermMux.NotifyLoop

/-!
# The links of the agents on the hub

Every connection of an agent runs `handle_connection`: after its hello it registers its link
under its machine, which evicts the link that was there, spawns a writer and reads. When the
reader has ended it takes its link out of the map if it is still the one there, clears its
streams, notifies its writer and waits for it. A link is identified by the position of its
connection, as the source identifies it by its `Arc`. The link holds a sender of the
writer's queue and the writer holds the link, so that queue does not end.
-/

set_option autoImplicit false

namespace Term.LinkRegistry
open Term.Machine Term.NotifyLoop

inductive Main where
  | hello
  /-- The link is in the map and the writer is not spawned. -/
  | registered
  | reading
  /-- The link is out of the map, unless another one is there. -/
  | unlisted
  | cleared
  /-- The notification is given and the writer is awaited. -/
  | closing
  | finished
  deriving DecidableEq, Repr

structure Conn where
  machine : String
  main : Main
  reader : Loop
  writer : Loop
  /-- How often `notify_close` was fired. -/
  notices : ℕ
  deriving DecidableEq, Repr

def Conn.accepted (machine : String) : Conn := ⟨machine,.hello,.idle,.idle,0⟩

/-- `notify_waiters`. -/
def Conn.notify (c : Conn) : Conn :=
  { c with reader := c.reader.notify, writer := c.writer.notify, notices := c.notices+1 }

def Main.listed : Main → Bool
  | .registered | .reading => true
  | _ => false

def Main.writing : Main → Bool
  | .reading | .unlisted | .cleared | .closing => true
  | _ => false

structure Hub where
  conns : List Conn
  agents : AList fun _ : String => ℕ
  /-- Every registration, the latest first. -/
  registered : List (String × ℕ)

def Hub.start : Hub := ⟨[],∅,[]⟩

inductive Act where
  | accept (machine : String)
  /-- The hello is missing or wrong. -/
  | refuse (k : ℕ)
  | register (k : ℕ)
  | spawn (k : ℕ)
  | reader (k : ℕ) (e : Event)
  | writer (k : ℕ) (e : Event)
  | unlist (k : ℕ)
  | clear (k : ℕ)
  | close (k : ℕ)
  | join (k : ℕ)
  deriving DecidableEq, Repr

def setConn (s : Hub) (k : ℕ) (c : Conn) : Hub := { s with conns := s.conns.set k c }

/-- The link that a registration of this machine displaces is notified. -/
def evict (s : Hub) (machine : String) : List Conn :=
  match s.agents.lookup machine with
  | some j => s.conns.modify j Conn.notify
  | none => s.conns

def register (s : Hub) (k : ℕ) (c : Conn) : Hub :=
  { conns := (evict s c.machine).set k { c with main := .registered }
    agents := s.agents.insert c.machine k
    registered := (c.machine,k)::s.registered }

def unlist (s : Hub) (k : ℕ) (c : Conn) : Hub :=
  { s with
    conns := s.conns.set k { c with main := .unlisted }
    agents := if s.agents.lookup c.machine = some k then s.agents.erase c.machine else s.agents }

def move (s : Hub) (k : ℕ) (c : Conn) (here next : Main) : Option Hub :=
  if c.main = here then some (setConn s k { c with main := next }) else none

def connStep (s : Hub) (k : ℕ) (c : Conn) : Act → Option Hub
  | .accept _ => none
  | .refuse _ => move s k c .hello .finished
  | .register _ => if c.main = .hello then some (register s k c) else none
  | .spawn _ => move s k c .registered .reading
  | .reader _ e =>
    if c.main = .reading then (c.reader.step e).map fun l => setConn s k { c with reader := l }
    else none
  | .writer _ e =>
    if c.main.writing ∧ e ≠ .ended then
      (c.writer.step e).map fun l => setConn s k { c with writer := l }
    else none
  | .unlist _ => if c.main = .reading ∧ c.reader = .left then some (unlist s k c) else none
  | .clear _ => move s k c .unlisted .cleared
  | .close _ => move s k c.notify .cleared .closing
  | .join _ => if c.writer = .left then move s k c .closing .finished else none

def Act.conn : Act → ℕ
  | .accept _ => 0
  | .refuse k | .register k | .spawn k | .reader k _ | .writer k _ | .unlist k | .clear k | .close k
  | .join k => k

def step (s : Hub) : Act → Option Hub
  | .accept machine => some { s with conns := s.conns++[Conn.accepted machine] }
  | a => s.conns[a.conn]?.bind fun c => connStep s a.conn c a

inductive Effect (s : Hub) : Act → Hub → Prop where
  | accepted (machine : String) :
    Effect s (.accept machine) { s with conns := s.conns++[Conn.accepted machine] }
  /-- The task goes on, and the map does not hear of it. -/
  | moved (a : Act) (k : ℕ) (c : Conn) (next : Main) (hc : s.conns[k]? = some c)
    (hnext : c.main ≠ .hello → next ≠ .hello ∧ next.listed = c.main.listed) :
    Effect s a (setConn s k { c with main := next })
  | registered (k : ℕ) (c : Conn) (hc : s.conns[k]? = some c) (hhello : c.main = .hello) :
    Effect s (.register k) (register s k c)
  | read (k : ℕ) (e : Event) (c : Conn) (l : Loop) (hc : s.conns[k]? = some c)
    (hl : c.reader.step e = some l) : Effect s (.reader k e) (setConn s k { c with reader := l })
  | wrote (k : ℕ) (e : Event) (c : Conn) (l : Loop) (hc : s.conns[k]? = some c)
    (hl : c.writer.step e = some l) : Effect s (.writer k e) (setConn s k { c with writer := l })
  | unlisted (k : ℕ) (c : Conn) (hc : s.conns[k]? = some c) (hreading : c.main = .reading) :
    Effect s (.unlist k) (unlist s k c)
  | closed (k : ℕ) (c : Conn) (hc : s.conns[k]? = some c) (hcleared : c.main = .cleared) :
    Effect s (.close k) (setConn s k { c.notify with main := .closing })

theorem move_cases {s t : Hub} {k : ℕ} {c : Conn} {here next : Main}
    (h : move s k c here next = some t) :
    c.main = here ∧ t = setConn s k { c with main := next } := by
  unfold move at h
  split_ifs at h with hmain
  cases h
  exact ⟨hmain,rfl⟩

theorem effect_of_connStep {s t : Hub} {a : Act} {c : Conn} (hc : s.conns[a.conn]? = some c)
    (h : connStep s a.conn c a = some t) : Effect s a t := by
  cases a with
  | accept machine => cases h
  | refuse k =>
    obtain ⟨hhello,rfl⟩ := move_cases h
    exact .moved _ k c .finished hc fun hmain => absurd hhello hmain
  | register k =>
    simp only [connStep, Option.ite_none_right_eq_some, Option.some.injEq] at h
    obtain ⟨hhello,rfl⟩ := h
    exact .registered k c hc hhello
  | spawn k =>
    obtain ⟨hmain,rfl⟩ := move_cases h
    exact .moved _ k c .reading hc fun _ => ⟨by simp,by rw [hmain]; rfl⟩
  | reader k e =>
    simp only [connStep, Option.ite_none_right_eq_some, Option.map_eq_some_iff] at h
    obtain ⟨-,l,hl,rfl⟩ := h
    exact .read k e c l hc hl
  | writer k e =>
    simp only [connStep, Option.ite_none_right_eq_some, Option.map_eq_some_iff] at h
    obtain ⟨-,l,hl,rfl⟩ := h
    exact .wrote k e c l hc hl
  | unlist k =>
    simp only [connStep, Option.ite_none_right_eq_some, Option.some.injEq] at h
    obtain ⟨⟨hreading,-⟩,rfl⟩ := h
    exact .unlisted k c hc hreading
  | clear k =>
    obtain ⟨hmain,rfl⟩ := move_cases h
    exact .moved _ k c .cleared hc fun _ => ⟨by simp,by rw [hmain]; rfl⟩
  | close k =>
    obtain ⟨hmain,rfl⟩ := move_cases h
    exact .closed k c hc hmain
  | join k =>
    simp only [connStep, Option.ite_none_right_eq_some] at h
    obtain ⟨hmain,rfl⟩ := move_cases h.2
    exact .moved _ k c .finished hc fun _ => ⟨by simp,by rw [hmain]; rfl⟩

theorem effect_of_step {s t : Hub} {a : Act} (h : step s a = some t) : Effect s a t := by
  cases a with
  | accept machine =>
    cases h
    exact .accepted machine
  | _ =>
    obtain ⟨c,hc,h⟩ := Option.bind_eq_some_iff.mp h
    exact effect_of_connStep hc h

section Notifications

/-- Both loops of the link are out, or leave when their wait is polled next. -/
def Conn.leaving (c : Conn) : Bool := c.reader.leaving && c.writer.leaving

def Conn.listening (c : Conn) : Bool := c.reader.listening && c.writer.listening

def displaced (s : Hub) (k : ℕ) : Option Conn :=
  s.conns[k]?.bind fun c => (s.agents.lookup c.machine).bind fun j => s.conns[j]?

/-- A link is notified while its loops are in their waits or out, and a loop takes no message
ahead of a notification that came during the same poll. -/
def Heard (s : Hub) : Act → Prop
  | .register k => (displaced s k).all Conn.listening = true
  | .close k => (s.conns[k]?).all Conn.listening = true
  | .reader k e => (s.conns[k]?).all (fun c => c.reader.heeds e) = true
  | .writer k e => (s.conns[k]?).all (fun c => c.writer.heeds e) = true
  | _ => True

instance decidableHeard (s : Hub) (a : Act) : Decidable (Heard s a) :=
  match a with
  | .register k => inferInstanceAs (Decidable ((displaced s k).all Conn.listening = true))
  | .close k => inferInstanceAs (Decidable ((s.conns[k]?).all Conn.listening = true))
  | .reader k e => inferInstanceAs (Decidable ((s.conns[k]?).all (fun c => c.reader.heeds e) = true))
  | .writer k e => inferInstanceAs (Decidable ((s.conns[k]?).all (fun c => c.writer.heeds e) = true))
  | .accept _ => isTrue trivial
  | .refuse _ => isTrue trivial
  | .spawn _ => isTrue trivial
  | .unlist _ => isTrue trivial
  | .clear _ => isTrue trivial
  | .join _ => isTrue trivial

def Notified (c : Conn) : Prop := 0 < c.notices → c.leaving = true

theorem notified_notify {c : Conn} (h : c.listening = true) : Notified c.notify := by
  intro _
  obtain ⟨hr,hw⟩ := Bool.and_eq_true_iff.mp h
  exact Bool.and_eq_true_iff.mpr ⟨Loop.leaving_notify hr,Loop.leaving_notify hw⟩

theorem notified_reader {c : Conn} {e : Event} {l : Loop} (h : Notified c) (he : c.reader.heeds e = true)
    (hl : c.reader.step e = some l) : Notified { c with reader := l } := by
  intro hpos
  obtain ⟨hr,hw⟩ := Bool.and_eq_true_iff.mp (h hpos)
  exact Bool.and_eq_true_iff.mpr ⟨Loop.leaving_step hr he hl,hw⟩

theorem notified_writer {c : Conn} {e : Event} {l : Loop} (h : Notified c) (he : c.writer.heeds e = true)
    (hl : c.writer.step e = some l) : Notified { c with writer := l } := by
  intro hpos
  obtain ⟨hr,hw⟩ := Bool.and_eq_true_iff.mp (h hpos)
  exact Bool.and_eq_true_iff.mpr ⟨hr,Loop.leaving_step hw he hl⟩

theorem evict_cases {s : Hub} {machine : String} {i : ℕ} {x : Conn}
    (h : (evict s machine)[i]? = some x) :
    ∃ c, s.conns[i]? = some c ∧ x = if s.agents.lookup machine = some i then c.notify else c := by
  unfold evict at h
  split at h
  next j hj =>
    rw [List.getElem?_modify] at h
    obtain ⟨c,hc,rfl⟩ := Option.map_eq_some_iff.mp h
    refine ⟨c,hc,?_⟩
    simp only [hj, Option.some.injEq]
  next hnone => exact ⟨x,h,by rw [hnone, if_neg nofun]⟩

theorem evict_notified {s : Hub} {k : ℕ} {c : Conn} (hs : ∀ x ∈ s.conns, Notified x)
    (hc : s.conns[k]? = some c) (hheard : (displaced s k).all Conn.listening = true) :
    ∀ x ∈ evict s c.machine, Notified x := by
  intro x hx
  obtain ⟨i,hi⟩ := List.mem_iff_getElem?.mp hx
  obtain ⟨d,hd,rfl⟩ := evict_cases hi
  split_ifs with hj
  · have hdisplaced : displaced s k = some d := by
      rw [displaced, hc, Option.bind_some, hj, Option.bind_some, hd]
    rw [hdisplaced] at hheard
    exact notified_notify hheard
  · exact hs d (List.mem_of_getElem? hd)

theorem notified_step (s : Hub) (a : Act) (t : Hub) (hs : ∀ x ∈ s.conns, Notified x)
    (hheard : Heard s a) (h : step s a = some t) : ∀ x ∈ t.conns, Notified x := by
  have hat : ∀ {k : ℕ} {c : Conn}, s.conns[k]? = some c → Notified c :=
    fun hc => hs _ (List.mem_of_getElem? hc)
  cases effect_of_step h with
  | accepted machine => exact forall_mem_concat hs fun hpos => absurd hpos (Nat.lt_irrefl 0)
  | moved a k c next hc hnext =>
    have hold := hat hc
    exact forall_mem_set hs hold
  | registered k c hc hhello =>
    have hold := hat hc
    exact forall_mem_set (evict_notified hs hc hheard) hold
  | read k e c l hc hl =>
    simp only [Heard, hc] at hheard
    exact forall_mem_set hs (notified_reader (hat hc) hheard hl)
  | wrote k e c l hc hl =>
    simp only [Heard, hc] at hheard
    exact forall_mem_set hs (notified_writer (hat hc) hheard hl)
  | unlisted k c hc hreading =>
    have hold := hat hc
    exact forall_mem_set hs hold
  | closed k c hc hcleared =>
    simp only [Heard, hc] at hheard
    exact forall_mem_set hs (notified_notify hheard)

/-- In every run where each notification finds the loops of its link in their waits, a link
that was notified has only loops that are out or leave at the next poll of their wait. -/
theorem notified_loops_leave (as : List Act) (s : Hub) (hheard : Along step Heard Hub.start as)
    (hrun : run step Hub.start as = some s) :
    ∀ c ∈ s.conns, 0 < c.notices →
      (c.reader.leaving = true ∧ ∀ l, c.reader.step .poll = some l → l = .left) ∧
      (c.writer.leaving = true ∧ ∀ l, c.writer.step .poll = some l → l = .left) := by
  intro c hc hpos
  have hstart : ∀ x ∈ Hub.start.conns, Notified x := List.forall_mem_nil _
  have hall : ∀ x ∈ s.conns, Notified x := run_along step notified_step hstart hheard hrun
  obtain ⟨hr,hw⟩ := Bool.and_eq_true_iff.mp (hall c hc hpos)
  exact ⟨⟨hr,fun _ => Loop.leaving_poll hr⟩,⟨hw,fun _ => Loop.leaving_poll hw⟩⟩

theorem writer_step {s : Hub} {k : ℕ} {c : Conn} {e : Event} {l : Loop} (hc : s.conns[k]? = some c)
    (hwriting : c.main.writing = true) (he : e ≠ .ended) (hl : c.writer.step e = some l) :
    step s (.writer k e) = some (setConn s k { c with writer := l }) := by
  show s.conns[k]?.bind _ = _
  rw [hc, Option.bind_some, connStep, if_pos ⟨hwriting,he⟩, hl]
  rfl

theorem run_writer {s : Hub} {k : ℕ} {c : Conn} {es : List Event} {l : Loop}
    (hc : s.conns[k]? = some c) (hwriting : c.main.writing = true) (hes : ∀ e ∈ es, e ≠ .ended)
    (hl : run Loop.step c.writer es = some l) :
    run step s (es.map (.writer k)) = some (setConn s k { c with writer := l }) := by
  have hlt := (List.getElem?_eq_some_iff.mp hc).1
  induction es generalizing s c with
  | nil =>
    cases hl
    obtain ⟨_,rfl⟩ := List.getElem?_eq_some_iff.mp hc
    rw [setConn, List.set_getElem_self]
    rfl
  | cons e es ih =>
    obtain ⟨he,hes⟩ := List.forall_mem_cons.mp hes
    obtain ⟨m,hm,hrest⟩ := (run_cons Loop.step).mp hl
    have hnext : (setConn s k { c with writer := m }).conns[k]? = some { c with writer := m } :=
      List.getElem?_set_self hlt
    have hlt' : k < (setConn s k { c with writer := m }).conns.length := by
      rw [setConn, List.length_set]
      exact hlt
    refine (run_cons step).mpr ⟨_,writer_step hc hwriting he hm,?_⟩
    rw [ih hnext hwriting hes hrest hlt']
    simp only [setConn, List.set_set]

/-- A writer that is not parked at its wait when it is notified, or takes a message ahead of the
notification, can come to a wait that is not woken. -/
theorem writer_misses {s : Hub} {k : ℕ} {c : Conn} (hc : s.conns[k]? = some c)
    (hwriting : c.main.writing = true) (hleft : c.writer ≠ .left)
    (harmed : ∀ woken, c.writer ≠ .armed woken) :
    ∃ as, run step s as = some (setConn s k { c with writer := .armed false }) := by
  obtain ⟨es,hes,hl⟩ := Loop.misses hleft harmed
  exact ⟨_,run_writer hc hwriting hes hl⟩

def waitingEviction : List Act :=
  [.accept "m",.register 0,.spawn 0,.writer 0 .arm,.writer 0 .poll,.writer 0 .park,.reader 0 .arm,
    .accept "m",.register 1]

theorem waiting_loops_leave : ∃ s c, run step Hub.start waitingEviction = some s ∧ c ∈ s.conns ∧
    0 < c.notices ∧
      (c.reader.leaving = true ∧ ∀ l, c.reader.step .poll = some l → l = .left) ∧
      (c.writer.leaving = true ∧ ∀ l, c.writer.step .poll = some l → l = .left) := by
  have hconns : (run step Hub.start waitingEviction).map Hub.conns =
      some [⟨"m",.reading,.armed true,.armed true,1⟩,⟨"m",.registered,.idle,.idle,0⟩] := by
    decide +kernel
  obtain ⟨s,hrun,hs⟩ := Option.map_eq_some_iff.mp hconns
  have hmem : (⟨"m",.reading,.armed true,.armed true,1⟩ : Conn) ∈ s.conns := by
    rw [hs]
    exact List.mem_cons_self
  have hheard : Along step Heard Hub.start waitingEviction := by decide +kernel
  exact ⟨s,_,hrun,hmem,Nat.one_pos,notified_loops_leave waitingEviction s hheard hrun _ hmem Nat.one_pos⟩

def busyClose : List Act :=
  [.accept "m",.register 0,.spawn 0,.writer 0 .arm,.writer 0 .poll,.writer 0 .take,.reader 0 .arm,
    .reader 0 .poll,.reader 0 .ended,.unlist 0,.clear 0,.close 0,.writer 0 .done,.writer 0 .arm]

/-- The writer was notified, and polling its wait changes nothing. -/
theorem busy_writer_waits_on :
    ∃ s c, run step Hub.start busyClose = some s ∧ c ∈ s.conns ∧ 0 < c.notices ∧
      c.writer.leaving = false ∧ run step s [.writer 0 .poll,.writer 0 .park] = some s := by
  have hconns : (run step Hub.start busyClose).map Hub.conns =
      some [⟨"m",.closing,.left,.armed false,1⟩] := by decide +kernel
  obtain ⟨s,hrun,hs⟩ := Option.map_eq_some_iff.mp hconns
  obtain ⟨conns,agents,registered⟩ := s
  cases hs
  exact ⟨_,_,hrun,List.mem_cons_self,Nat.one_pos,rfl,rfl⟩

end Notifications

section Newest

def newest (s : Hub) (machine : String) : Option ℕ := s.registered.lookup machine

def listedAt (s : Hub) (k : ℕ) : Bool := (s.conns[k]?).any fun c => c.main.listed

/-- Every registration is of a connection that is past its hello, and the map names the newest
link of a machine unless that is torn down. -/
structure Inv (s : Hub) : Prop where
  entered : ∀ e ∈ s.registered, ∃ c, s.conns[e.2]? = some c ∧ c.machine = e.1 ∧ c.main ≠ .hello
  newest : ∀ machine, s.agents.lookup machine = (newest s machine).filter (listedAt s)

theorem mem_of_newest {s : Hub} {machine : String} {k : ℕ} (h : newest s machine = some k) :
    (machine,k) ∈ s.registered := by
  obtain ⟨before,after,hsplit,-⟩ := List.lookup_eq_some_iff.mp h
  rw [hsplit]
  exact List.mem_append_right _ List.mem_cons_self

def Same (s t : Hub) : Prop :=
  ∀ (k : ℕ) (c : Conn), s.conns[k]? = some c → c.main ≠ .hello →
    ∃ d : Conn, t.conns[k]? = some d ∧ d.machine = c.machine ∧ d.main ≠ .hello ∧
      d.main.listed = c.main.listed

theorem filter_newest {s t : Hub} {machine : String} (hnewest : newest t machine = newest s machine)
    (hlisted : ∀ k, newest s machine = some k → listedAt t k = listedAt s k) :
    (newest t machine).filter (listedAt t) = (newest s machine).filter (listedAt s) := by
  rw [hnewest]
  cases hk : newest s machine with
  | none => rfl
  | some k => rw [Option.filter_some, Option.filter_some, hlisted k hk]

theorem inv_same {s t : Hub} (hs : Inv s) (hsame : Same s t) (hagents : t.agents = s.agents)
    (hregistered : t.registered = s.registered) : Inv t := by
  constructor
  · intro e he
    rw [hregistered] at he
    obtain ⟨c,hc,hmachine,hmain⟩ := hs.entered e he
    obtain ⟨d,hd,hdm,hdmain,-⟩ := hsame e.2 c hc hmain
    exact ⟨d,hd,hdm.trans hmachine,hdmain⟩
  · intro machine
    rw [hagents, hs.newest]
    symm
    apply filter_newest
    · rw [newest, newest, hregistered]
    · intro k hk
      obtain ⟨c,hc,-,hmain⟩ := hs.entered _ (mem_of_newest hk)
      obtain ⟨d,hd,-,-,hlisted⟩ := hsame k c hc hmain
      rw [listedAt, listedAt, hd, hc]
      exact hlisted

theorem same_set {s : Hub} {k : ℕ} {c d : Conn} (hc : s.conns[k]? = some c)
    (hd : c.main ≠ .hello → d.machine = c.machine ∧ d.main ≠ .hello ∧
      d.main.listed = c.main.listed) :
    Same s (setConn s k d) := by
  intro j x hx hmain
  by_cases hj : k = j
  · rw [← hj, hc] at hx
    cases hx
    refine ⟨d,?_,hd hmain⟩
    rw [← hj]
    exact List.getElem?_set_self (List.getElem?_eq_some_iff.mp hc).1
  · exact ⟨x,by rw [setConn, List.getElem?_set_ne hj, hx],rfl,hmain,rfl⟩

theorem evict_at {s : Hub} (machine : String) {k : ℕ} {c : Conn} (hc : s.conns[k]? = some c) :
    (evict s machine)[k]? = some (if s.agents.lookup machine = some k then c.notify else c) := by
  unfold evict
  split
  next j hj => simp only [List.getElem?_modify, hc, hj, Option.some.injEq, Option.map_eq_map, Option.map_some]
  next hnone => rw [hc, hnone, if_neg nofun]

theorem notify_frame (c : Conn) (b : Prop) [Decidable b] :
    (if b then c.notify else c).machine = c.machine ∧ (if b then c.notify else c).main = c.main := by
  split_ifs <;> exact ⟨rfl,rfl⟩

theorem register_at {s : Hub} {k j : ℕ} {c d : Conn} (hd : s.conns[j]? = some d) (hj : k ≠ j) :
    (register s k c).conns[j]? =
      some (if s.agents.lookup c.machine = some j then d.notify else d) := by
  show ((evict s c.machine).set k _)[j]? = _
  rw [List.getElem?_set_ne hj, evict_at c.machine hd]

theorem register_self {s : Hub} {k : ℕ} {c : Conn} (hc : s.conns[k]? = some c) :
    (register s k c).conns[k]? = some { c with main := .registered } :=
  List.getElem?_set_self (List.getElem?_eq_some_iff.mp (evict_at c.machine hc)).1

theorem inv_register {s : Hub} {k : ℕ} {c : Conn} (hs : Inv s) (hc : s.conns[k]? = some c)
    (hhello : c.main = .hello) : Inv (register s k c) := by
  have hother : ∀ (e : String × ℕ) (d : Conn), e ∈ s.registered → s.conns[e.2]? = some d → k ≠ e.2 := by
    rintro e d he hd rfl
    obtain ⟨d',hd',-,hmain⟩ := hs.entered e he
    rw [hc] at hd'
    cases hd'
    exact hmain hhello
  constructor
  · intro e he
    rcases List.mem_cons.mp he with rfl | he
    · exact ⟨_,register_self hc,rfl,nofun⟩
    · obtain ⟨d,hd,hmachine,hmain⟩ := hs.entered e he
      obtain ⟨hm,hmm⟩ := notify_frame d (s.agents.lookup c.machine = some e.2)
      refine ⟨_,register_at hd (hother e d he hd),hm.trans hmachine,?_⟩
      rw [hmm]
      exact hmain
  · intro machine
    show (s.agents.insert c.machine k).lookup machine =
      (((c.machine,k)::s.registered).lookup machine).filter (listedAt (register s k c))
    by_cases hsame : machine = c.machine
    · have hlisted : listedAt (register s k c) k = true := by
        rw [listedAt, register_self hc]
        rfl
      rw [hsame, AList.lookup_insert, List.lookup_cons_self, Option.filter_some, hlisted]
      rfl
    · rw [AList.lookup_insert_ne hsame, hs.newest]
      symm
      apply filter_newest (t := register s k c)
      · show ((c.machine,k)::s.registered).lookup machine = _
        rw [List.lookup_cons, beq_eq_false_iff_ne.mpr hsame]
        rfl
      · intro j hj
        obtain ⟨d,hd,-,-⟩ := hs.entered _ (mem_of_newest hj)
        have hne := hother _ d (mem_of_newest hj) hd
        rw [listedAt, listedAt, register_at hd hne, hd]
        simp only [Option.any_some, (notify_frame d _).2]

theorem unlist_self {s : Hub} {k : ℕ} {c : Conn} (hc : s.conns[k]? = some c) :
    (unlist s k c).conns[k]? = some { c with main := .unlisted } :=
  List.getElem?_set_self (List.getElem?_eq_some_iff.mp hc).1

theorem listedAt_unlist {s : Hub} {k : ℕ} {c : Conn} (hc : s.conns[k]? = some c) :
    listedAt (unlist s k c) k = false := by
  rw [listedAt, unlist_self hc]
  rfl

theorem inv_unlist {s : Hub} {k : ℕ} {c : Conn} (hs : Inv s) (hc : s.conns[k]? = some c)
    (hreading : c.main = .reading) : Inv (unlist s k c) := by
  have hother : ∀ j, k ≠ j → (unlist s k c).conns[j]? = s.conns[j]? :=
    fun j hj => List.getElem?_set_ne hj
  have hlisted : listedAt s k = true := by
    rw [listedAt, hc]
    simp [hreading, Main.listed]
  constructor
  · intro e he
    obtain ⟨d,hd,hmachine,hmain⟩ := hs.entered e he
    by_cases hk : k = e.2
    · rw [← hk, hc] at hd
      cases hd
      exact ⟨{ c with main := .unlisted },by rw [← hk]; exact unlist_self hc,hmachine,by simp⟩
    · exact ⟨d,(hother e.2 hk).trans hd,hmachine,hmain⟩
  · intro machine
    by_cases hk : newest s machine = some k
    · obtain ⟨d,hd,hmachine,-⟩ := hs.entered _ (mem_of_newest hk)
      rw [hc] at hd
      cases hd
      replace hmachine : c.machine = machine := hmachine
      have hnow : s.agents.lookup c.machine = some k := by
        rw [hmachine, hs.newest, hk, Option.filter_some, hlisted]
        rfl
      show (if s.agents.lookup c.machine = some k then _ else _ : AList fun _ : String => ℕ).lookup machine =
        (newest s machine).filter _
      rw [if_pos hnow, ← hmachine, AList.lookup_erase, hmachine, hk, Option.filter_some,
        listedAt_unlist hc]
      rfl
    · have hsame : (unlist s k c).agents.lookup machine = s.agents.lookup machine := by
        show (if s.agents.lookup c.machine = some k then _ else _ : AList fun _ : String => ℕ).lookup machine = _
        split_ifs with hcur
        · rw [hs.newest, Option.filter_eq_some_iff] at hcur
          exact AList.lookup_erase_ne fun heq => hk (heq ▸ hcur.1)
        · rfl
      rw [hsame, hs.newest]
      symm
      refine filter_newest rfl ?_
      intro j hj
      rw [listedAt, listedAt, hother j fun heq => hk (heq ▸ hj)]

theorem inv_step (s : Hub) (a : Act) (t : Hub) (hs : Inv s) (h : step s a = some t) : Inv t := by
  cases effect_of_step h with
  | accepted machine =>
    refine inv_same hs ?_ rfl rfl
    intro k c hc hmain
    exact ⟨c,List.getElem?_append_left (List.getElem?_eq_some_iff.mp hc).1 ▸ hc,rfl,hmain,rfl⟩
  | moved a k c next hc hnext =>
    exact inv_same hs (same_set hc fun hmain => ⟨rfl,hnext hmain⟩) rfl rfl
  | registered k c hc hhello => exact inv_register hs hc hhello
  | read k e c l hc hl
  | wrote k e c l hc hl => exact inv_same hs (same_set hc fun hmain => ⟨rfl,hmain,rfl⟩) rfl rfl
  | unlisted k c hc hreading => exact inv_unlist hs hc hreading
  | closed k c hc hcleared =>
    exact inv_same hs (same_set hc fun _ => ⟨rfl,by simp,by rw [hcleared]; rfl⟩) rfl rfl

theorem unlist_cases {s t : Hub} {k : ℕ} (h : step s (.unlist k) = some t) :
    ∃ c, s.conns[k]? = some c ∧ t = unlist s k c := by
  obtain ⟨c,hc,h⟩ := Option.bind_eq_some_iff.mp h
  simp only [connStep, Option.ite_none_right_eq_some, Option.some.injEq] at h
  exact ⟨c,hc,h.2.symm⟩

theorem unlist_other {s t : Hub} {j k : ℕ} {machine : String} (h : step s (.unlist k) = some t)
    (hj : s.agents.lookup machine = some j) (hne : j ≠ k) : t.agents.lookup machine = some j := by
  obtain ⟨c,hc,rfl⟩ := unlist_cases h
  show (if s.agents.lookup c.machine = some k then _ else _ : AList fun _ : String => ℕ).lookup machine = _
  split_ifs with hcur
  · rw [AList.lookup_erase_ne, hj]
    rintro rfl
    exact hne (Option.some.inj (hj.symm.trans hcur))
  · exact hj

theorem register_notices {s t : Hub} {j k : ℕ} {c d : Conn} (h : step s (.register k) = some t)
    (hc : s.conns[k]? = some c) (hd : s.conns[j]? = some d) (hs : Inv s) :
    ∃ x, t.conns[j]? = some x ∧
      x.notices = d.notices+if s.agents.lookup c.machine = some j then 1 else 0 := by
  obtain ⟨c',hc',h⟩ := Option.bind_eq_some_iff.mp h
  cases hc.symm.trans hc'
  simp only [connStep, Option.ite_none_right_eq_some, Option.some.injEq] at h
  obtain ⟨hhello,rfl⟩ := h
  by_cases hj : k = j
  · cases hj
    cases hc.symm.trans hd
    have hnot : s.agents.lookup c.machine ≠ some j := by
      intro hcur
      rw [hs.newest, Option.filter_eq_some_iff] at hcur
      obtain ⟨x,hx,-,hmain⟩ := hs.entered _ (mem_of_newest hcur.1)
      cases hc.symm.trans hx
      exact hmain hhello
    exact ⟨_,register_self hc,by rw [if_neg hnot]; rfl⟩
  · refine ⟨_,register_at hd hj,?_⟩
    split_ifs <;> rfl

/-- A teardown takes its own link out of the map, under every machine. -/
theorem unlist_gone {s t : Hub} {k : ℕ} (h : step s (.unlist k) = some t) (hs : Inv s) :
    listedAt t k = false ∧ ∀ machine, t.agents.lookup machine ≠ some k := by
  have hnewest := (inv_step s (.unlist k) t hs h).newest
  obtain ⟨c,hc,rfl⟩ := unlist_cases h
  have hgone := listedAt_unlist hc
  refine ⟨hgone,fun machine hlookup => ?_⟩
  rw [hnewest, Option.filter_eq_some_iff] at hlookup
  exact Bool.false_ne_true (hgone.symm.trans hlookup.2)

/-- In every state reached the map names, for each machine, the link that registered last unless
that is torn down. Tearing a link down takes it out and leaves the entries of others, and
registering one notifies exactly the link it displaces. -/
theorem agents_newest (as : List Act) (s : Hub) (hrun : run step Hub.start as = some s) :
    (∀ machine, s.agents.lookup machine = (newest s machine).filter (listedAt s)) ∧
    (∀ k t, step s (.unlist k) = some t →
      listedAt t k = false ∧ ∀ machine, t.agents.lookup machine ≠ some k) ∧
    (∀ k t machine j, step s (.unlist k) = some t → s.agents.lookup machine = some j → j ≠ k →
      t.agents.lookup machine = some j) ∧
    ∀ k t, step s (.register k) = some t → ∃ c, s.conns[k]? = some c ∧
      t.agents.lookup c.machine = some k ∧
      ∀ (j : ℕ) (d : Conn), s.conns[j]? = some d → ∃ x, t.conns[j]? = some x ∧
        x.notices = d.notices+if s.agents.lookup c.machine = some j then 1 else 0 := by
  have hstart : Inv Hub.start := ⟨List.forall_mem_nil _,fun _ => rfl⟩
  have hs : Inv s := run_invariant step inv_step hstart hrun
  refine ⟨hs.newest,fun k t h => unlist_gone h hs,
    fun k t machine j h hj hne => unlist_other h hj hne,?_⟩
  intro k t h
  obtain ⟨c,hc,hstep⟩ := Option.bind_eq_some_iff.mp h
  refine ⟨c,hc,?_,fun j d hd => register_notices h hc hd hs⟩
  simp only [connStep, Option.ite_none_right_eq_some, Option.some.injEq] at hstep
  rw [← hstep.2]
  exact AList.lookup_insert _

def reconnect : List Act :=
  [.accept "m",.register 0,.spawn 0,.accept "m",.register 1,.reader 0 .arm,.reader 0 .poll,
    .reader 0 .ended,.unlist 0]

theorem reconnect_newest : ∃ s, run step Hub.start reconnect = some s ∧
    s.agents.lookup "m" = (newest s "m").filter (listedAt s) := by
  have hsome : (run step Hub.start reconnect).isSome = true := by decide +kernel
  obtain ⟨s,hs⟩ := Option.isSome_iff_exists.mp hsome
  exact ⟨s,hs,(agents_newest reconnect s hs).1 "m"⟩

end Newest

end Term.LinkRegistry
