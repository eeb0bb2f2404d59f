import TermMux.ByteOrder
import TermMux.Machine

/-!
# A file rewritten under an advisory lock

Parties load a file, compute what to save from what they loaded, write it to a
temporary file and rename that over the file, each inside one exclusive lock.
Readers load the file without the lock. A directory entry points to an inode,
and an open file stays on its inode when the entry is replaced; a load is the
opening and a later read. A party may fail or be killed at any point, which
releases its lock and leaves its temporary file behind.

The file always holds the outcome of the completed operations, run one after
another in the order of the lock, and no load meets a file that is being
written.
-/

set_option autoImplicit false

namespace Term.LockedFile
open Term.ByteOrder Term.Machine

structure Codec (Store : Type) where
  encode : Store → Bytes
  decode : Bytes → Option Store
  /-- What a missing file stands for. -/
  missing : Store

structure Disk where
  /-- File contents by inode. -/
  inodes : List Bytes
  /-- The directory entry of the file. -/
  file : Option ℕ
  /-- The directory entry of the temporary file. -/
  tmp : Option ℕ
  deriving DecidableEq, Repr

inductive Phase (Store : Type) where
  | waiting
  | locked
  | opened (file : Option ℕ)
  | saving (store : Store)
  | writing (store : Store) (inode : ℕ) (rest : Bytes)
  /-- The rename is done, or there was nothing to save. -/
  | committed
  | failed
  | ended (completed : Bool)
  deriving DecidableEq, Repr

structure Party (Store Op : Type) where
  op : Op
  phase : Phase Store
  deriving DecidableEq, Repr

structure World (Store Op : Type) where
  disk : Disk
  holder : Option ℕ
  parties : List (Party Store Op)
  /-- The parties in the order in which they were given the lock. -/
  granted : List ℕ
  /-- Files that readers have opened. -/
  handles : List (Option ℕ)
  /-- What every load so far has returned. -/
  loads : List (Option Store)
  /-- Every store that a rename has put in place. -/
  saves : List Store
  deriving DecidableEq, Repr

inductive Move where
  | lock
  | openFile
  | readFile
  | openTmp
  | write (n : ℕ)
  | rename
  /-- Return or death; either way the lock is released. -/
  | finish
  deriving DecidableEq, Repr

inductive Act (Op : Type) where
  | spawn (op : Op)
  | move (i : ℕ) (m : Move)
  | openFile
  | readFile (file : Option ℕ)
  deriving DecidableEq, Repr

def Disk.load {Store : Type} (codec : Codec Store) (d : Disk) : Option ℕ → Option Store
  | none => some codec.missing
  | some f => d.inodes[f]?.bind codec.decode

/-- `open` with `create` and `truncate`. -/
def Disk.openTmp (d : Disk) : Disk × ℕ :=
  match d.tmp with
  | some f => ({ d with inodes := d.inodes.set f [] },f)
  | none =>
    ({ d with inodes := d.inodes++[[]], tmp := some d.inodes.length },d.inodes.length)

def Disk.append (d : Disk) (f : ℕ) (bytes : Bytes) : Disk :=
  { d with inodes := d.inodes.modify f (·++bytes) }

def Disk.rename (d : Disk) : Option Disk :=
  match d.tmp with
  | some f => some { d with file := some f, tmp := none }
  | none => none

def Disk.ofContents : Option Bytes → Option Bytes → Disk
  | none, none => ⟨[],none,none⟩
  | some body, none => ⟨[body],some 0,none⟩
  | none, some stale => ⟨[stale],none,some 0⟩
  | some body, some stale => ⟨[body,stale],some 0,some 1⟩

def Phase.holds {Store : Type} : Phase Store → Bool
  | .waiting | .ended _ => false
  | _ => true

def Phase.isCommitted {Store : Type} : Phase Store → Bool
  | .committed => true
  | _ => false

section Steps
variable {Store Op : Type} (codec : Codec Store) (save : Op → Store → Option Store)

def World.start (disk : Disk) : World Store Op := ⟨disk,none,[],[],[],[],[]⟩

def World.setPhase (w : World Store Op) (i : ℕ) (p : Party Store Op) (phase : Phase Store) :
    World Store Op :=
  { w with parties := w.parties.set i { p with phase := phase } }

def afterLoad (op : Op) : Option Store → Phase Store
  | none => .failed
  | some s =>
    match save op s with
    | some t => .saving t
    | none => .committed

def move (w : World Store Op) (i : ℕ) (p : Party Store Op) (m : Move) : Option (World Store Op) :=
  match m, p.phase with
  | .lock, .waiting =>
    if w.holder = none then
      some { w.setPhase i p .locked with holder := some i, granted := w.granted++[i] }
    else none
  | .openFile, .locked => some (w.setPhase i p (.opened w.disk.file))
  | .readFile, .opened h =>
    some { w.setPhase i p (afterLoad save p.op (w.disk.load codec h)) with
      loads := w.disk.load codec h::w.loads }
  | .openTmp, .saving s =>
    some { w.setPhase i p (.writing s w.disk.openTmp.2 (codec.encode s)) with
      disk := w.disk.openTmp.1 }
  | .write n, .writing s f rest =>
    some { w.setPhase i p (.writing s f (rest.drop n)) with disk := w.disk.append f (rest.take n) }
  | .rename, .writing s _ [] =>
    w.disk.rename.map fun d =>
      { w.setPhase i p .committed with disk := d, saves := s::w.saves }
  | .finish, .ended _ => none
  | .finish, phase =>
    some { w.setPhase i p (.ended phase.isCommitted) with
      holder := if w.holder = some i then none else w.holder }
  | _, _ => none

def step (w : World Store Op) : Act Op → Option (World Store Op)
  | .spawn op => some { w with parties := w.parties++[⟨op,.waiting⟩] }
  | .move i m => w.parties[i]?.bind fun p => move codec save w i p m
  | .openFile => some { w with handles := w.disk.file::w.handles }
  | .readFile h =>
    if h ∈ w.handles then
      some { w with handles := w.handles.erase h, loads := w.disk.load codec h::w.loads }
    else none

def apply (op : Op) (s : Store) : Store := (save op s).getD s

def Party.completed (p : Party Store Op) : Option Op :=
  match p.phase with
  | .committed | .ended true => some p.op
  | _ => none

def World.completedOps (w : World Store Op) : List Op :=
  w.granted.filterMap fun i => w.parties[i]?.bind Party.completed

def serial (init : Store) (ops : List Op) : Store := ops.foldl (fun s op => apply save op s) init

end Steps

section Invariant
variable {Store Op : Type} (codec : Codec Store) (save : Op → Store → Option Store) (init : Store)

structure LockOk (w : World Store Op) : Prop where
  exclusive : ∀ i p, w.parties[i]? = some p → p.phase.holds → w.holder = some i
  last : ∀ i, w.holder = some i → ∃ before, w.granted = before++[i] ∧ i ∉ before
  once : ∀ i p, w.parties[i]? = some p → p.phase = .waiting → i ∉ w.granted
  spawned : ∀ i ∈ w.granted, i < w.parties.length

def View (w : World Store Op) (p : Party Store Op) : Prop :=
  match p.phase with
  | .opened h => h = w.disk.file
  | .saving s => save p.op (serial save init w.completedOps) = some s
  | .writing s f rest => save p.op (serial save init w.completedOps) = some s ∧
      w.disk.tmp = some f ∧ ∃ done, w.disk.inodes[f]? = some done ∧ done++rest = codec.encode s
  | _ => True

def Known (w : World Store Op) (s : Store) : Prop := s = init ∨ s ∈ w.saves

def Steady (w : World Store Op) (h : Option ℕ) : Prop :=
  (∃ s, w.disk.load codec h = some s ∧ Known init w s) ∧ ∀ f, h = some f → w.disk.tmp ≠ some f

structure FilesOk (w : World Store Op) : Prop where
  onDisk : w.disk.load codec w.disk.file = some (serial save init w.completedOps)
  view : ∀ p ∈ w.parties, View codec save init w p
  steady : ∀ h ∈ w.disk.file::w.handles, Steady codec init w h
  tmpValid : ∀ f, w.disk.tmp = some f → f < w.disk.inodes.length
  loaded : ∀ r ∈ w.loads, ∃ s, r = some s ∧ Known init w s

end Invariant

section Moves
variable {Store Op : Type} {codec : Codec Store} {save : Op → Store → Option Store}
  {w v : World Store Op} {i : ℕ} {p : Party Store Op} {m : Move}

/-- Everything a party can do, with the phase it does it in. -/
theorem move_cases (h : move codec save w i p m = some v) :
    (p.phase = .waiting ∧ w.holder = none ∧
      v = { w.setPhase i p .locked with holder := some i, granted := w.granted++[i] }) ∨
    (p.phase = .locked ∧ v = w.setPhase i p (.opened w.disk.file)) ∨
    (∃ f, p.phase = .opened f ∧
      v = { w.setPhase i p (afterLoad save p.op (w.disk.load codec f)) with
        loads := w.disk.load codec f::w.loads }) ∨
    (∃ s, p.phase = .saving s ∧
      v = { w.setPhase i p (.writing s w.disk.openTmp.2 (codec.encode s)) with
        disk := w.disk.openTmp.1 }) ∨
    (∃ s f rest n, p.phase = .writing s f rest ∧
      v = { w.setPhase i p (.writing s f (rest.drop n)) with
        disk := w.disk.append f (rest.take n) }) ∨
    (∃ s f d, p.phase = .writing s f [] ∧ w.disk.rename = some d ∧
      v = { w.setPhase i p .committed with disk := d, saves := s::w.saves }) ∨
    ((∀ b, p.phase ≠ .ended b) ∧
      v = { w.setPhase i p (.ended p.phase.isCommitted) with
        holder := if w.holder = some i then none else w.holder }) := by
  unfold move at h
  split at h
  · rename_i hphase
    split_ifs at h with hfree
    cases h
    exact .inl ⟨hphase,hfree,rfl⟩
  · rename_i hphase
    cases h
    exact .inr (.inl ⟨hphase,rfl⟩)
  · rename_i f hphase
    cases h
    exact .inr (.inr (.inl ⟨f,hphase,rfl⟩))
  · rename_i s hphase
    cases h
    exact .inr (.inr (.inr (.inl ⟨s,hphase,rfl⟩)))
  · rename_i n s f rest hphase
    cases h
    exact .inr (.inr (.inr (.inr (.inl ⟨s,f,rest,n,hphase,rfl⟩))))
  · rename_i s f hphase
    obtain ⟨d,hd,rfl⟩ := Option.map_eq_some_iff.mp h
    exact .inr (.inr (.inr (.inr (.inr (.inl ⟨s,f,d,hphase,hd,rfl⟩)))))
  · cases h
  · rename_i hphase
    cases h
    exact .inr (.inr (.inr (.inr (.inr (.inr ⟨hphase,rfl⟩)))))
  · cases h

theorem lockOk_setPhase {phase : Phase Store} (hw : LockOk w) (hp : w.parties[i]? = some p)
    (hold : p.phase.holds) (hphase : phase ≠ .waiting) : LockOk (w.setPhase i p phase) where
  exclusive := by
    intro j q hq hholds
    rcases getElem?_set_cases hq with ⟨rfl,-⟩ | ⟨-,hq⟩
    · exact hw.exclusive _ p hp hold
    · exact hw.exclusive j q hq hholds
  last := hw.last
  once := by
    intro j q hq hwait
    rcases getElem?_set_cases hq with ⟨-,rfl⟩ | ⟨-,hq⟩
    · exact absurd hwait hphase
    · exact hw.once j q hq hwait
  spawned := by
    intro j hj
    rw [World.setPhase, List.length_set]
    exact hw.spawned j hj

theorem afterLoad_ne_waiting (save : Op → Store → Option Store) (op : Op) (r : Option Store) :
    afterLoad save op r ≠ .waiting := by
  unfold afterLoad
  split
  · simp
  · split <;> simp

theorem lockOk_lock (hw : LockOk w) (hp : w.parties[i]? = some p) (hwait : p.phase = .waiting)
    (hfree : w.holder = none) :
    LockOk { w.setPhase i p .locked with holder := some i, granted := w.granted++[i] } where
  exclusive := by
    intro j q hq hholds
    rcases getElem?_set_cases hq with ⟨rfl,-⟩ | ⟨-,hq⟩
    · rfl
    · rw [hw.exclusive j q hq hholds] at hfree
      cases hfree
  last := by
    intro j hj
    cases hj
    exact ⟨w.granted,rfl,hw.once i p hp hwait⟩
  once := by
    intro j q hq hphase
    rcases getElem?_set_cases hq with ⟨-,rfl⟩ | ⟨hne,hq⟩
    · cases hphase
    · intro hj
      rcases List.mem_append.mp hj with hj | hj
      · exact hw.once j q hq hphase hj
      · exact hne (List.mem_singleton.mp hj)
  spawned := by
    intro j hj
    rw [World.setPhase, List.length_set]
    rcases List.mem_append.mp hj with hj | hj
    · exact hw.spawned j hj
    · rw [List.mem_singleton.mp hj]
      exact (List.getElem?_eq_some_iff.mp hp).1

theorem lockOk_finish {b : Bool} (hw : LockOk w) :
    LockOk { w.setPhase i p (.ended b) with
      holder := if w.holder = some i then none else w.holder } where
  exclusive := by
    intro j q hq hholds
    rcases getElem?_set_cases hq with ⟨-,rfl⟩ | ⟨hne,hq⟩
    · cases hholds
    · have hj := hw.exclusive j q hq hholds
      rw [hj]
      exact if_neg fun heq => hne (Option.some.inj heq)
  last := by
    intro j hj
    split_ifs at hj
    exact hw.last j hj
  once := by
    intro j q hq hwait
    rcases getElem?_set_cases hq with ⟨-,rfl⟩ | ⟨-,hq⟩
    · cases hwait
    · exact hw.once j q hq hwait
  spawned := by
    intro j hj
    rw [World.setPhase, List.length_set]
    exact hw.spawned j hj

theorem lockOk_move (hw : LockOk w) (hp : w.parties[i]? = some p)
    (h : move codec save w i p m = some v) : LockOk v := by
  have hset : ∀ phase, p.phase.holds → phase ≠ .waiting → LockOk (w.setPhase i p phase) :=
    fun _ hold hphase => lockOk_setPhase hw hp hold hphase
  rcases move_cases h with ⟨hphase,hfree,rfl⟩ | ⟨hphase,rfl⟩ | ⟨f,hphase,rfl⟩ | ⟨s,hphase,rfl⟩ |
    ⟨s,f,rest,n,hphase,rfl⟩ | ⟨s,f,d,hphase,-,rfl⟩ | ⟨-,rfl⟩
  · exact lockOk_lock hw hp hphase hfree
  · exact hset _ (by rw [hphase]; rfl) (by simp)
  · have ok := hset _ (by rw [hphase]; rfl)
      (afterLoad_ne_waiting save p.op (w.disk.load codec f))
    exact ⟨ok.exclusive,ok.last,ok.once,ok.spawned⟩
  · have ok := hset (.writing s w.disk.openTmp.2 (codec.encode s)) (by rw [hphase]; rfl) (by simp)
    exact ⟨ok.exclusive,ok.last,ok.once,ok.spawned⟩
  · have ok := hset (.writing s f (rest.drop n)) (by rw [hphase]; rfl) (by simp)
    exact ⟨ok.exclusive,ok.last,ok.once,ok.spawned⟩
  · have ok := hset .committed (by rw [hphase]; rfl) (by simp)
    exact ⟨ok.exclusive,ok.last,ok.once,ok.spawned⟩
  · exact lockOk_finish hw

theorem lockOk_step {a : Act Op} (hw : LockOk w) (h : step codec save w a = some v) :
    LockOk v := by
  cases a with
  | spawn op =>
    cases h
    refine ⟨?_,hw.last,?_,?_⟩
    · intro j q hq hholds
      rcases getElem?_concat_cases hq with hq | ⟨-,rfl⟩
      · exact hw.exclusive j q hq hholds
      · cases hholds
    · intro j q hq hwait
      rcases getElem?_concat_cases hq with hq | ⟨rfl,-⟩
      · exact hw.once j q hq hwait
      · exact fun hj => absurd (hw.spawned _ hj) (lt_irrefl _)
    · intro j hj
      rw [List.length_append]
      exact Nat.lt_add_right _ (hw.spawned j hj)
  | move i m =>
    obtain ⟨p,hp,hmove⟩ := Option.bind_eq_some_iff.mp h
    exact lockOk_move hw hp hmove
  | openFile =>
    cases h
    exact ⟨hw.exclusive,hw.last,hw.once,hw.spawned⟩
  | readFile f =>
    simp only [step] at h
    split_ifs at h
    cases h
    exact ⟨hw.exclusive,hw.last,hw.once,hw.spawned⟩

theorem lockOk_start (disk : Disk) : LockOk (World.start disk : World Store Op) := by
  constructor <;> simp [World.start]

end Moves

section Completed
variable {Store Op : Type} {w : World Store Op} {i : ℕ} {p : Party Store Op}

theorem completedOps_setPhase (phase : Phase Store) (hp : w.parties[i]? = some p)
    (hsame : Party.completed { p with phase := phase } = p.completed) :
    (w.setPhase i p phase).completedOps = w.completedOps := by
  refine List.filterMap_congr fun j _ => ?_
  change (w.parties.set i { p with phase := phase })[j]?.bind _ = _
  by_cases hij : i = j
  · subst hij
    rw [List.getElem?_set_self (List.getElem?_eq_some_iff.mp hp).1, hp]
    exact hsame
  · rw [List.getElem?_set_ne hij]

theorem completed_eq_none (hphase : p.phase ≠ .committed) (hended : ∀ b, p.phase ≠ .ended b) :
    p.completed = none := by
  unfold Party.completed
  split
  · exact absurd ‹_› hphase
  · exact absurd ‹_› (hended true)
  · rfl

theorem completedOps_lock (hp : w.parties[i]? = some p) (hwait : p.phase = .waiting) :
    ({ w.setPhase i p .locked with holder := some i, granted := w.granted++[i] }
      : World Store Op).completedOps = w.completedOps := by
  have hsame : (w.setPhase i p .locked).completedOps = w.completedOps :=
    completedOps_setPhase _ hp (by rw [Party.completed, Party.completed, hwait])
  have hlast : [i].filterMap
      (fun j => (w.setPhase i p .locked).parties[j]?.bind Party.completed) = [] := by
    simp only [World.setPhase, List.filterMap_cons, List.filterMap_nil,
      List.getElem?_set_self (List.getElem?_eq_some_iff.mp hp).1]
    rfl
  rw [← hsame]
  change (w.granted++[i]).filterMap (fun j => (w.setPhase i p .locked).parties[j]?.bind _) = _
  rw [List.filterMap_append, hlast, List.append_nil]
  rfl

theorem completedOps_commit {phase : Phase Store} {op : Op} (hw : LockOk w)
    (hp : w.parties[i]? = some p) (hold : p.phase.holds) (hnot : p.completed = none)
    (hdone : Party.completed { p with phase := phase } = some op) :
    (w.setPhase i p phase).completedOps = w.completedOps++[op] := by
  obtain ⟨before,hgranted,hnew⟩ := hw.last i (hw.exclusive i p hp hold)
  change w.granted.filterMap _ = w.granted.filterMap _++[op]
  rw [hgranted, List.filterMap_append, List.filterMap_append]
  have hbefore : before.filterMap
      (fun j => (w.setPhase i p phase).parties[j]?.bind Party.completed) =
      before.filterMap fun j => w.parties[j]?.bind Party.completed := by
    refine List.filterMap_congr fun j hj => ?_
    have hij : i ≠ j := fun h => hnew (h ▸ hj)
    rw [World.setPhase, List.getElem?_set_ne hij]
  have hlast : [i].filterMap (fun j => w.parties[j]?.bind Party.completed) = [] := by
    simp only [List.filterMap_cons, List.filterMap_nil, hp, Option.bind_some, hnot]
  rw [hbefore, hlast, List.append_nil, List.append_cancel_left_eq]
  simp only [World.setPhase, List.filterMap_cons, List.filterMap_nil,
    List.getElem?_set_self (List.getElem?_eq_some_iff.mp hp).1, Option.bind_some, hdone]

theorem completedOps_finish (hp : w.parties[i]? = some p) (hphase : ∀ b, p.phase ≠ .ended b) :
    (w.setPhase i p (.ended p.phase.isCommitted)).completedOps = w.completedOps := by
  refine completedOps_setPhase _ hp ?_
  unfold Party.completed
  cases hcase : p.phase <;> simp_all [Phase.isCommitted]

theorem completedOps_spawn (hw : LockOk w) (q : Party Store Op) :
    ({ w with parties := w.parties++[q] } : World Store Op).completedOps = w.completedOps := by
  refine List.filterMap_congr fun j hj => ?_
  rw [List.getElem?_append_left (hw.spawned j hj)]

end Completed

section Files
variable {d e : Disk}

def Disk.Extends (d e : Disk) : Prop :=
  (∀ f, f < d.inodes.length → d.tmp ≠ some f → e.inodes[f]? = d.inodes[f]?) ∧
  (∀ f, e.tmp = some f → d.tmp = some f ∨ d.inodes.length ≤ f)

theorem extends_refl (d : Disk) : d.Extends d := ⟨fun _ _ _ => rfl,fun _ h => .inl h⟩

theorem openTmp_extends (d : Disk) : d.Extends d.openTmp.1 := by
  unfold Disk.openTmp
  split
  · rename_i g hg
    refine ⟨fun f _ hne => ?_,fun f hf => .inl hf⟩
    have hgf : g ≠ f := by
      rintro rfl
      exact hne hg
    exact List.getElem?_set_ne hgf
  · refine ⟨fun f hlt _ => List.getElem?_append_left hlt,fun f hf => .inr ?_⟩
    exact (Option.some.inj hf).le

theorem openTmp_tmp (d : Disk) : d.openTmp.1.tmp = some d.openTmp.2 := by
  unfold Disk.openTmp
  split
  · assumption
  · rfl

theorem openTmp_empty (hvalid : ∀ f, d.tmp = some f → f < d.inodes.length) :
    d.openTmp.1.inodes[d.openTmp.2]? = some [] := by
  unfold Disk.openTmp
  split
  · rename_i g hg
    exact List.getElem?_set_self (hvalid g hg)
  · exact List.getElem?_concat_length

theorem append_extends {f : ℕ} (bytes : Bytes) (htmp : d.tmp = some f) :
    d.Extends (d.append f bytes) := by
  refine ⟨fun g _ hne => ?_,fun g hg => .inl hg⟩
  have hfg : f ≠ g := by
    rintro rfl
    exact hne htmp
  exact List.getElem?_modify_ne _ _ hfg

theorem rename_eq_some (h : d.rename = some e) :
    ∃ f, d.tmp = some f ∧ e = { d with file := some f, tmp := none } := by
  unfold Disk.rename at h
  split at h
  · rename_i f hf
    cases h
    exact ⟨f,hf,rfl⟩
  · cases h

end Files

section Contents
variable {Store Op : Type} {codec : Codec Store} {save : Op → Store → Option Store} {init : Store}
  {w v : World Store Op} {i : ℕ} {p : Party Store Op} {m : Move}

theorem load_steady {h : Option ℕ} (hw : Steady codec init w h)
    (hdisk : w.disk.Extends v.disk) : v.disk.load codec h = w.disk.load codec h := by
  obtain ⟨⟨s,hload,-⟩,htmp⟩ := hw
  cases h with
  | none => rfl
  | some f =>
    obtain ⟨body,hbody,-⟩ := Option.bind_eq_some_iff.mp hload
    have hlt := (List.getElem?_eq_some_iff.mp hbody).1
    rw [Disk.load, Disk.load, hdisk.1 f hlt (htmp f rfl)]

theorem steady_mono {h : Option ℕ} (hw : Steady codec init w h) (hdisk : w.disk.Extends v.disk)
    (hsaves : ∀ s ∈ w.saves, s ∈ v.saves) : Steady codec init v h := by
  have hsame := load_steady hw hdisk
  obtain ⟨⟨s,hload,hknown⟩,htmp⟩ := hw
  refine ⟨⟨s,by rw [hsame, hload],hknown.imp_right (hsaves s)⟩,?_⟩
  rintro f rfl hf
  rcases hdisk.2 f hf with hold | hge
  · exact htmp f rfl hold
  · obtain ⟨body,hbody,-⟩ := Option.bind_eq_some_iff.mp hload
    have hlt := (List.getElem?_eq_some_iff.mp hbody).1
    omega

theorem view_of_not_holds (h : ¬p.phase.holds) : View codec save init w p := by
  unfold View
  split <;> simp_all [Phase.holds]

theorem view_congr (hdisk : v.disk = w.disk)
    (hserial : serial save init v.completedOps = serial save init w.completedOps)
    (h : View codec save init w p) : View codec save init v p := by
  unfold View at h ⊢
  rw [hdisk, hserial]
  exact h

theorem views_inside {q : Party Store Op} (hlock : LockOk w) (hp : w.parties[i]? = some p)
    (hold : p.phase.holds) (hparties : v.parties = w.parties.set i q)
    (hq : View codec save init v q) : ∀ r ∈ v.parties, View codec save init v r := by
  intro r hr
  obtain ⟨j,hj⟩ := List.mem_iff_getElem?.mp (hparties ▸ hr)
  rcases getElem?_set_cases hj with ⟨-,rfl⟩ | ⟨hne,hj⟩
  · exact hq
  · refine view_of_not_holds fun hholds => hne ?_
    have hi := hlock.exclusive i p hp hold
    rw [hlock.exclusive j r hj hholds] at hi
    exact Option.some.inj hi

theorem filesOk_keep (hw : FilesOk codec save init w) (hfile : v.disk.file = w.disk.file)
    (hdisk : w.disk.Extends v.disk) (hsaves : v.saves = w.saves)
    (hserial : serial save init v.completedOps = serial save init w.completedOps)
    (hhandles : ∀ h ∈ v.handles, h ∈ w.disk.file::w.handles)
    (hview : ∀ p ∈ v.parties, View codec save init v p)
    (hvalid : ∀ f, v.disk.tmp = some f → f < v.disk.inodes.length)
    (hloads : ∀ r ∈ v.loads, r ∈ w.loads ∨ ∃ h ∈ w.disk.file::w.handles, r = w.disk.load codec h) :
    FilesOk codec save init v where
  onDisk := by
    rw [hfile, load_steady (hw.steady _ List.mem_cons_self) hdisk, hserial]
    exact hw.onDisk
  view := hview
  steady := by
    have hmono : ∀ h ∈ w.disk.file::w.handles, Steady codec init v h := fun h hh =>
      steady_mono (hw.steady h hh) hdisk fun s hs => hsaves ▸ hs
    intro h hh
    rcases List.mem_cons.mp hh with rfl | hh
    · rw [hfile]
      exact hmono _ List.mem_cons_self
    · exact hmono h (hhandles h hh)
  tmpValid := hvalid
  loaded := by
    intro r hr
    rcases hloads r hr with hold | ⟨h,hh,rfl⟩
    · obtain ⟨s,hs,hknown⟩ := hw.loaded r hold
      exact ⟨s,hs,hknown.imp_right fun hs => hsaves ▸ hs⟩
    · obtain ⟨⟨s,hs,hknown⟩,-⟩ := hw.steady h hh
      exact ⟨s,hs,hknown.imp_right fun hs => hsaves ▸ hs⟩

theorem filesOk_quiet (hw : FilesOk codec save init w) (hdisk : v.disk = w.disk)
    (hsaves : v.saves = w.saves)
    (hserial : serial save init v.completedOps = serial save init w.completedOps)
    (hhandles : ∀ h ∈ v.handles, h ∈ w.disk.file::w.handles)
    (hview : ∀ p ∈ v.parties, p ∈ w.parties ∨ View codec save init v p)
    (hloads : ∀ r ∈ v.loads, r ∈ w.loads ∨ ∃ h ∈ w.disk.file::w.handles, r = w.disk.load codec h) :
    FilesOk codec save init v := by
  refine filesOk_keep hw (by rw [hdisk]) (hdisk ▸ extends_refl _) hsaves hserial hhandles ?_
    (hdisk ▸ hw.tmpValid) hloads
  intro p hp
  rcases hview p hp with hold | hnew
  · exact view_congr hdisk hserial (hw.view p hold)
  · exact hnew

theorem serial_concat (ops : List Op) (op : Op) :
    serial save init (ops++[op]) = apply save op (serial save init ops) := by
  rw [serial, List.foldl_append]
  rfl

theorem mem_setPhase {phase : Phase Store} {q : Party Store Op}
    (h : q ∈ (w.setPhase i p phase).parties) : q ∈ w.parties ∨ q = { p with phase := phase } :=
  List.mem_or_eq_of_mem_set h

theorem filesOk_readFile {f : Option ℕ} (hlock : LockOk w) (hw : FilesOk codec save init w)
    (hp : w.parties[i]? = some p) (hphase : p.phase = .opened f) :
    FilesOk codec save init
      { w.setPhase i p (afterLoad save p.op (w.disk.load codec f)) with
        loads := w.disk.load codec f::w.loads } := by
  have hf : f = w.disk.file := by
    have hview := hw.view p (List.mem_of_getElem? hp)
    rwa [View, hphase] at hview
  have hnot : p.completed = none :=
    completed_eq_none (by rw [hphase]; simp) (by rw [hphase]; simp)
  have hloads : ∀ r ∈ w.disk.load codec f::w.loads, r ∈ w.loads ∨
      ∃ h ∈ w.disk.file::w.handles, r = w.disk.load codec h := by
    intro r hr
    rcases List.mem_cons.mp hr with rfl | hr
    · exact .inr ⟨w.disk.file,List.mem_cons_self,by rw [hf]⟩
    · exact .inl hr
  rw [hf, hw.onDisk] at hloads ⊢
  cases hsave : save p.op (serial save init w.completedOps) with
  | some t =>
    have hafter : afterLoad save p.op (some (serial save init w.completedOps)) = .saving t := by
      rw [afterLoad, hsave]
    have hops := completedOps_setPhase (.saving t) hp (by rw [hnot]; rfl)
    rw [hafter]
    refine filesOk_quiet hw rfl rfl (congrArg _ hops) (fun h hh => List.mem_cons_of_mem _ hh) ?_
      hloads
    intro q hq
    rcases mem_setPhase hq with hold | rfl
    · exact .inl hold
    · right
      change save p.op (serial save init (w.setPhase i p (.saving t)).completedOps) = some t
      rw [hops, hsave]
  | none =>
    have hafter : afterLoad save p.op (some (serial save init w.completedOps)) = .committed := by
      rw [afterLoad, hsave]
    have hops : (w.setPhase i p .committed).completedOps = w.completedOps++[p.op] :=
      completedOps_commit hlock hp (by rw [hphase]; rfl) hnot rfl
    have hserial : serial save init (w.setPhase i p .committed).completedOps =
        serial save init w.completedOps := by
      rw [hops, serial_concat, apply, hsave]
      rfl
    rw [hafter]
    refine filesOk_quiet hw rfl rfl hserial (fun h hh => List.mem_cons_of_mem _ hh) ?_ hloads
    intro q hq
    rcases mem_setPhase hq with hold | rfl
    · exact .inl hold
    · exact .inr trivial

theorem filesOk_openTmp {s : Store} (hlock : LockOk w) (hw : FilesOk codec save init w)
    (hp : w.parties[i]? = some p) (hphase : p.phase = .saving s) :
    FilesOk codec save init
      { w.setPhase i p (.writing s w.disk.openTmp.2 (codec.encode s)) with
        disk := w.disk.openTmp.1 } := by
  have hsave : save p.op (serial save init w.completedOps) = some s := by
    have hview := hw.view p (List.mem_of_getElem? hp)
    rwa [View, hphase] at hview
  have hnot : p.completed = none :=
    completed_eq_none (by rw [hphase]; simp) (by rw [hphase]; simp)
  have hops := completedOps_setPhase
    (.writing s w.disk.openTmp.2 (codec.encode s)) hp (by rw [hnot]; rfl)
  have hempty := openTmp_empty hw.tmpValid
  have hfile : w.disk.openTmp.1.file = w.disk.file := by
    unfold Disk.openTmp
    split <;> rfl
  refine filesOk_keep hw hfile (openTmp_extends _) rfl (congrArg _ hops)
    (fun h hh => List.mem_cons_of_mem _ hh) ?_ ?_ (fun r hr => .inl hr)
  · refine views_inside hlock hp (by rw [hphase]; rfl) rfl ⟨?_,openTmp_tmp _,[],hempty,rfl⟩
    exact (congrArg (save p.op) (congrArg (serial save init) hops)).trans hsave
  · intro f hf
    rw [openTmp_tmp] at hf
    cases hf
    exact (List.getElem?_eq_some_iff.mp hempty).1

theorem filesOk_write {s : Store} {f : ℕ} {rest : Bytes} (n : ℕ) (hlock : LockOk w)
    (hw : FilesOk codec save init w) (hp : w.parties[i]? = some p)
    (hphase : p.phase = .writing s f rest) :
    FilesOk codec save init
      { w.setPhase i p (.writing s f (rest.drop n)) with
        disk := w.disk.append f (rest.take n) } := by
  obtain ⟨hsave,htmp,done,hdone,hbody⟩ : save p.op (serial save init w.completedOps) = some s ∧
      w.disk.tmp = some f ∧
        ∃ done, w.disk.inodes[f]? = some done ∧ done++rest = codec.encode s := by
    have hview := hw.view p (List.mem_of_getElem? hp)
    rwa [View, hphase] at hview
  have hnot : p.completed = none :=
    completed_eq_none (by rw [hphase]; simp) (by rw [hphase]; simp)
  have hops := completedOps_setPhase (.writing s f (rest.drop n)) hp (by rw [hnot]; rfl)
  have hmore : (w.disk.append f (rest.take n)).inodes[f]? = some (done++rest.take n) := by
    rw [Disk.append, List.getElem?_modify_eq, hdone]
    rfl
  refine filesOk_keep hw rfl (append_extends _ htmp) rfl (congrArg _ hops)
    (fun h hh => List.mem_cons_of_mem _ hh) ?_ ?_ (fun r hr => .inl hr)
  · refine views_inside hlock hp (by rw [hphase]; rfl) rfl ⟨?_,htmp,_,hmore,?_⟩
    · exact (congrArg (save p.op) (congrArg (serial save init) hops)).trans hsave
    · rw [List.append_assoc, List.take_append_drop, hbody]
  · intro g hg
    cases hg.symm.trans htmp
    exact (List.getElem?_eq_some_iff.mp hmore).1

theorem filesOk_rename {s : Store} {f : ℕ} {d : Disk} (hlock : LockOk w)
    (hw : FilesOk codec save init w) (hp : w.parties[i]? = some p)
    (hphase : p.phase = .writing s f []) (hd : w.disk.rename = some d)
    (hcodec : codec.decode (codec.encode s) = some s) :
    FilesOk codec save init
      { w.setPhase i p .committed with disk := d, saves := s::w.saves } := by
  obtain ⟨hsave,htmp,done,hdone,hbody⟩ : save p.op (serial save init w.completedOps) = some s ∧
      w.disk.tmp = some f ∧
        ∃ done, w.disk.inodes[f]? = some done ∧ done++[] = codec.encode s := by
    have hview := hw.view p (List.mem_of_getElem? hp)
    rwa [View, hphase] at hview
  obtain ⟨g,hg,rfl⟩ := rename_eq_some hd
  cases htmp.symm.trans hg
  have hload : ({ w.disk with file := some f, tmp := none } : Disk).load codec (some f) = some s := by
    rw [Disk.load, hdone, Option.bind_some, ← hcodec, ← hbody, List.append_nil]
  have hnot : p.completed = none :=
    completed_eq_none (by rw [hphase]; simp) (by rw [hphase]; simp)
  have hops : (w.setPhase i p .committed).completedOps = w.completedOps++[p.op] :=
    completedOps_commit hlock hp (by rw [hphase]; rfl) hnot rfl
  refine ⟨?_,?_,?_,nofun,?_⟩
  · change _ = some (serial save init (w.setPhase i p .committed).completedOps)
    rw [hops, serial_concat, apply, hsave]
    exact hload
  · exact views_inside hlock hp (by rw [hphase]; rfl) rfl trivial
  · intro h hh
    rcases List.mem_cons.mp hh with rfl | hh
    · exact ⟨⟨s,hload,.inr List.mem_cons_self⟩,fun _ _ => nofun⟩
    · refine steady_mono (hw.steady h (List.mem_cons_of_mem _ hh)) ⟨fun _ _ _ => rfl,nofun⟩ ?_
      exact fun s hs => List.mem_cons_of_mem _ hs
  · intro r hr
    obtain ⟨s,hs,hknown⟩ := hw.loaded r hr
    exact ⟨s,hs,hknown.imp_right (List.mem_cons_of_mem _)⟩

theorem filesOk_finish (hw : FilesOk codec save init w) (hp : w.parties[i]? = some p)
    (hphase : ∀ b, p.phase ≠ .ended b) :
    FilesOk codec save init
      { w.setPhase i p (.ended p.phase.isCommitted) with
        holder := if w.holder = some i then none else w.holder } := by
  refine filesOk_quiet hw rfl rfl (congrArg _ (completedOps_finish hp hphase))
    (fun h hh => List.mem_cons_of_mem _ hh) ?_ (fun r hr => .inl hr)
  intro q hq
  rcases mem_setPhase hq with hold | rfl
  · exact .inl hold
  · exact .inr trivial

theorem filesOk_move (hlock : LockOk w) (hw : FilesOk codec save init w)
    (hp : w.parties[i]? = some p)
    (hcodec : ∀ s ∈ v.saves, codec.decode (codec.encode s) = some s)
    (h : move codec save w i p m = some v) : FilesOk codec save init v := by
  rcases move_cases h with ⟨hphase,-,rfl⟩ | ⟨hphase,rfl⟩ | ⟨f,hphase,rfl⟩ | ⟨s,hphase,rfl⟩ |
    ⟨s,f,rest,n,hphase,rfl⟩ | ⟨s,f,d,hphase,hd,rfl⟩ | ⟨hphase,rfl⟩
  · refine filesOk_quiet hw rfl rfl (congrArg _ (completedOps_lock hp hphase))
      (fun h hh => List.mem_cons_of_mem _ hh) ?_ (fun r hr => .inl hr)
    intro q hq
    rcases mem_setPhase hq with hold | rfl
    · exact .inl hold
    · exact .inr trivial
  · have hops := completedOps_setPhase (.opened w.disk.file) hp
      (by rw [Party.completed, Party.completed, hphase])
    refine filesOk_quiet hw rfl rfl (congrArg _ hops) (fun h hh => List.mem_cons_of_mem _ hh) ?_
      (fun r hr => .inl hr)
    intro q hq
    rcases mem_setPhase hq with hold | rfl
    · exact .inl hold
    · exact .inr rfl
  · exact filesOk_readFile hlock hw hp hphase
  · exact filesOk_openTmp hlock hw hp hphase
  · exact filesOk_write n hlock hw hp hphase
  · exact filesOk_rename hlock hw hp hphase hd (hcodec s List.mem_cons_self)
  · exact filesOk_finish hw hp hphase

theorem filesOk_step {a : Act Op} (hlock : LockOk w) (hw : FilesOk codec save init w)
    (hcodec : ∀ s ∈ v.saves, codec.decode (codec.encode s) = some s)
    (h : step codec save w a = some v) : FilesOk codec save init v := by
  cases a with
  | spawn op =>
    cases h
    refine filesOk_quiet hw rfl rfl (congrArg _ (completedOps_spawn hlock _))
      (fun h hh => List.mem_cons_of_mem _ hh) ?_ (fun r hr => .inl hr)
    intro q hq
    rcases List.mem_append.mp hq with hold | hnew
    · exact .inl hold
    · rw [List.mem_singleton.mp hnew]
      exact .inr trivial
  | move i m =>
    obtain ⟨p,hp,hmove⟩ := Option.bind_eq_some_iff.mp h
    exact filesOk_move hlock hw hp hcodec hmove
  | openFile =>
    cases h
    exact filesOk_quiet hw rfl rfl rfl (fun h hh => hh) (fun q hq => .inl hq) (fun r hr => .inl hr)
  | readFile f =>
    simp only [step] at h
    split_ifs at h with hf
    cases h
    refine filesOk_quiet hw rfl rfl rfl
      (fun h hh => List.mem_cons_of_mem _ (List.mem_of_mem_erase hh)) (fun q hq => .inl hq) ?_
    intro r hr
    rcases List.mem_cons.mp hr with rfl | hr
    · exact .inr ⟨f,List.mem_cons_of_mem _ hf,rfl⟩
    · exact .inl hr

end Contents

section Runs
variable {Store Op : Type} {codec : Codec Store} {save : Op → Store → Option Store} {init : Store}
  {w v : World Store Op} {a : Act Op} {as : List (Act Op)} {file stale : Option Bytes}

theorem filesOk_start
    (hinit : (Disk.ofContents file stale).load codec (Disk.ofContents file stale).file =
      some init) :
    FilesOk codec save init (World.start (Disk.ofContents file stale)) where
  onDisk := hinit
  view := by simp [World.start]
  steady := by
    intro h hh
    rw [List.mem_singleton.mp hh]
    refine ⟨⟨init,hinit,.inl rfl⟩,?_⟩
    rcases file with _ | body <;> rcases stale with _ | old <;>
      simp [World.start, Disk.ofContents]
  tmpValid := by
    rcases file with _ | body <;> rcases stale with _ | old <;>
      simp [World.start, Disk.ofContents]
  loaded := by simp [World.start]

theorem step_saves (h : step codec save w a = some v) : ∀ s ∈ w.saves, s ∈ v.saves := by
  intro s hs
  cases a with
  | spawn op =>
    cases h
    exact hs
  | move i m =>
    obtain ⟨p,-,hmove⟩ := Option.bind_eq_some_iff.mp h
    rcases move_cases hmove with ⟨-,-,rfl⟩ | ⟨-,rfl⟩ | ⟨_,-,rfl⟩ | ⟨_,-,rfl⟩ | ⟨_,_,_,_,-,rfl⟩ |
      ⟨_,_,_,-,-,rfl⟩ | ⟨-,rfl⟩
    case inr.inr.inr.inr.inr.inl => exact List.mem_cons_of_mem _ hs
    all_goals exact hs
  | openFile =>
    cases h
    exact hs
  | readFile f =>
    simp only [step] at h
    split_ifs at h
    cases h
    exact hs

theorem completedOps_step (hlock : LockOk w) (h : step codec save w a = some v) :
    v.completedOps = w.completedOps ∨ ∃ op, v.completedOps = w.completedOps++[op] := by
  cases a with
  | spawn op =>
    cases h
    exact .inl (completedOps_spawn hlock _)
  | move i m =>
    obtain ⟨p,hp,hmove⟩ := Option.bind_eq_some_iff.mp h
    have hset : ∀ phase, p.phase.holds → p.phase ≠ .committed →
        (w.setPhase i p phase).completedOps = w.completedOps ∨
          ∃ op, (w.setPhase i p phase).completedOps = w.completedOps++[op] := by
      intro phase hold hne
      have hnot := completed_eq_none hne fun b hb => by rw [hb] at hold; cases hold
      cases hdone : Party.completed { p with phase := phase } with
      | none => exact .inl (completedOps_setPhase phase hp (hdone.trans hnot.symm))
      | some op => exact .inr ⟨op,completedOps_commit hlock hp hold hnot hdone⟩
    rcases move_cases hmove with ⟨hphase,-,rfl⟩ | ⟨hphase,rfl⟩ | ⟨f,hphase,rfl⟩ | ⟨s,hphase,rfl⟩ |
      ⟨s,f,rest,n,hphase,rfl⟩ | ⟨s,f,d,hphase,-,rfl⟩ | ⟨hphase,rfl⟩
    · exact .inl (completedOps_lock hp hphase)
    · exact hset (.opened w.disk.file) (by rw [hphase]; rfl) (by rw [hphase]; simp)
    · exact hset (afterLoad save p.op (w.disk.load codec f)) (by rw [hphase]; rfl)
        (by rw [hphase]; simp)
    · exact hset (.writing s w.disk.openTmp.2 (codec.encode s)) (by rw [hphase]; rfl)
        (by rw [hphase]; simp)
    · exact hset (.writing s f (rest.drop n)) (by rw [hphase]; rfl) (by rw [hphase]; simp)
    · exact hset .committed (by rw [hphase]; rfl) (by rw [hphase]; simp)
    · exact .inl (completedOps_finish hp hphase)
  | openFile =>
    cases h
    exact .inl rfl
  | readFile f =>
    simp only [step] at h
    split_ifs at h
    cases h
    exact .inl rfl

theorem serial_step (hlock : LockOk w) (h : step codec save w a = some v) :
    serial save init v.completedOps = serial save init w.completedOps ∨
      ∃ op, save op (serial save init w.completedOps) =
        some (serial save init v.completedOps) := by
  rcases completedOps_step hlock h with heq | ⟨op,heq⟩
  · exact .inl (by rw [heq])
  · rw [heq, serial_concat, apply]
    cases hsave : save op (serial save init w.completedOps) with
    | none => exact .inl rfl
    | some t => exact .inr ⟨op,hsave⟩

/-- What every save preserves holds of the outcome of the operations. -/
theorem serial_induction {P : Store → Prop} (hinit : P init)
    (hsave : ∀ op s t, P s → save op s = some t → P t) (ops : List Op) :
    P (serial save init ops) := by
  induction ops generalizing init with
  | nil => exact hinit
  | cons op ops ih =>
    refine ih ?_
    change P ((save op init).getD init)
    cases h : save op init with
    | none => exact hinit
    | some t => exact hsave op init t hinit h

theorem run_saves {as : List (Act Op)} (h : run (step codec save) w as = some v) :
    ∀ s ∈ w.saves, s ∈ v.saves := by
  induction as generalizing w with
  | nil =>
    cases h
    exact fun s hs => hs
  | cons a as ih =>
    obtain ⟨u,hu,hrest⟩ := (run_cons _).mp h
    exact fun s hs => ih hrest s (step_saves hu s hs)

/-- The file holds the outcome of the completed operations, in every state of
every run whose saves decode to what was encoded. -/
theorem filesOk_run (hlock : LockOk w) (hw : FilesOk codec save init w)
    (hcodec : ∀ s ∈ v.saves, codec.decode (codec.encode s) = some s)
    (h : run (step codec save) w as = some v) : LockOk v ∧ FilesOk codec save init v := by
  induction as generalizing w with
  | nil =>
    cases h
    exact ⟨hlock,hw⟩
  | cons a as ih =>
    obtain ⟨u,hu,hrest⟩ := (run_cons _).mp h
    have hcodec' : ∀ s ∈ u.saves, codec.decode (codec.encode s) = some s := fun s hs =>
      hcodec s (run_saves hrest s hs)
    exact ih (lockOk_step hlock hu) (filesOk_step hlock hw hcodec' hu) hrest

theorem move_ops {i : ℕ} {p : Party Store Op} {m : Move} (hp : p ∈ w.parties)
    (h : move codec save w i p m = some v) : ∀ q ∈ v.parties, ∃ r ∈ w.parties, q.op = r.op := by
  have hset : ∀ (phase : Phase Store) (q : Party Store Op), q ∈ (w.setPhase i p phase).parties →
      ∃ r ∈ w.parties, q.op = r.op := by
    intro phase q hq
    rcases mem_setPhase hq with hq | rfl
    · exact ⟨q,hq,rfl⟩
    · exact ⟨p,hp,rfl⟩
  rcases move_cases h with ⟨-,-,rfl⟩ | ⟨-,rfl⟩ | ⟨_,-,rfl⟩ | ⟨_,-,rfl⟩ | ⟨_,_,_,_,-,rfl⟩ |
    ⟨_,_,_,-,-,rfl⟩ | ⟨-,rfl⟩
  all_goals exact hset _

/-- An operation in the file was started in the run. -/
theorem ops_spawned {disk : Disk} {as : List (Act Op)}
    (h : run (step codec save) (.start disk) as = some w) :
    ∀ p ∈ w.parties, Act.spawn p.op ∈ as := by
  refine run_history (step codec save) (J := fun as u => ∀ p ∈ u.parties, Act.spawn p.op ∈ as)
    (fun _ hp => absurd hp List.not_mem_nil) ?_ h
  intro bs u a v _ hu hstep q hq
  have hold : ∀ r ∈ u.parties, Act.spawn r.op ∈ bs++[a] := fun r hr =>
    List.mem_append_left _ (hu r hr)
  cases a with
  | spawn op =>
    cases hstep
    rcases List.mem_append.mp hq with hq | hq
    · exact hold q hq
    · cases List.mem_singleton.mp hq
      exact List.mem_append_right _ (List.mem_singleton_self _)
  | move i m =>
    have ⟨p,hp,hmove⟩ := Option.bind_eq_some_iff.mp hstep
    have ⟨r,hr,hop⟩ := move_ops (List.mem_of_getElem? hp) hmove q hq
    rw [hop]
    exact hold r hr
  | openFile =>
    cases hstep
    exact hold q hq
  | readFile f =>
    simp only [step] at hstep
    split_ifs at hstep
    cases hstep
    exact hold q hq

theorem completed_spawned {disk : Disk} {as : List (Act Op)}
    (h : run (step codec save) (.start disk) as = some w) {op : Op} (hop : op ∈ w.completedOps) :
    Act.spawn op ∈ as := by
  obtain ⟨i,-,hi⟩ := List.mem_filterMap.mp hop
  obtain ⟨p,hp,hcompleted⟩ := Option.bind_eq_some_iff.mp hi
  have heq : p.op = op := by
    rw [Party.completed] at hcompleted
    split at hcompleted
    · exact Option.some.inj hcompleted
    · exact Option.some.inj hcompleted
    · cases hcompleted
  rw [← heq]
  exact ops_spawned h p (List.mem_of_getElem? hp)

end Runs

end Term.LockedFile
