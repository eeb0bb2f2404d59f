import TermMux.LockedFile

/-!
# A process that keeps a copy of a locked file

Beside the parties that rewrite the file a process loads it from time to time,
without the lock, and works from the copy of its last successful load. A load
opens the file and reads it later; a load may fail, which keeps the copy, and
the process may be restarted, which loses it.

The copy always is the outcome of the operations that had completed when its
load opened the file, and later copies never miss what an earlier one showed.
-/

set_option autoImplicit false

namespace Term.SnapshotReader
open Term.Machine Term.LockedFile

/-- An open file, with the number of operations completed when it was opened. -/
structure Loading where
  handle : Option ℕ
  after : ℕ
  deriving DecidableEq, Repr

structure Copy (Store : Type) where
  store : Store
  after : ℕ
  deriving DecidableEq, Repr

structure System (Store Op : Type) where
  files : World Store Op
  loading : Option Loading
  copy : Option (Copy Store)
  deriving DecidableEq, Repr

inductive Act (Op : Type) where
  | files (a : LockedFile.Act Op)
  | openFile
  | readFile (fails : Bool)
  | restart
  deriving DecidableEq, Repr

section Steps
variable {Store Op : Type} (codec : Codec Store) (save : Op → Store → Option Store)

def System.start (disk : Disk) : System Store Op := ⟨World.start disk,none,none⟩

def readFile (s : System Store Op) (l : Loading) : System Store Op :=
  match s.files.disk.load codec l.handle with
  | some store => { s with loading := none, copy := some ⟨store,l.after⟩ }
  | none => { s with loading := none }

def step (s : System Store Op) : Act Op → Option (System Store Op)
  | .files a => (LockedFile.step codec save s.files a).map fun w => { s with files := w }
  | .openFile =>
    if s.loading = none then
      some { s with loading := some ⟨s.files.disk.file,s.files.completedOps.length⟩ }
    else none
  | .readFile fails =>
    s.loading.map fun l => if fails then { s with loading := none } else readFile codec s l
  | .restart => some { s with loading := none, copy := none }

end Steps

section Invariant
variable {Store Op : Type} (codec : Codec Store) (save : Op → Store → Option Store) (init : Store)

def outcome (w : World Store Op) (n : ℕ) : Store := serial save init (w.completedOps.take n)

structure Holds (w : World Store Op) (h : Option ℕ) (n : ℕ) : Prop where
  bound : n ≤ w.completedOps.length
  content : w.disk.load codec h = some (outcome save init w n)
  unwritten : ∀ f, h = some f → w.disk.tmp ≠ some f

def Legible (s : System Store Op) : Prop :=
  ∀ x ∈ s.files.saves, codec.decode (codec.encode x) = some x

structure CopyOk (s : System Store Op) : Prop where
  lock : LockOk s.files
  files : FilesOk codec save init s.files
  loading : ∀ l, s.loading = some l → Holds codec save init s.files l.handle l.after
  bound : ∀ c, s.copy = some c → c.after ≤ s.files.completedOps.length
  copy : ∀ c, s.copy = some c → c.store = outcome save init s.files c.after
  ordered : ∀ l c, s.loading = some l → s.copy = some c → c.after ≤ l.after

end Invariant

section Steadiness
variable {Store Op : Type} {codec : Codec Store} {save : Op → Store → Option Store} {init : Store}
  {u w v : World Store Op} {s t : System Store Op} {h : Option ℕ} {n : ℕ}

theorem extends_move {i : ℕ} {p : Party Store Op} {m : Move} (hw : FilesOk codec save init w)
    (hp : w.parties[i]? = some p) (hmove : move codec save w i p m = some v) :
    w.disk.Extends v.disk := by
  rcases move_cases hmove with ⟨-,-,rfl⟩ | ⟨-,rfl⟩ | ⟨f,-,rfl⟩ | ⟨s,-,rfl⟩ |
    ⟨s,f,rest,k,hphase,rfl⟩ | ⟨s,f,d,-,hd,rfl⟩ | ⟨-,rfl⟩
  · exact extends_refl _
  · exact extends_refl _
  · exact extends_refl _
  · exact openTmp_extends _
  · have hview := hw.view p (List.mem_of_getElem? hp)
    rw [View, hphase] at hview
    exact append_extends _ hview.2.1
  · obtain ⟨g,-,rfl⟩ := rename_eq_some hd
    exact ⟨fun _ _ _ => rfl,fun _ h => by cases h⟩
  · exact extends_refl _

theorem extends_step {a : LockedFile.Act Op} (hw : FilesOk codec save init w)
    (hstep : LockedFile.step codec save w a = some v) : w.disk.Extends v.disk := by
  cases a with
  | spawn op =>
    cases hstep
    exact extends_refl _
  | move i m =>
    obtain ⟨p,hp,hmove⟩ := Option.bind_eq_some_iff.mp hstep
    exact extends_move hw hp hmove
  | openFile =>
    cases hstep
    exact extends_refl _
  | readFile f =>
    simp only [LockedFile.step] at hstep
    split_ifs at hstep
    cases hstep
    exact extends_refl _

theorem completedOps_grow {a : LockedFile.Act Op} (hlock : LockOk w)
    (hstep : LockedFile.step codec save w a = some v) : w.completedOps <+: v.completedOps := by
  rcases completedOps_step hlock hstep with heq | ⟨op,heq⟩
  · rw [heq]
  · rw [heq]
    exact List.prefix_append _ _

theorem outcome_grow (hops : w.completedOps <+: v.completedOps)
    (hn : n ≤ w.completedOps.length) : outcome save init v n = outcome save init w n := by
  obtain ⟨more,hmore⟩ := hops
  rw [outcome, outcome, ← hmore, List.take_append_of_le_length hn]

theorem holds_step {a : LockedFile.Act Op} (hlock : LockOk w) (hw : FilesOk codec save init w)
    (hstep : LockedFile.step codec save w a = some v) (hh : Holds codec save init w h n) :
    Holds codec save init v h n := by
  have hops := completedOps_grow hlock hstep
  have hdisk := extends_step hw hstep
  have hvalid : ∀ f, h = some f → f < w.disk.inodes.length := by
    rintro f rfl
    obtain ⟨body,hbody,-⟩ := Option.bind_eq_some_iff.mp hh.content
    exact (List.getElem?_eq_some_iff.mp hbody).1
  refine ⟨hh.bound.trans hops.length_le,?_,?_⟩
  · rw [outcome_grow hops hh.bound, ← hh.content]
    cases h with
    | none => rfl
    | some f => rw [Disk.load, Disk.load, hdisk.1 f (hvalid f rfl) (hh.unwritten f rfl)]
  · intro f hf htmp
    rcases hdisk.2 f htmp with hold | hnew
    · exact hh.unwritten f hf hold
    · exact absurd (hvalid f hf) (Nat.not_lt.mpr hnew)

theorem holds_file (hw : FilesOk codec save init w) :
    Holds codec save init w w.disk.file w.completedOps.length where
  bound := le_rfl
  content := by rw [hw.onDisk, outcome, List.take_length]
  unwritten := (hw.steady w.disk.file List.mem_cons_self).2

theorem readFile_eq {l : Loading} (hs : CopyOk codec save init s) (hl : s.loading = some l) :
    readFile codec s l =
      { s with loading := none, copy := some ⟨outcome save init s.files l.after,l.after⟩ } := by
  rw [readFile, (hs.loading l hl).content]

theorem copyOk_files {a : LockedFile.Act Op} (hs : CopyOk codec save init s)
    (hlegible : Legible codec { s with files := v })
    (hstep : LockedFile.step codec save s.files a = some v) :
    CopyOk codec save init { s with files := v } := by
  have hops := completedOps_grow hs.lock hstep
  constructor
  · exact lockOk_step hs.lock hstep
  · exact filesOk_step hs.lock hs.files hlegible hstep
  · exact fun l hl => holds_step hs.lock hs.files hstep (hs.loading l hl)
  · exact fun c hc => (hs.bound c hc).trans hops.length_le
  · exact fun c hc => (hs.copy c hc).trans (outcome_grow hops (hs.bound c hc)).symm
  · exact hs.ordered

theorem copyOk_step {a : Act Op} (hs : CopyOk codec save init s) (hlegible : Legible codec t)
    (hstep : step codec save s a = some t) : CopyOk codec save init t := by
  cases a with
  | files a =>
    obtain ⟨w,hw,rfl⟩ := Option.map_eq_some_iff.mp hstep
    exact copyOk_files hs hlegible hw
  | openFile =>
    simp only [step] at hstep
    split_ifs at hstep
    cases hstep
    refine ⟨hs.lock,hs.files,?_,hs.bound,hs.copy,?_⟩
    · intro l hl
      cases hl
      exact holds_file hs.files
    · intro l c hl hc
      cases hl
      exact hs.bound c hc
  | readFile fails =>
    obtain ⟨l,hl,rfl⟩ := Option.map_eq_some_iff.mp hstep
    cases fails with
    | true => exact ⟨hs.lock,hs.files,nofun,hs.bound,hs.copy,nofun⟩
    | false =>
      rw [if_neg Bool.false_ne_true, readFile_eq hs hl]
      refine ⟨hs.lock,hs.files,nofun,?_,?_,nofun⟩
      · intro c hc
        cases hc
        exact (hs.loading l hl).bound
      · intro c hc
        cases hc
        rfl
  | restart =>
    cases hstep
    exact ⟨hs.lock,hs.files,nofun,nofun,nofun,nofun⟩

theorem copyOk_start {file stale : Option Term.ByteOrder.Bytes}
    (hinit : (Disk.ofContents file stale).load codec (Disk.ofContents file stale).file =
      some init) :
    CopyOk codec save init (System.start (Disk.ofContents file stale)) where
  lock := lockOk_start _
  files := filesOk_start hinit
  loading := nofun
  bound := nofun
  copy := nofun
  ordered := nofun

theorem legible_of_step {a : Act Op} (hstep : step codec save s a = some t)
    (hlegible : Legible codec t) : Legible codec s := by
  intro x hx
  refine hlegible x ?_
  cases a with
  | files a =>
    obtain ⟨w,hw,rfl⟩ := Option.map_eq_some_iff.mp hstep
    exact step_saves hw x hx
  | openFile =>
    simp only [step] at hstep
    split_ifs at hstep
    cases hstep
    exact hx
  | readFile fails =>
    obtain ⟨l,-,rfl⟩ := Option.map_eq_some_iff.mp hstep
    cases fails with
    | true => exact hx
    | false =>
      rw [if_neg Bool.false_ne_true, readFile]
      split <;> exact hx
  | restart =>
    cases hstep
    exact hx

theorem legible_of_run {as : List (Act Op)} (hrun : run (step codec save) s as = some t)
    (hlegible : Legible codec t) : Legible codec s := by
  induction as generalizing s with
  | nil =>
    cases hrun
    exact hlegible
  | cons a as ih =>
    obtain ⟨u,hu,hrest⟩ := (run_cons _).mp hrun
    exact legible_of_step hu (ih hrest)

/-- In every state of every run the copy is the outcome of the operations that
had completed when its load began. -/
theorem copyOk_run {as : List (Act Op)} (hs : CopyOk codec save init s)
    (hlegible : Legible codec t) (hrun : run (step codec save) s as = some t) :
    CopyOk codec save init t := by
  induction as generalizing s with
  | nil =>
    cases hrun
    exact hs
  | cons a as ih =>
    obtain ⟨u,hu,hrest⟩ := (run_cons _).mp hrun
    exact ih (copyOk_step hs (legible_of_run hrest hlegible) hu) hrest

theorem ops_grow_step {a : Act Op} (hs : CopyOk codec save init s)
    (hstep : step codec save s a = some t) : s.files.completedOps <+: t.files.completedOps := by
  cases a with
  | files a =>
    obtain ⟨w,hw,rfl⟩ := Option.map_eq_some_iff.mp hstep
    exact completedOps_grow hs.lock hw
  | openFile =>
    simp only [step] at hstep
    split_ifs at hstep
    cases hstep
    exact List.prefix_rfl
  | readFile fails =>
    obtain ⟨l,hl,rfl⟩ := Option.map_eq_some_iff.mp hstep
    cases fails with
    | true => exact List.prefix_rfl
    | false =>
      rw [if_neg Bool.false_ne_true, readFile_eq hs hl]
  | restart =>
    cases hstep
    exact List.prefix_rfl

theorem ops_grow_run {as : List (Act Op)} (hs : CopyOk codec save init s)
    (hlegible : Legible codec t) (hrun : run (step codec save) s as = some t) :
    s.files.completedOps <+: t.files.completedOps := by
  induction as generalizing s with
  | nil =>
    cases hrun
    exact List.prefix_rfl
  | cons a as ih =>
    obtain ⟨u,hu,hrest⟩ := (run_cons _).mp hrun
    have hnext := copyOk_step hs (legible_of_run hrest hlegible) hu
    exact (ops_grow_step hs hu).trans (ih hnext hrest)

end Steadiness

section Freshness
variable {Store Op : Type} {codec : Codec Store} {save : Op → Store → Option Store} {init : Store}
  {s t u : System Store Op} {n : ℕ}

structure Covers (n : ℕ) (s : System Store Op) : Prop where
  reached : n ≤ s.files.completedOps.length
  loading : ∀ l, s.loading = some l → n ≤ l.after
  copy : ∀ c, s.copy = some c → n ≤ c.after

theorem covers_step {a : Act Op} (hs : CopyOk codec save init s) (hn : Covers n s)
    (hstep : step codec save s a = some t) : Covers n t := by
  cases a with
  | files a =>
    obtain ⟨w,hw,rfl⟩ := Option.map_eq_some_iff.mp hstep
    exact ⟨hn.reached.trans (completedOps_grow hs.lock hw).length_le,hn.loading,hn.copy⟩
  | openFile =>
    simp only [step] at hstep
    split_ifs at hstep
    cases hstep
    refine ⟨hn.reached,?_,hn.copy⟩
    intro l hl
    cases hl
    exact hn.reached
  | readFile fails =>
    obtain ⟨l,hl,rfl⟩ := Option.map_eq_some_iff.mp hstep
    cases fails with
    | true => exact ⟨hn.reached,nofun,hn.copy⟩
    | false =>
      rw [if_neg Bool.false_ne_true, readFile_eq hs hl]
      refine ⟨hn.reached,nofun,?_⟩
      intro c hc
      cases hc
      exact hn.loading l hl
  | restart =>
    cases hstep
    exact ⟨hn.reached,nofun,nofun⟩

theorem covers_run {as : List (Act Op)} (hs : CopyOk codec save init s) (hn : Covers n s)
    (hlegible : Legible codec t) (hrun : run (step codec save) s as = some t) : Covers n t := by
  induction as generalizing s with
  | nil =>
    cases hrun
    exact hn
  | cons a as ih =>
    obtain ⟨v,hv,hrest⟩ := (run_cons _).mp hrun
    have hnext := copyOk_step hs (legible_of_run hrest hlegible) hv
    exact ih hnext (covers_step hs hn hv) hrest

def Act.isFiles : Act Op → Bool
  | .files _ => true
  | _ => false

theorem frame_files {as : List (Act Op)} (hall : ∀ a ∈ as, a.isFiles)
    (hrun : run (step codec save) s as = some t) : t.loading = s.loading ∧ t.copy = s.copy := by
  induction as generalizing s with
  | nil =>
    cases hrun
    exact ⟨rfl,rfl⟩
  | cons a as ih =>
    obtain ⟨v,hv,hrest⟩ := (run_cons _).mp hrun
    obtain ⟨hl,hc⟩ := ih (fun b hb => hall b (List.mem_cons_of_mem _ hb)) hrest
    cases a with
    | files a =>
      obtain ⟨w,-,rfl⟩ := Option.map_eq_some_iff.mp hv
      exact ⟨hl,hc⟩
    | openFile => cases hall .openFile List.mem_cons_self
    | readFile fails => cases hall (.readFile fails) List.mem_cons_self
    | restart => cases hall .restart List.mem_cons_self

/-- A load that runs to its end covers everything that had completed when it
began, whatever the others do in between. -/
theorem covers_load {as : List (Act Op)} {r q : System Store Op} (hs : CopyOk codec save init s)
    (hopen : step codec save s .openFile = some u) (hall : ∀ a ∈ as, a.isFiles)
    (hrun : run (step codec save) u as = some r) (hlegible : Legible codec q)
    (hread : step codec save r (.readFile false) = some q) :
    Covers s.files.completedOps.length q := by
  have hr : Legible codec r := legible_of_step hread hlegible
  have hok : CopyOk codec save init r :=
    copyOk_run (copyOk_step hs (legible_of_run hrun hr) hopen) hr hrun
  simp only [step] at hopen
  split_ifs at hopen
  cases hopen
  obtain ⟨hl,-⟩ := frame_files hall hrun
  obtain ⟨l,hload,rfl⟩ := Option.map_eq_some_iff.mp hread
  rw [hl] at hload
  cases hload
  rw [if_neg Bool.false_ne_true, readFile_eq hok hl]
  refine ⟨(hok.loading _ hl).bound,nofun,?_⟩
  intro c hc
  cases hc
  exact le_rfl

/-- From the end of such a load on, every copy covers what had completed when
it began. -/
theorem covers_reload {bs ds es : List (Act Op)} (hs : CopyOk codec save init s)
    (hrun : run (step codec save) s (bs++.openFile::(ds++.readFile false::es)) = some t)
    (hlegible : Legible codec t) (hds : ∀ a ∈ ds, a.isFiles)
    (hu : run (step codec save) s bs = some u) :
    Covers u.files.completedOps.length t ∧ u.files.completedOps <+: t.files.completedOps := by
  obtain ⟨u',hu',hrest⟩ := (run_append _).mp hrun
  cases hu'.symm.trans hu
  have hcu := copyOk_run hs (legible_of_run hrest hlegible) hu
  have hgrow := ops_grow_run hcu hlegible hrest
  obtain ⟨v,hopen,hrest⟩ := (run_cons _).mp hrest
  obtain ⟨r,hr,hrest⟩ := (run_append _).mp hrest
  obtain ⟨q,hread,hes⟩ := (run_cons _).mp hrest
  have hq := legible_of_run hes hlegible
  have hlr := legible_of_step hread hq
  have hcv := copyOk_step hcu (legible_of_run hr hlr) hopen
  have hcq := copyOk_step (copyOk_run hcv hlr hr) hq hread
  exact ⟨covers_run hcq (covers_load hcu hopen hds hr hq hread) hlegible hes,hgrow⟩

end Freshness

end Term.SnapshotReader
