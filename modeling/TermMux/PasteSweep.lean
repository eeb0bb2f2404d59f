import TermMux.PasteFileNames

/-!
# The sweep of old pasted files

`sweep_old_paste_files` against the names that `open_paste_file` creates. The sweep
looks at entries that begin as the generated names do, but a file keeps the browser's
own name wherever something is left of it.
-/

set_option autoImplicit false

namespace Term.PasteSweep
open Term.ByteOrder Term.PasteFileNames Term.PasteNames Term.Utf8Text

/-- What `metadata` says of a directory entry; times count nanoseconds. -/
structure Metadata where
  isFile : Bool
  modified : Option ℤ
  deriving DecidableEq, Repr

structure DirEntry where
  name : Bytes
  metadata : Option Metadata
  deriving DecidableEq, Repr

def ttl : ℤ := 60*60*1000000000

def generated : Name := "term-paste-".toList

def spelled (name : String) : Name :=
  ((fileName name.toList).getD []).dropWhile fun c => c = '.' ∨ c = '-'

def swept (now : ℤ) (e : DirEntry) : Option String :=
  match fromUtf8 e.name with
  | none => none
  | some name =>
    if generated <+: name.toList ∧
        (e.metadata.any fun md => md.isFile && md.modified.any fun mtime => ttl < now-mtime)
      then some name else none

def sweepEntries (dir : Bytes) (now : ℤ) : List (Option DirEntry) → List Bytes
  | [] => []
  | none::_ => []
  | some e::rest =>
    match swept now e with
    | none => sweepEntries dir now rest
    | some name => join dir name.toList::sweepEntries dir now rest

def sweepOldPasteFiles (dir : Bytes) (now : ℤ) (readDir : Option (List (Option DirEntry))) :
    List Bytes :=
  match readDir with
  | none => []
  | some entries => sweepEntries dir now entries

def Old (now : ℤ) (e : DirEntry) : Prop :=
  ∃ mtime, e.metadata = some ⟨true,some mtime⟩ ∧ ttl < now-mtime

/-- Where the whole directory can be read, an old file at `path` is removed. -/
def Swept (dir path : Bytes) : Prop :=
  ∀ (now : ℤ) (entries : List DirEntry) (e : DirEntry), e ∈ entries → child dir e.name = path →
    Old now e → path ∈ sweepOldPasteFiles dir now (some (entries.map some))

theorem mem_sweepEntries {dir path : Bytes} {now : ℤ} {entries : List DirEntry} :
    path ∈ sweepEntries dir now (entries.map some) ↔
      ∃ e ∈ entries, ∃ name, swept now e = some name ∧ path = join dir name.toList := by
  induction entries with
  | nil => simp [sweepEntries]
  | cons e entries ih =>
    rw [List.map_cons, sweepEntries]
    cases he : swept now e with
    | none => simp [ih, he]
    | some name => simp [ih, he]

theorem swept_nameBytes {now : ℤ} {e : DirEntry} {n : Name} (hname : e.name = nameBytes n)
    (hold : Old now e) :
    swept now e = if generated <+: n then some (String.ofList n) else none := by
  obtain ⟨mtime,hmd,httl⟩ := hold
  rw [swept, hname, nameBytes, fromUtf8_asBytes, hmd]
  dsimp only
  rw [String.toList_ofList]
  refine if_congr (and_iff_left ?_) rfl rfl
  simp [httl]

/-- A file that a call creates is swept when its name begins as the generated ones do. -/
theorem swept_iff {dir : Bytes} {n : Name} (h : Plain n) :
    Swept dir (join dir n) ↔ generated <+: n := by
  have hjoin : join dir n = child dir (nameBytes n) := join_eq_child h.safe
  constructor
  · intro hswept
    have hold : Old (ttl+1) ⟨nameBytes n,some ⟨true,some 0⟩⟩ := ⟨0,rfl,by omega⟩
    have hmem := hswept (ttl+1) [_] _ (List.mem_singleton.mpr rfl) hjoin.symm hold
    obtain ⟨e,he,name,hs,-⟩ := mem_sweepEntries.mp hmem
    rw [List.mem_singleton.mp he, swept_nameBytes rfl hold] at hs
    by_contra hnot
    rw [if_neg hnot] at hs
    cases hs
  · intro hbegins now entries e he hpath hold
    have hname : e.name = nameBytes n := by
      rw [hjoin] at hpath
      exact child_injective dir hpath
    refine mem_sweepEntries.mpr ⟨e,he,String.ofList n,?_,?_⟩
    · rw [swept_nameBytes hname hold, if_pos hbegins]
    · rw [String.toList_ofList]

theorem begins_map {f : Char → Char} {p l : Name} (hf : ∀ g ∈ p, ∀ c, f c = g ↔ c = g) :
    p <+: l.map f ↔ p <+: l := by
  induction p generalizing l with
  | nil => simp
  | cons g p ih =>
    cases l with
    | nil => simp
    | cons c l =>
      have hhead := hf g List.mem_cons_self c
      have htail := ih (l := l) fun g hg => hf g (List.mem_cons_of_mem _ hg)
      rw [List.map_cons, List.cons_prefix_cons, List.cons_prefix_cons, htail, eq_comm, hhead, eq_comm]

theorem dropWhile_cleaned (basename : Name) :
    (basename.map fun c => if safeChar c then c else '_').dropWhile (fun c => c = '.' ∨ c = '-') =
      (basename.dropWhile fun c => c = '.' ∨ c = '-').map
        fun c => if safeChar c then c else '_' := by
  rw [List.dropWhile_map]
  congr 2
  ext c
  dsimp only [Function.comp]
  split_ifs with hc
  · rfl
  · have hdot : c ≠ '.' := by
      rintro rfl
      exact hc (by decide)
    have hdash : c ≠ '-' := by
      rintro rfl
      exact hc (by decide)
    simp [hdot, hdash]

theorem begins_cleaned (l : Name) :
    generated <+: (l.map fun c => if safeChar c then c else '_') ↔ generated <+: l := by
  have hsafe : generated.all safeChar = true := by decide
  have hunder : '_' ∉ generated := by decide
  refine begins_map fun g hg c => ?_
  split_ifs with hc
  · rfl
  · constructor
    · rintro rfl
      exact absurd hg hunder
    · rintro rfl
      exact absurd (List.all_eq_true.mp hsafe c hg) hc

theorem sanitizePasteName_spelled (nanos : UInt64) (name : String) :
    sanitizePasteName nanos name = if spelled name = [] then generated++hex16 nanos
      else ((spelled name).map fun c => if safeChar c then c else '_').take 200 := by
  have hempty : ∀ l : Name, (l.map fun c => if safeChar c then c else '_').take 200 = [] ↔ l = [] := by
    intro l
    rw [List.take_eq_nil_iff, List.map_eq_nil_iff, or_iff_right (by decide)]
  unfold sanitizePasteName
  dsimp only
  rw [dropWhile_cleaned]
  exact if_congr (hempty (spelled name)) rfl rfl

/-- A name is sanitised to one that begins as the generated ones do when it begins so itself,
or when nothing is left of it. -/
theorem begins_sanitizePasteName (nanos : UInt64) (name : String) :
    generated <+: sanitizePasteName nanos name ↔
      spelled name = [] ∨ generated <+: spelled name := by
  have hlen : generated.length ≤ 200 := by decide
  rw [sanitizePasteName_spelled]
  by_cases hnil : spelled name = []
  · rw [if_pos hnil]
    exact iff_of_true (List.prefix_append _ _) (.inl hnil)
  · rw [if_neg hnil, List.prefix_take_iff, and_iff_left hlen, begins_cleaned, or_iff_right hnil]

/-- Every file that can be created for a browser's name is swept once it is old, exactly when
the name itself begins as the generated ones do or nothing is left of it. -/
theorem old_files_swept_iff (name : String) :
    (∀ (env : PasteEnv) (dir path : Bytes), openPasteFile env dir name = .ok path →
      Swept dir path) ↔ spelled name = [] ∨ generated <+: spelled name := by
  have hdot : '.' ∉ generated := by decide
  constructor
  · intro hswept
    have hfree := hswept _ [] _ (openPasteFile_free 0 [] name)
    have hbegins := (swept_iff (plain_sanitizePasteName 0 name)).mp hfree
    exact (begins_sanitizePasteName 0 name).mp hbegins
  · intro hspelled env dir path hok
    obtain ⟨n,hn,rfl⟩ := created_of_ok hok
    have hbegins := (begins_sanitizePasteName env.nanos name).mpr hspelled
    exact (swept_iff (plain_of_mem_names hn).1).mpr (prefix_names hdot hbegins hn)

def pasteDir : Bytes := asBytes "/run/user/1000/term-agent/paste"

/-- A file that keeps the browser's own name is never swept. -/
theorem old_file_stays : ¬ ∀ (name : String) (env : PasteEnv) (dir path : Bytes),
    openPasteFile env dir name = .ok path → Swept dir path := by
  intro hclaim
  have hfree := hclaim "a.txt" _ _ _ (openPasteFile_free 0 pasteDir "a.txt")
  have hbegins := (swept_iff (plain_sanitizePasteName 0 "a.txt")).mp hfree
  revert hbegins
  decide

end Term.PasteSweep
