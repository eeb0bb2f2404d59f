import Mathlib
import TermMux.Utf8Text

/-!
# Names of pasted files

`sanitize_paste_name`, `split_ext` and the candidates that `open_paste_file`
tries. The browser's name is reduced to its last path component and to the
characters `[A-Za-z0-9._-]`; a file is then created under the first candidate
that does not exist. The file system answers as an environment.
-/

set_option autoImplicit false

namespace Term.PasteNames
open Term.ByteOrder Term.Utf8Text

abbrev Name := List Char

def safeChar (c : Char) : Bool := c.isAlphanum || c == '.' || c == '_' || c == '-'

/-- `Path::file_name` on Unix: empty and `.` components do not count. -/
def fileName (path : Name) : Option Name :=
  match ((path.splitOn '/').filter fun c => c ≠ [] ∧ c ≠ ['.']).getLast? with
  | none => none
  | some c => if c = ['.','.'] then none else some c

/-- `{nanos:016x}`. -/
def hex16 (nanos : UInt64) : Name := List.leftpad 16 '0' (Nat.toDigits 16 nanos.toNat)

def sanitizePasteName (nanos : UInt64) (input : String) : Name :=
  let basename := (fileName input.toList).getD []
  let cleaned := basename.map fun c => if safeChar c then c else '_'
  let trimmed := cleaned.dropWhile fun c => c = '.' ∨ c = '-'
  let truncated := trimmed.take 200
  if truncated = [] then "term-paste-".toList++hex16 nanos else truncated

/-- `rsplit_once`. -/
def rsplitOnce (c : Char) (name : Name) : Option (Name × Name) :=
  match name.reverse.dropWhile (· ≠ c) with
  | [] => none
  | _::rest => some (rest.reverse,(name.reverse.takeWhile (· ≠ c)).reverse)

def splitExt (name : Name) : Name × Name :=
  match rsplitOnce '.' name with
  | some (stem,ext) => if stem ≠ [] ∧ ext ≠ [] then (stem,ext) else (name,[])
  | none => (name,[])

def suffixed (stem ext suffix : Name) : Name :=
  if ext = [] then stem++ '-'::suffix else stem++ '-'::suffix++ '.'::ext

def candidate (base stem ext : Name) (i : ℕ) : Name :=
  if i = 0 then base else suffixed stem ext (Nat.toDigits 10 i)

def nameBytes (name : Name) : Bytes := asBytes (String.ofList name)

/-- `Path::join` on Unix. -/
def join (dir : Bytes) (name : Name) : Bytes :=
  if name.head? = some '/' then nameBytes name
  else if dir = [] ∨ dir.getLast? = some 0x2F then dir++nameBytes name
  else dir++0x2F::nameBytes name

inductive OpenOutcome where
  | created | alreadyExists | failed
  deriving DecidableEq, Repr

inductive PasteOpenError where
  | dir
  | creating (path : Bytes)
  | fallback (path : Bytes)
  deriving DecidableEq, Repr

/-- What the clock and the file system answer while one paste file is opened. -/
structure PasteEnv where
  dirReady : Bool
  nanos : UInt64
  fallbackNanos : UInt64
  opened : Bytes → OpenOutcome

/-- The loop over candidates; `none` when all of them exist. -/
def tryOpen (opened : Bytes → OpenOutcome) (dir : Bytes) :
    List Name → Option (Except PasteOpenError Bytes)
  | [] => none
  | name::rest =>
    match opened (join dir name) with
    | .created => some (.ok (join dir name))
    | .alreadyExists => tryOpen opened dir rest
    | .failed => some (.error (.creating (join dir name)))

def openPasteFile (env : PasteEnv) (dir : Bytes) (name : String) : Except PasteOpenError Bytes :=
  if env.dirReady = false then .error .dir else
  let base := sanitizePasteName env.nanos name
  let (stem,ext) := splitExt base
  match tryOpen env.opened dir ((List.range 1024).map (candidate base stem ext)) with
  | some result => result
  | none =>
    let path := join dir (suffixed stem ext (hex16 env.fallbackNanos))
    match env.opened path with
    | .created => .ok path
    | _ => .error (.fallback path)

def Safe (name : Name) : Prop := ∀ c ∈ name, safeChar c = true

theorem Safe.append {a b : Name} (ha : Safe a) (hb : Safe b) : Safe (a++b) :=
  List.forall_mem_append.mpr ⟨ha,hb⟩

theorem Safe.cons {c : Char} {a : Name} (hc : safeChar c = true) (ha : Safe a) : Safe (c::a) :=
  List.forall_mem_cons.mpr ⟨hc,ha⟩

theorem Safe.of_subset {a b : Name} (h : Safe b) (hsub : a ⊆ b) : Safe a :=
  fun c hc => h c (hsub hc)

theorem safeChar_digitChar {d : ℕ} (h : d < 16) : safeChar (Nat.digitChar d) = true := by
  interval_cases d <;> decide

theorem safe_toDigits {b : ℕ} (hb : 1 < b) (hb16 : b ≤ 16) (n : ℕ) : Safe (Nat.toDigits b n) := by
  induction n using Nat.strong_induction_on with
  | _ n ih =>
    rw [Nat.toDigits_eq_if hb]
    by_cases hn : n < b
    · rw [if_pos hn]
      exact Safe.cons (safeChar_digitChar (by omega)) nofun
    · rw [if_neg hn]
      have hdiv : n/b < n := Nat.div_lt_self (by omega) hb
      have hmod : n%b < b := Nat.mod_lt n (by omega)
      exact (ih (n/b) hdiv).append (Safe.cons (safeChar_digitChar (by omega)) nofun)

theorem safe_hex16 (nanos : UInt64) : Safe (hex16 nanos) := by
  unfold hex16 List.leftpad
  refine Safe.append ?_ (safe_toDigits (by decide) (by decide) _)
  intro c hc
  rw [List.eq_of_mem_replicate hc]
  decide

theorem safe_sanitizePasteName (nanos : UInt64) (input : String) :
    Safe (sanitizePasteName nanos input) := by
  unfold sanitizePasteName
  have hclean : ∀ basename : Name,
      Safe (basename.map fun c => if safeChar c = true then c else '_') := by
    intro basename c hc
    obtain ⟨d,-,rfl⟩ := List.mem_map.mp hc
    by_cases hd : safeChar d = true
    · rw [if_pos hd]
      exact hd
    · rw [if_neg hd]
      decide
  dsimp only
  split_ifs
  · refine Safe.append ?_ (safe_hex16 nanos)
    have hprefix : "term-paste-".toList.all safeChar = true := by decide
    exact List.all_eq_true.mp hprefix
  · apply (hclean ((fileName input.toList).getD [])).of_subset
    exact List.Subset.trans (List.take_subset _ _) (List.dropWhile_sublist _).subset

theorem safe_splitExt {name : Name} (h : Safe name) :
    Safe (splitExt name).1 ∧ Safe (splitExt name).2 := by
  unfold splitExt rsplitOnce
  have hrev : name.reverse.takeWhile (· ≠ '.') ⊆ name := by
    intro c hc
    exact List.mem_reverse.mp ((List.takeWhile_sublist _).subset hc)
  cases hd : name.reverse.dropWhile (· ≠ '.') with
  | nil => exact ⟨h,nofun⟩
  | cons c rest =>
    dsimp only
    split_ifs
    · refine ⟨h.of_subset ?_,h.of_subset ?_⟩
      · intro d hmem
        apply List.mem_reverse.mp
        apply (List.dropWhile_sublist (· ≠ '.')).subset
        rw [hd]
        exact List.mem_cons_of_mem _ (List.mem_reverse.mp hmem)
      · intro d hmem
        exact hrev (List.mem_reverse.mp hmem)
    · exact ⟨h,nofun⟩

theorem safe_suffixed {stem ext suffix : Name} (hs : Safe stem) (he : Safe ext)
    (hx : Safe suffix) : Safe (suffixed stem ext suffix) := by
  unfold suffixed
  split_ifs
  · exact hs.append (Safe.cons (by decide) hx)
  · exact (hs.append (Safe.cons (by decide) hx)).append (Safe.cons (by decide) he)

theorem safe_candidate {base stem ext : Name} (hb : Safe base) (hs : Safe stem) (he : Safe ext)
    (i : ℕ) : Safe (candidate base stem ext i) := by
  unfold candidate
  split_ifs
  · exact hb
  · exact safe_suffixed hs he (safe_toDigits (by decide) (by decide) i)

theorem tryOpen_eq_ok {opened : Bytes → OpenOutcome} {dir path : Bytes} {names : List Name}
    (h : tryOpen opened dir names = some (.ok path)) :
    opened path = .created ∧ ∃ name ∈ names, path = join dir name := by
  induction names with
  | nil => cases h
  | cons name rest ih =>
    unfold tryOpen at h
    cases ho : opened (join dir name) with
    | created =>
      simp only [ho, Option.some.injEq, Except.ok.injEq] at h
      subst h
      exact ⟨ho,name,List.mem_cons_self,rfl⟩
    | alreadyExists =>
      simp only [ho] at h
      obtain ⟨hcreated,found,hmem,heq⟩ := ih h
      exact ⟨hcreated,found,List.mem_cons_of_mem _ hmem,heq⟩
    | failed => simp [ho] at h

/-- The file system has created the file whose path is returned, in the paste directory and
under a safe name. -/
theorem openPasteFile_eq_ok {env : PasteEnv} {dir path : Bytes} {name : String}
    (h : openPasteFile env dir name = .ok path) :
    env.opened path = .created ∧ ∃ safe, Safe safe ∧ path = join dir safe := by
  unfold openPasteFile at h
  have hbase := safe_sanitizePasteName env.nanos name
  have hext := safe_splitExt hbase
  by_cases hdir : env.dirReady = false
  · simp [hdir] at h
  · simp only [if_neg hdir] at h
    split at h
    · next result htry =>
      subst h
      obtain ⟨hcreated,found,hmem,heq⟩ := tryOpen_eq_ok htry
      obtain ⟨i,-,rfl⟩ := List.mem_map.mp hmem
      exact ⟨hcreated,_,safe_candidate hbase hext.1 hext.2 i,heq⟩
    · next htry =>
      split at h
      · next hopened =>
        cases h
        exact ⟨hopened,_,safe_suffixed hext.1 hext.2 (safe_hex16 _),rfl⟩
      · cases h

def NoEnter (b : Bytes) : Prop := ∀ x ∈ b, x ≠ 0x0D ∧ x ≠ 0x0A

instance (b : Bytes) : Decidable (NoEnter b) := inferInstanceAs (Decidable (∀ x ∈ b, _))

theorem NoEnter.append {a b : Bytes} (ha : NoEnter a) (hb : NoEnter b) : NoEnter (a++b) :=
  List.forall_mem_append.mpr ⟨ha,hb⟩

theorem NoEnter.cons {x : UInt8} {b : Bytes} (hx : x ≠ 0x0D ∧ x ≠ 0x0A) (hb : NoEnter b) :
    NoEnter (x::b) :=
  List.forall_mem_cons.mpr ⟨hx,hb⟩

theorem safeChar_toNat {c : Char} (h : safeChar c = true) : 45 ≤ c.toNat ∧ c.toNat < 128 := by
  simp only [safeChar, Char.isAlphanum, Char.isAlpha, Char.isUpper, Char.isLower, Char.isDigit,
    Bool.or_eq_true, Bool.and_eq_true, decide_eq_true_eq, beq_iff_eq] at h
  simp only [ge_iff_le, UInt32.le_iff_toNat_le] at h
  change (((((65 ≤ c.toNat ∧ c.toNat ≤ 90) ∨ (97 ≤ c.toNat ∧ c.toNat ≤ 122)) ∨
    (48 ≤ c.toNat ∧ c.toNat ≤ 57)) ∨ c = '.') ∨ c = '_') ∨ c = '-' at h
  rcases h with (((((h | h) | h) | h) | h) | h)
  · omega
  · omega
  · omega
  · rw [h]
    decide
  · rw [h]
    decide
  · rw [h]
    decide

theorem toNat_ofNat_char {c : Char} (h : c.toNat < 128) :
    (UInt8.ofNat c.toNat).toNat = c.toNat := by
  rw [UInt8.toNat_ofNat', Nat.mod_eq_of_lt (by omega)]

theorem utf8EncodeChar_of_lt {c : Char} (h : c.toNat < 128) :
    String.utf8EncodeChar c = [UInt8.ofNat c.toNat] := by
  have hx := toNat_ofNat_char h
  have hc : Char.ofNat (UInt8.ofNat c.toNat).toNat = c := by
    rw [hx]
    exact Char.ofNat_toNat c
  rw [← utf8EncodeChar_ascii, hc]
  rw [UInt8.lt_iff_toNat_lt, hx]
  exact h

theorem nameBytes_cons {c : Char} (h : c.toNat < 128) (name : Name) :
    nameBytes (c::name) = UInt8.ofNat c.toNat::nameBytes name := by
  simp only [nameBytes, asBytes, String.toByteArray_ofList]
  rw [List.utf8Encode_cons, List.utf8Encode_singleton, utf8EncodeChar_of_lt h,
    ByteArray.data_append, Array.toList_append]
  simp

theorem mem_nameBytes {name : Name} (h : Safe name) {b : UInt8} (hb : b ∈ nameBytes name) :
    ∃ c ∈ name, b.toNat = c.toNat := by
  induction name with
  | nil => cases hb
  | cons c name ih =>
    have hc := safeChar_toNat (h c List.mem_cons_self)
    rw [nameBytes_cons hc.2] at hb
    rcases List.mem_cons.mp hb with rfl | hrest
    · exact ⟨c,List.mem_cons_self,toNat_ofNat_char hc.2⟩
    · obtain ⟨d,hd,hbd⟩ := ih (fun d hd => h d (List.mem_cons_of_mem _ hd)) hrest
      exact ⟨d,List.mem_cons_of_mem _ hd,hbd⟩

theorem noEnter_nameBytes {name : Name} (h : Safe name) : NoEnter (nameBytes name) := by
  intro b hb
  obtain ⟨c,hc,hbc⟩ := mem_nameBytes h hb
  have hle := (safeChar_toNat (h c hc)).1
  constructor <;>
  · rintro rfl
    simp at hbc
    omega

theorem noEnter_join {dir : Bytes} {name : Name} (hd : NoEnter dir) (hn : Safe name) :
    NoEnter (join dir name) := by
  have hb := noEnter_nameBytes hn
  unfold join
  split_ifs
  · exact hb
  · exact hd.append hb
  · exact hd.append (NoEnter.cons (by decide) hb)

/-- A pasted file's path presses Enter only if its directory does. -/
theorem openPasteFile_noEnter {env : PasteEnv} {dir path : Bytes} {name : String}
    (hd : NoEnter dir) (h : openPasteFile env dir name = .ok path) : NoEnter path := by
  obtain ⟨-,safe,hsafe,rfl⟩ := openPasteFile_eq_ok h
  exact noEnter_join hd hsafe

end Term.PasteNames
