import TermMux.PasteFileNames
import TermMux.PasteUpload

/-!
# Pasted paths as words

`paste_root` and the text that `inject_paste_paths` types, against a reader that splits
at unquoted blanks. The names are sanitised but the directory is not: only the plain
style quotes a path with a blank, and no style escapes a quote.
-/

set_option autoImplicit false

namespace Term.PastePaths
open Term.ByteOrder Term.PasteNames Term.PasteFileNames Term.PasteUpload Term.Utf8Text

inductive Environment where
  | unix (xdgRuntimeDir : Option Bytes) (euid : ℕ)
  | windows (localAppData temp : Option Bytes)
  deriving DecidableEq, Repr

/-- A prefix such as `C:` and nothing behind it. -/
def isDrive (dir : Bytes) : Bool :=
  match dir with
  | [letter,colon] => (Char.ofNat letter.toNat).isAlpha && colon == 0x3A
  | _ => false

def joinWindows (dir : Bytes) (name : Name) : Bytes :=
  if dir = [] ∨ dir.getLast? = some 0x5C ∨ dir.getLast? = some 0x2F ∨ isDrive dir then
    dir++nameBytes name
  else dir++0x5C::nameBytes name

namespace Environment

def join : Environment → Bytes → Name → Bytes
  | .unix _ _ => PasteNames.join
  | .windows _ _ => joinWindows

def pasteRoot (env : Environment) : Bytes :=
  match env with
  | .unix (some rt) _ => env.join (env.join rt "term-agent".toList) "paste".toList
  | .unix none uid =>
    env.join (asBytes "/tmp/term-agent-"++nameBytes (Nat.toDigits 10 uid)) "paste".toList
  | .windows (some lad) _ => env.join (env.join lad "term-agent".toList) "paste".toList
  | .windows none (some tmp) => env.join (env.join tmp "term-agent".toList) "paste".toList
  | .windows none none => asBytes "C:\\Windows\\Temp\\term-agent\\paste"

def designated : Environment → Bytes
  | .unix xdgRuntimeDir _ => xdgRuntimeDir.getD []
  | .windows (some lad) _ => lad
  | .windows none temp => temp.getD []

end Environment

def blank (b : UInt8) : Bool := b == 0x20 || b == 0x09

/-- The words of a text, cut at unquoted blanks and without their quotes. `word` is the
word that has begun. -/
def wordsFrom (inQuotes : Bool) (word : Option Bytes) : Bytes → List Bytes
  | [] => word.toList
  | b::text =>
    if b = 0x22 then wordsFrom (!inQuotes) (some (word.getD [])) text
    else if blank b && !inQuotes then word.toList++wordsFrom false none text
    else wordsFrom inQuotes (some (word.getD []++[b])) text

def split (text : Bytes) : List Bytes := wordsFrom false none text

def unmarked (style : PasteStyle) (text : Bytes) : Bytes :=
  match style with
  | .bracketed => (text.drop 6).take (text.length-12)
  | .plain => text

/-- No byte is taken for a quote or, where the style quotes nothing, for a blank. -/
def Whole (style : PasteStyle) (path : Bytes) : Prop :=
  0x22 ∉ path ∧ (style = .bracketed → ∀ b ∈ path, blank b = false)

/-- A reader of the typed text gets the paths back. -/
def Separable (style : PasteStyle) (paths : List Bytes) : Prop :=
  split (unmarked style (pasteSequence style paths)) = paths

/-! ## Reading words -/

theorem wordsFrom_unquoted {w : Bytes} (hq : 0x22 ∉ w) (hb : ∀ b ∈ w, blank b = false)
    (acc rest : Bytes) : wordsFrom false (some acc) (w++rest) =
      wordsFrom false (some (acc++w)) rest := by
  induction w generalizing acc with
  | nil => rw [List.append_nil, List.nil_append]
  | cons b w ih =>
    have hne : b ≠ 0x22 := fun h => hq (h ▸ List.mem_cons_self)
    have hblank := hb b List.mem_cons_self
    rw [List.cons_append, wordsFrom, if_neg hne, hblank]
    simp only [Bool.false_and, Bool.false_eq_true, if_false, Option.getD_some]
    rw [ih (fun h => hq (List.mem_cons_of_mem _ h)) fun c hc => hb c (List.mem_cons_of_mem _ hc)]
    rw [List.append_assoc, List.singleton_append]

theorem wordsFrom_quoted {w : Bytes} (hq : 0x22 ∉ w) (acc rest : Bytes) :
    wordsFrom true (some acc) (w++rest) = wordsFrom true (some (acc++w)) rest := by
  induction w generalizing acc with
  | nil => rw [List.append_nil, List.nil_append]
  | cons b w ih =>
    have hne : b ≠ 0x22 := fun h => hq (h ▸ List.mem_cons_self)
    rw [List.cons_append, wordsFrom, if_neg hne]
    simp only [Bool.not_true, Bool.and_false, Bool.false_eq_true, if_false, Option.getD_some]
    rw [ih fun h => hq (List.mem_cons_of_mem _ h)]
    rw [List.append_assoc, List.singleton_append]

theorem wordsFrom_quote (q : Bool) (word : Option Bytes) (rest : Bytes) :
    wordsFrom q word (0x22::rest) = wordsFrom (!q) (some (word.getD [])) rest := by
  rw [wordsFrom, if_pos rfl]

theorem wordsFrom_blank (word : Option Bytes) (rest : Bytes) :
    wordsFrom false word (0x20::rest) = word.toList++wordsFrom false none rest := by
  rw [wordsFrom, if_neg (by decide), if_pos (by decide)]

def typed (style : PasteStyle) (path : Bytes) : Bytes :=
  match style with
  | .bracketed => path
  | .plain => quoted path

theorem wordsFrom_plain {path : Bytes} (hne : path ≠ []) (hq : 0x22 ∉ path)
    (hb : ∀ b ∈ path, blank b = false) (rest : Bytes) :
    wordsFrom false none (path++0x20::rest) = path::wordsFrom false none rest := by
  cases path with
  | nil => exact absurd rfl hne
  | cons b w =>
    have hbegin : wordsFrom false none (b::w++0x20::rest) =
        wordsFrom false (some []) (b::w++0x20::rest) := by
      have hblank := hb b List.mem_cons_self
      rw [List.cons_append, wordsFrom, wordsFrom, hblank]
      rfl
    rw [hbegin, wordsFrom_unquoted hq hb, wordsFrom_blank]
    rfl

theorem wordsFrom_typed {style : PasteStyle} {path : Bytes} (hne : path ≠ [])
    (h : Whole style path) (rest : Bytes) :
    wordsFrom false none (typed style path++0x20::rest) = path::wordsFrom false none rest := by
  obtain ⟨hq,hb⟩ := h
  cases style with
  | bracketed => exact wordsFrom_plain hne hq (hb rfl) rest
  | plain =>
    change wordsFrom false none (quoted path++0x20::rest) = _
    unfold quoted
    split_ifs with hblanks
    · rw [List.cons_append, List.cons_append, wordsFrom_quote, List.append_assoc, Bool.not_false]
      rw [wordsFrom_quoted hq, List.singleton_append, wordsFrom_quote, Bool.not_true]
      rw [wordsFrom_blank]
      rfl
    · refine wordsFrom_plain hne hq (fun b hbmem => ?_) rest
      rw [List.any_eq_true, not_exists] at hblanks
      exact Bool.eq_false_iff.mpr fun hblank => hblanks b ⟨hbmem,hblank⟩

theorem intercalate_space (paths : List Bytes) (hne : paths ≠ []) :
    List.intercalate [0x20] paths++[0x20] = paths.flatMap fun path => path++[0x20] := by
  induction paths with
  | nil => exact absurd rfl hne
  | cons path paths ih =>
    cases paths with
    | nil => simp
    | cons next paths =>
      rw [List.intercalate_cons_cons, List.append_assoc, ih (List.cons_ne_nil _ _)]
      simp

/-- Between the markers there are the typed paths, with a blank behind each. -/
theorem unmarked_pasteSequence (style : PasteStyle) (paths : List Bytes) :
    unmarked style (pasteSequence style paths) =
      List.intercalate [0x20] (paths.map (typed style))++[0x20] := by
  cases style with
  | plain => rfl
  | bracketed =>
    have hid : paths.map (typed .bracketed) = paths := List.map_id _
    generalize hbody : List.intercalate [0x20] paths = body
    have hseq : pasteSequence .bracketed paths = pasteStart++(body++pasteStop) := by
      rw [← hbody, ← List.append_assoc]
      rfl
    have hlen : (pasteStart++(body++pasteStop)).length-12 = body.length+1 := by
      simp [pasteStart, pasteStop]
    rw [hid, hbody, hseq, unmarked, hlen]
    change List.take (body.length+1) (body++pasteStop) = _
    rw [List.take_length_add_append]
    rfl

theorem split_flatMap {style : PasteStyle} {paths : List Bytes}
    (h : ∀ path ∈ paths, path ≠ [] ∧ Whole style path) :
    split ((paths.map (typed style)).flatMap fun path => path++[0x20]) = paths := by
  induction paths with
  | nil => rfl
  | cons path paths ih =>
    obtain ⟨⟨hne,hwhole⟩,hrest⟩ := List.forall_mem_cons.mp h
    rw [List.map_cons, List.flatMap_cons, split, List.append_assoc, List.singleton_append]
    rw [wordsFrom_typed hne hwhole]
    exact congrArg (path::·) (ih hrest)

theorem separable_of {style : PasteStyle} {paths : List Bytes}
    (h : ∀ path ∈ paths, path ≠ [] ∧ Whole style path) : Separable style paths := by
  unfold Separable
  rw [unmarked_pasteSequence]
  cases paths with
  | nil => rfl
  | cons path paths =>
    rw [intercalate_space _ (by simp)]
    exact split_flatMap h

/-! ## What a reader can get -/

theorem quote_notMem {q : Bool} {word : Option Bytes} {text : Bytes}
    (hword : ∀ w ∈ word, 0x22 ∉ w) : ∀ w ∈ wordsFrom q word text, 0x22 ∉ w := by
  induction text generalizing q word with
  | nil => simpa [wordsFrom] using hword
  | cons b text ih =>
    have hgot : 0x22 ∉ word.getD [] := by
      cases word with
      | none => simp
      | some w => exact hword w rfl
    rw [wordsFrom]
    split_ifs with hb hblank
    · exact ih (by simpa using hgot)
    · intro w hw
      rcases List.mem_append.mp hw with hold | hnew
      · exact hword w (Option.mem_toList.mp hold)
      · exact ih (by simp) w hnew
    · refine ih ?_
      simp [hgot, Ne.symm hb]

/-- In a text without quotes every blank cuts. -/
theorem blank_notMem {word : Option Bytes} {text : Bytes} (htext : 0x22 ∉ text)
    (hword : ∀ w ∈ word, ∀ b ∈ w, blank b = false) :
    ∀ w ∈ wordsFrom false word text, ∀ b ∈ w, blank b = false := by
  induction text generalizing word with
  | nil => simpa [wordsFrom] using hword
  | cons b text ih =>
    rw [List.mem_cons, not_or] at htext
    have hgot : ∀ c ∈ word.getD [], blank c = false := by
      cases word with
      | none => simp
      | some w => exact hword w rfl
    rw [wordsFrom, if_neg (Ne.symm htext.1)]
    cases hblank : blank b with
    | true =>
      intro w hw
      rcases List.mem_append.mp hw with hold | hnew
      · exact hword w (Option.mem_toList.mp hold)
      · exact ih htext.2 (by simp) w hnew
    | false =>
      refine ih htext.2 ?_
      intro w hw c hc
      cases hw
      rcases List.mem_append.mp hc with hold | hnew
      · exact hgot c hold
      · rw [List.mem_singleton.mp hnew]
        exact hblank

/-- What is typed reads back as the paths exactly when each path is read as one word. -/
theorem separable_iff {style : PasteStyle} {paths : List Bytes} (hne : ∀ path ∈ paths, path ≠ []) :
    Separable style paths ↔ ∀ path ∈ paths, Whole style path := by
  constructor
  · intro hsep path hpath
    have hwords : ∀ p ∈ paths, 0x22 ∉ p := by
      rw [← hsep]
      exact quote_notMem (by simp)
    refine ⟨hwords path hpath,?_⟩
    rintro rfl
    have htext : 0x22 ∉ unmarked .bracketed (pasteSequence .bracketed paths) := by
      rw [unmarked_pasteSequence, intercalate_space _ (by simpa using List.ne_nil_of_mem hpath)]
      intro hmem
      obtain ⟨_,htyped,hquote⟩ := List.mem_flatMap.mp hmem
      obtain ⟨p,hp,rfl⟩ := List.mem_map.mp htyped
      rcases List.mem_append.mp hquote with hold | hspace
      · exact hwords p hp hold
      · exact absurd (List.mem_singleton.mp hspace) (by decide)
    have hall : ∀ p ∈ paths, ∀ b ∈ p, blank b = false := by
      rw [← hsep]
      exact blank_notMem htext (by simp)
    exact hall path hpath
  · intro h
    exact separable_of fun path hpath => ⟨hne path hpath,h path hpath⟩

/-! ## The directory -/

theorem nameBytes_ne_nil {n : Name} (h : Plain n) : nameBytes n ≠ [] := by
  cases n with
  | nil => exact absurd rfl h.ne_nil
  | cons c n =>
    rw [nameBytes_cons (safeChar_toNat (h.safe c List.mem_cons_self)).2]
    exact List.cons_ne_nil _ _

theorem join_eq (env : Environment) (dir : Bytes) {n : Name} (h : Safe n) :
    ∃ sep : Bytes, (∀ b ∈ sep, b = 0x2F ∨ b = 0x5C) ∧
      env.join dir n = dir++(sep++nameBytes n) := by
  cases env with
  | unix =>
    have hjoin : PasteNames.join dir n = _ := join_eq_child h
    unfold child at hjoin
    split_ifs at hjoin
    · exact ⟨[],by simp,hjoin⟩
    · exact ⟨[0x2F],by simp,hjoin⟩
  | windows =>
    change ∃ sep : Bytes, _ ∧ joinWindows dir n = _
    unfold joinWindows
    split_ifs
    · exact ⟨[],by simp,rfl⟩
    · exact ⟨[0x5C],by simp,rfl⟩

/-- The bytes that split words are below those of separators and names. -/
theorem mem_join {env : Environment} {dir : Bytes} {n : Name} {b : UInt8} (hb : b.toNat < 45)
    (h : Safe n) : b ∈ env.join dir n ↔ b ∈ dir := by
  obtain ⟨sep,hsep,heq⟩ := join_eq env dir h
  rw [heq]
  constructor
  · intro hmem
    rcases List.mem_append.mp hmem with hdir | hrest
    · exact hdir
    · exfalso
      rcases List.mem_append.mp hrest with hs | hn
      · rcases hsep b hs with rfl | rfl <;> simp at hb
      · obtain ⟨c,hc,hbyte⟩ := mem_nameBytes h hn
        have hle := (safeChar_toNat (h c hc)).1
        omega
  · exact List.mem_append_left _

theorem safe_component : Safe "term-agent".toList ∧ Safe "paste".toList := by
  have hall : "term-agent".toList.all safeChar = true ∧ "paste".toList.all safeChar = true := by
    decide
  exact ⟨List.all_eq_true.mp hall.1,List.all_eq_true.mp hall.2⟩

theorem mem_pasteRoot {env : Environment} {b : UInt8} (hb : b.toNat < 45) :
    b ∈ env.pasteRoot ↔ b ∈ env.designated := by
  obtain ⟨hagent,hpaste⟩ := safe_component
  cases env with
  | unix xdgRuntimeDir euid =>
    cases xdgRuntimeDir with
    | some rt =>
      rw [Environment.pasteRoot, mem_join hb hpaste, mem_join hb hagent]
      rfl
    | none =>
      have htmp : (asBytes "/tmp/term-agent-").all (fun c => 45 ≤ c.toNat) = true := by decide
      rw [Environment.pasteRoot, mem_join hb hpaste]
      refine iff_of_false ?_ List.not_mem_nil
      intro hmem
      rcases List.mem_append.mp hmem with hbuiltin | hdigits
      · have hle := List.all_eq_true.mp htmp b hbuiltin
        simp only [decide_eq_true_eq] at hle
        omega
      · obtain ⟨c,hc,hbyte⟩ := mem_nameBytes (safe_toDigits (by decide) (by decide) _) hdigits
        have hle := (safeChar_toNat (safe_toDigits (by decide) (by decide) _ c hc)).1
        omega
  | windows localAppData temp =>
    cases localAppData with
    | some lad =>
      rw [Environment.pasteRoot, mem_join hb hpaste, mem_join hb hagent]
      rfl
    | none =>
      cases temp with
      | some tmp =>
        rw [Environment.pasteRoot, mem_join hb hpaste, mem_join hb hagent]
        rfl
      | none =>
        have hwindows : (asBytes "C:\\Windows\\Temp\\term-agent\\paste").all
            (fun c => 45 ≤ c.toNat) = true := by decide
        refine iff_of_false ?_ List.not_mem_nil
        intro hmem
        have hle := List.all_eq_true.mp hwindows b hmem
        simp only [decide_eq_true_eq] at hle
        omega

def pastedPaths (env : Environment) (names : List Name) : List Bytes :=
  names.map (env.join env.pasteRoot)

theorem pastedPaths_ne_nil {env : Environment} {names : List Name} (h : ∀ n ∈ names, Plain n) :
    ∀ path ∈ pastedPaths env names, path ≠ [] := by
  intro path hpath
  obtain ⟨n,hn,rfl⟩ := List.mem_map.mp hpath
  obtain ⟨sep,-,heq⟩ := join_eq env env.pasteRoot (h n hn).safe
  rw [heq]
  simp [nameBytes_ne_nil (h n hn)]

theorem whole_congr {style : PasteStyle} {a b : Bytes}
    (h : ∀ c : UInt8, c.toNat < 45 → (c ∈ a ↔ c ∈ b)) : Whole style a ↔ Whole style b := by
  have hquote : 0x22 ∈ a ↔ 0x22 ∈ b := h 0x22 (by decide)
  have hblank : (∀ c ∈ a, blank c = false) ↔ ∀ c ∈ b, blank c = false := by
    refine forall_congr' fun c => ?_
    cases hc : blank c with
    | false => simp
    | true =>
      have hlow : c.toNat < 45 := by
        simp only [blank, Bool.or_eq_true, beq_iff_eq] at hc
        rcases hc with rfl | rfl <;> decide
      rw [h c hlow]
  unfold Whole
  rw [hquote, hblank]

theorem whole_join (env : Environment) (style : PasteStyle) {n : Name} (h : Safe n) :
    Whole style (env.join env.pasteRoot n) ↔ Whole style env.designated :=
  whole_congr fun _ hc => (mem_join hc h).trans (mem_pasteRoot hc)

/-- What is typed for sanitised names reads back as their paths exactly when the variable that
designates the directory has no quote and, in the style that quotes nothing, no blank. -/
theorem paths_separable_iff (env : Environment) (style : PasteStyle) (names : List Name)
    (h : ∀ n ∈ names, Plain n) : Separable style (pastedPaths env names) ↔
      names = [] ∨ (0x22 ∉ env.designated ∧
        (style = .bracketed → ∀ b ∈ env.designated, blank b = false)) := by
  rw [separable_iff (pastedPaths_ne_nil h), pastedPaths, List.forall_mem_map]
  cases names with
  | nil => simp
  | cons n names =>
    rw [or_iff_right (List.cons_ne_nil _ _)]
    constructor
    · intro hall
      exact (whole_join env style (h n List.mem_cons_self).safe).mp (hall n List.mem_cons_self)
    · intro hdir m hm
      exact (whole_join env style (h m hm).safe).mpr hdir

theorem plain_sanitized (nanos : UInt64) (input : String) :
    ∀ n ∈ [sanitizePasteName nanos input], Plain n := by
  intro n hn
  rw [List.mem_singleton.mp hn]
  exact plain_sanitizePasteName nanos input

/-- The file `a.txt` under an ordinary `XDG_RUNTIME_DIR`. -/
theorem paths_separable_user : Separable .bracketed
    (pastedPaths (.unix (some (asBytes "/run/user/1000")) 1000) [sanitizePasteName 0 "a.txt"]) := by
  have hdir : (asBytes "/run/user/1000").all (fun b => !blank b) = true := by decide
  refine (paths_separable_iff _ _ _ (plain_sanitized 0 "a.txt")).mpr (.inr ⟨by decide,fun _ b hb => ?_⟩)
  simpa using List.all_eq_true.mp hdir b hb

/-- A blank in `XDG_RUNTIME_DIR` cuts the paths of the bracketed style. -/
theorem path_cut : ¬ ∀ (env : Environment) (style : PasteStyle) (names : List Name),
    (∀ n ∈ names, Plain n) → Separable style (pastedPaths env names) := by
  intro hclaim
  have hplain := plain_sanitized 0 "a.txt"
  have hsep := hclaim (.unix (some (asBytes "/run/my user")) 1000) .bracketed _ hplain
  have hpath := (separable_iff (pastedPaths_ne_nil hplain)).mp hsep _ List.mem_cons_self
  have hdir := (whole_join _ _ (safe_sanitizePasteName 0 "a.txt")).mp hpath
  have hblank : 0x20 ∈ asBytes "/run/my user" := by decide
  exact absurd (hdir.2 rfl _ hblank) (by decide)

end Term.PastePaths
