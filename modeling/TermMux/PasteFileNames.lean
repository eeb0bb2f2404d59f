import TermMux.PasteNames

/-!
# The names that are tried for a pasted file

A call of `open_paste_file` goes through a list of names and stops at the first that
does not exist. Each of them stays in the paste directory, is not hidden and is tried
once, whatever the browser sent.
-/

set_option autoImplicit false

namespace Term.PasteFileNames
open Term.ByteOrder Term.PasteNames Term.Utf8Text

def names (env : PasteEnv) (name : String) : List Name :=
  let base := sanitizePasteName env.nanos name
  (List.range 1024).map (candidate base (splitExt base).1 (splitExt base).2)++
    [suffixed (splitExt base).1 (splitExt base).2 (hex16 env.fallbackNanos)]

def untilFree (opened : Bytes → OpenOutcome) (dir : Bytes) : List Name → List Name
  | [] => []
  | name::rest =>
    name::(if opened (join dir name) = .alreadyExists then untilFree opened dir rest else [])

def triedPaths (env : PasteEnv) (dir : Bytes) (name : String) : List Bytes :=
  if env.dirReady = false then []
  else (untilFree env.opened dir (names env name)).map (join dir)

def child (dir file : Bytes) : Bytes :=
  if dir = [] ∨ dir.getLast? = some 0x2F then dir++file else dir++0x2F::file

structure Plain (n : Name) : Prop where
  ne_nil : n ≠ []
  safe : Safe n
  shown : n.head? ≠ some '.'
  operand : n.head? ≠ some '-'

/-! ## Parts of a name -/

theorem head?_dropWhile_ne {p : Char → Bool} {l : Name} {c : Char}
    (h : (l.dropWhile p).head? = some c) : p c = false := by
  have hnot := List.head?_dropWhile_not p l
  rwa [h] at hnot

theorem plain_sanitizePasteName (nanos : UInt64) (input : String) :
    Plain (sanitizePasteName nanos input) := by
  have hhead : ∀ c, c = '.' ∨ c = '-' → (sanitizePasteName nanos input).head? ≠ some c := by
    intro c hc
    unfold sanitizePasteName
    dsimp only
    split_ifs with hempty
    · rcases hc with rfl | rfl <;> simp
    · intro hcontra
      rw [List.head?_take, if_neg (by decide)] at hcontra
      have hdropped := head?_dropWhile_ne hcontra
      simp [hc] at hdropped
  refine ⟨?_,safe_sanitizePasteName nanos input,hhead _ (.inl rfl),hhead _ (.inr rfl)⟩
  unfold sanitizePasteName
  dsimp only
  split_ifs with hempty
  · simp
  · exact hempty

theorem hex16_length (nanos : UInt64) : (hex16 nanos).length = 16 := by
  have hle : (Nat.toDigits 16 nanos.toNat).length ≤ 16 := by
    rw [Nat.length_toDigits_le_iff (by decide) (by decide)]
    exact nanos.toNat_lt
  unfold hex16 List.leftpad
  rw [List.length_append, List.length_replicate]
  omega

theorem sanitizePasteName_length (nanos : UInt64) (input : String) :
    (sanitizePasteName nanos input).length ≤ 200 := by
  unfold sanitizePasteName
  dsimp only
  split_ifs
  · rw [List.length_append, hex16_length]
    decide
  · rw [List.length_take]
    omega

theorem splitExt_cases (name : Name) : splitExt name = (name,[]) ∨
    ∃ stem ext, splitExt name = (stem,ext) ∧ stem ≠ [] ∧ ext ≠ [] ∧ name = stem++ '.'::ext := by
  have hsplit := List.takeWhile_append_dropWhile (p := (· ≠ '.')) (l := name.reverse)
  unfold splitExt rsplitOnce
  cases hd : name.reverse.dropWhile (· ≠ '.') with
  | nil => exact .inl rfl
  | cons c rest =>
    have hc : c = '.' := by
      have hhead : (name.reverse.dropWhile (· ≠ '.')).head? = some c := by rw [hd]; rfl
      simpa using head?_dropWhile_ne hhead
    rw [hd, hc] at hsplit
    have hname : name = rest.reverse++ '.'::(name.reverse.takeWhile (· ≠ '.')).reverse := by
      have hrev := congrArg List.reverse hsplit
      simpa using hrev.symm
    dsimp only
    split_ifs with hparts
    · exact .inr ⟨_,_,rfl,hparts.1,hparts.2,hname⟩
    · exact .inl rfl

/-- A name is its stem and, behind a dot, its extension; the stem is not empty. -/
theorem splitExt_spec (name : Name) (hne : name ≠ []) :
    (splitExt name).1 ≠ [] ∧ name = if (splitExt name).2 = [] then (splitExt name).1
      else (splitExt name).1++ '.'::(splitExt name).2 := by
  rcases splitExt_cases name with heq | ⟨stem,ext,heq,hstem,hext,hname⟩
  · rw [heq]
    exact ⟨hne,(if_pos rfl).symm⟩
  · rw [heq]
    exact ⟨hstem,by rw [if_neg hext]; exact hname⟩

theorem length_suffixed {name : Name} (hne : name ≠ []) (suffix : Name) :
    (suffixed (splitExt name).1 (splitExt name).2 suffix).length = name.length+1+suffix.length := by
  obtain ⟨-,hname⟩ := splitExt_spec name hne
  have hlen := congrArg List.length hname
  unfold suffixed
  split_ifs at hlen ⊢ <;>
  · simp only [List.length_append, List.length_cons] at hlen ⊢
    omega

theorem suffixed_injective (stem ext : Name) : Function.Injective (suffixed stem ext) := by
  intro a b h
  unfold suffixed at h
  split_ifs at h
  · simpa using h
  · simpa using h

theorem plain_suffixed {name suffix : Name} (h : Plain name) (hs : Safe suffix) :
    Plain (suffixed (splitExt name).1 (splitExt name).2 suffix) := by
  obtain ⟨hstem,hname⟩ := splitExt_spec name h.ne_nil
  obtain ⟨hsafe,hext⟩ := safe_splitExt h.safe
  have hhead : (suffixed (splitExt name).1 (splitExt name).2 suffix).head? = name.head? := by
    cases hcons : (splitExt name).1 with
    | nil => exact absurd hcons hstem
    | cons c rest =>
      rw [hcons] at hname
      unfold suffixed
      rw [hname]
      split_ifs <;> rfl
  refine ⟨?_,safe_suffixed hsafe hext hs,?_,?_⟩
  · intro hnil
    have hlen := length_suffixed h.ne_nil suffix
    rw [hnil, List.length_nil] at hlen
    omega
  · rw [hhead]
    exact h.shown
  · rw [hhead]
    exact h.operand

/-! ## The names of a call -/

section Names
variable {env : PasteEnv} {dir : Bytes} {name : String}

theorem mem_names {n : Name} (h : n ∈ names env name) :
    n = sanitizePasteName env.nanos name ∨ ∃ suffix, Safe suffix ∧ suffix.length ≤ 16 ∧
      n = suffixed (splitExt (sanitizePasteName env.nanos name)).1
        (splitExt (sanitizePasteName env.nanos name)).2 suffix := by
  rcases List.mem_append.mp h with hnumbered | hlast
  · obtain ⟨i,hi,rfl⟩ := List.mem_map.mp hnumbered
    by_cases hzero : i = 0
    · exact .inl (by rw [candidate, if_pos hzero])
    · refine .inr ⟨Nat.toDigits 10 i,safe_toDigits (by decide) (by decide) i,?_,?_⟩
      · have hlt := List.mem_range.mp hi
        rw [Nat.length_toDigits_le_iff (by decide) (by decide)]
        omega
      · rw [candidate, if_neg hzero]
  · exact .inr ⟨_,safe_hex16 _,(hex16_length _).le,List.mem_singleton.mp hlast⟩

theorem plain_of_mem_names {n : Name} (h : n ∈ names env name) :
    Plain n ∧ n.length ≤ (sanitizePasteName env.nanos name).length+17 := by
  have hbase := plain_sanitizePasteName env.nanos name
  rcases mem_names h with rfl | ⟨suffix,hs,hlen,rfl⟩
  · exact ⟨hbase,by omega⟩
  · refine ⟨plain_suffixed hbase hs,?_⟩
    rw [length_suffixed hbase.ne_nil]
    omega

theorem names_nodup (env : PasteEnv) (name : String) : (names env name).Nodup := by
  have hne := (plain_sanitizePasteName env.nanos name).ne_nil
  have hlonger : ∀ suffix, (suffixed (splitExt (sanitizePasteName env.nanos name)).1
      (splitExt (sanitizePasteName env.nanos name)).2 suffix).length =
      (sanitizePasteName env.nanos name).length+1+suffix.length := length_suffixed hne
  have hdigits : ∀ i, i < 1024 → (Nat.toDigits 10 i).length ≤ 4 := by
    intro i hi
    rw [Nat.length_toDigits_le_iff (by decide) (by decide)]
    omega
  unfold names
  refine List.nodup_append.mpr ⟨?_,List.nodup_singleton _,?_⟩
  · refine List.Nodup.map_on ?_ List.nodup_range
    intro i hi j hj heq
    unfold candidate at heq
    split_ifs at heq with hi0 hj0 hj0
    · rw [hi0, hj0]
    · have hlen := congrArg List.length heq
      rw [hlonger] at hlen
      omega
    · have hlen := congrArg List.length heq
      rw [hlonger] at hlen
      omega
    · have hsame := congrArg (fun l => Nat.ofDigitChars 10 l 0) (suffixed_injective _ _ heq)
      simpa using hsame
  · rintro a ha b hb rfl
    obtain ⟨i,hi,heq⟩ := List.mem_map.mp ha
    rw [List.mem_singleton.mp hb] at heq
    have hlen := congrArg List.length heq
    rw [hlonger, hex16_length] at hlen
    unfold candidate at hlen
    split_ifs at hlen
    · omega
    · have hshort := hdigits i (List.mem_range.mp hi)
      rw [hlonger] at hlen
      omega

theorem head?_ne_slash {n : Name} (h : Safe n) : n.head? ≠ some '/' := by
  intro hhead
  have hmem : '/' ∈ n := List.mem_of_head? hhead
  have hsafe := h '/' hmem
  revert hsafe
  decide

theorem join_eq_child {n : Name} (h : Safe n) : join dir n = child dir (nameBytes n) := by
  rw [join, if_neg (head?_ne_slash h), child]

theorem child_injective (dir : Bytes) : Function.Injective (child dir) := by
  intro a b h
  unfold child at h
  split_ifs at h
  · exact List.append_cancel_left h
  · exact (List.cons.inj (List.append_cancel_left h)).2

theorem nameBytes_injective : Function.Injective nameBytes := by
  intro a b h
  have hstring := congrArg String.toList (asBytes_injective h)
  simpa using hstring

theorem slash_notMem {n : Name} (h : Safe n) : 0x2F ∉ nameBytes n := by
  intro hmem
  obtain ⟨c,hc,hbyte⟩ := mem_nameBytes h hmem
  have hslash : c = '/' := by
    rw [← Char.ofNat_toNat c, ← hbyte]
    rfl
  have hsafe := h c hc
  rw [hslash] at hsafe
  revert hsafe
  decide

/-! ## The paths of a call -/

theorem untilFree_sublist (opened : Bytes → OpenOutcome) (dir : Bytes) (l : List Name) :
    (untilFree opened dir l).Sublist l := by
  induction l with
  | nil => exact List.Sublist.refl _
  | cons n l ih =>
    unfold untilFree
    split_ifs
    · exact ih.cons_cons n
    · exact (List.nil_sublist l).cons_cons n

/-- The loop goes on past names that are taken and ends with the first that is not. -/
theorem loop_ends (opened : Bytes → OpenOutcome) (dir : Bytes) (l : List Name) :
    (tryOpen opened dir l = none ∧ (∀ n ∈ l, opened (join dir n) = .alreadyExists) ∧
      ∀ more, untilFree opened dir (l++more) = l++untilFree opened dir more) ∨
    ∃ before n, (∀ m ∈ before, opened (join dir m) = .alreadyExists) ∧
      (∀ more, untilFree opened dir (l++more) = before++[n]) ∧
      (opened (join dir n) = .created ∧ tryOpen opened dir l = some (.ok (join dir n)) ∨
        opened (join dir n) = .failed ∧
          tryOpen opened dir l = some (.error (.creating (join dir n)))) := by
  induction l with
  | nil => exact .inl ⟨rfl,List.forall_mem_nil _,fun _ => rfl⟩
  | cons n l ih =>
    cases ho : opened (join dir n) with
    | created =>
      refine .inr ⟨[],n,List.forall_mem_nil _,fun more => ?_,.inl ⟨ho,by rw [tryOpen, ho]⟩⟩
      rw [List.cons_append, untilFree, ho, if_neg (by decide)]
      rfl
    | failed =>
      refine .inr ⟨[],n,List.forall_mem_nil _,fun more => ?_,.inr ⟨ho,by rw [tryOpen, ho]⟩⟩
      rw [List.cons_append, untilFree, ho, if_neg (by decide)]
      rfl
    | alreadyExists =>
      have hcons : ∀ rest, untilFree opened dir (n::rest) = n::untilFree opened dir rest := by
        intro rest
        rw [untilFree, if_pos ho]
      have htry : tryOpen opened dir (n::l) = tryOpen opened dir l := by
        rw [tryOpen, ho]
      rw [htry]
      rcases ih with ⟨hnone,htaken,hall⟩ | ⟨before,m,htaken,hall,hlast⟩
      · refine .inl ⟨hnone,List.forall_mem_cons.mpr ⟨ho,htaken⟩,fun more => ?_⟩
        rw [List.cons_append, hcons, hall, List.cons_append]
      · refine .inr ⟨n::before,m,List.forall_mem_cons.mpr ⟨ho,htaken⟩,fun more => ?_,hlast⟩
        rw [List.cons_append, hcons, hall, List.cons_append]

/-- What a call does with its paths: all but the last exist, and the last is the file that is
created, or it fails. -/
theorem call_ends (dir : Bytes) (name : String) (hready : env.dirReady = true) :
    ∃ before last, triedPaths env dir name = before++[last] ∧
      (∀ path ∈ before, env.opened path = .alreadyExists) ∧
      (env.opened last = .created ∧ openPasteFile env dir name = .ok last ∨
        env.opened last ≠ .created ∧ ∃ e, openPasteFile env dir name = .error e) := by
  have hopen : env.dirReady ≠ false := by simp [hready]
  unfold triedPaths openPasteFile names
  rw [if_neg hopen, if_neg hopen]
  dsimp only
  rcases loop_ends env.opened dir ((List.range 1024).map
    (candidate (sanitizePasteName env.nanos name) (splitExt (sanitizePasteName env.nanos name)).1
      (splitExt (sanitizePasteName env.nanos name)).2)) with
    ⟨hnone,htaken,hall⟩ | ⟨before,n,htaken,hall,hlast⟩
  · rw [hall, hnone]
    refine ⟨_,_,by rw [untilFree, untilFree, ite_self, List.map_append, List.map_singleton],?_,?_⟩
    · intro path hpath
      obtain ⟨m,hm,rfl⟩ := List.mem_map.mp hpath
      exact htaken m hm
    · dsimp only
      split
      · next ho => exact .inl ⟨ho,rfl⟩
      · next ho => exact .inr ⟨ho,_,rfl⟩
  · rw [hall]
    refine ⟨_,_,by rw [List.map_append, List.map_singleton],?_,?_⟩
    · intro path hpath
      obtain ⟨m,hm,rfl⟩ := List.mem_map.mp hpath
      exact htaken m hm
    · rcases hlast with ⟨ho,htry⟩ | ⟨ho,htry⟩
      · rw [htry]
        exact .inl ⟨ho,rfl⟩
      · rw [htry, ho]
        exact .inr ⟨by decide,_,rfl⟩

/-- What a name begins with, its stem begins with, as far as the first dot. -/
theorem prefix_stem {p name : Name} (hdot : '.' ∉ p) (h : p <+: name) :
    p <+: (splitExt name).1 := by
  rcases splitExt_cases name with heq | ⟨stem,ext,heq,-,-,hname⟩
  · rw [heq]
    exact h
  · rw [heq]
    rw [hname] at h
    by_cases hlen : p.length ≤ stem.length
    · exact List.prefix_of_prefix_length_le h (List.prefix_append _ _) hlen
    · -- otherwise the dot behind the stem is in `p`
      have hdot' : stem++['.'] <+: stem++ '.'::ext := ⟨ext,by simp⟩
      have hdotted : stem++['.'] <+: p := by
        apply List.prefix_of_prefix_length_le hdot' h
        rw [List.length_append, List.length_singleton]
        omega
      exact absurd (hdotted.subset (by simp)) hdot

/-- All names of a call begin as the sanitised one does, as far as the first dot. -/
theorem prefix_names {env : PasteEnv} {name : String} {p n : Name} (hdot : '.' ∉ p)
    (h : p <+: sanitizePasteName env.nanos name) (hn : n ∈ names env name) : p <+: n := by
  rcases mem_names hn with rfl | ⟨suffix,-,-,rfl⟩
  · exact h
  · have hstem := prefix_stem hdot h
    unfold suffixed
    split_ifs
    · exact List.prefix_append_of_prefix hstem
    · rw [List.append_assoc]
      exact List.prefix_append_of_prefix hstem

theorem created_of_ok {env : PasteEnv} {dir path : Bytes} {name : String}
    (h : openPasteFile env dir name = .ok path) : ∃ n ∈ names env name, path = join dir n := by
  cases hready : env.dirReady with
  | false =>
    rw [openPasteFile, if_pos hready] at h
    cases h
  | true =>
    obtain ⟨before,last,htried,-,⟨-,hok⟩ | ⟨-,e,herr⟩⟩ := call_ends dir name hready
    · have hlast : last ∈ triedPaths env dir name := by
        rw [htried]
        exact List.mem_append_right _ (List.mem_singleton.mpr rfl)
      unfold triedPaths at hlast
      rw [if_neg (by simp [hready])] at hlast
      obtain ⟨n,hn,rfl⟩ := List.mem_map.mp hlast
      rw [hok] at h
      exact ⟨n,(untilFree_sublist _ _ _).subset hn,(Except.ok.inj h).symm⟩
    · rw [herr] at h
      cases h

theorem openPasteFile_free (nanos : UInt64) (dir : Bytes) (name : String) :
    openPasteFile ⟨true,nanos,0,fun _ => .created⟩ dir name =
      .ok (join dir (sanitizePasteName nanos name)) := by
  have hrange : List.range 1024 = 0::(List.range 1023).map Nat.succ := List.range_succ_eq_map
  have hready : true ≠ false := by decide
  rw [openPasteFile, if_neg hready, hrange]
  dsimp only
  rw [List.map_cons, tryOpen]
  dsimp only
  rw [candidate, if_pos rfl]

end Names

/-- Whatever name the browser sends and whatever files exist, `open_paste_file` tries its paths up
to the first that does not exist, which decides what it returns. Each of them is a child of the
paste directory with a plain name, not much longer than the sanitised one, and none is tried
twice. -/
theorem paths_confined (env : PasteEnv) (dir : Bytes) (name : String) :
    (env.dirReady = true → ∃ before last, triedPaths env dir name = before++[last] ∧
      (∀ path ∈ before, env.opened path = .alreadyExists) ∧
      (env.opened last = .created ∧ openPasteFile env dir name = .ok last ∨
        env.opened last ≠ .created ∧ ∃ e, openPasteFile env dir name = .error e)) ∧
    (env.dirReady = false → triedPaths env dir name = [] ∧
      ∃ e, openPasteFile env dir name = .error e) ∧
    (∀ path ∈ triedPaths env dir name, ∃ n, path = child dir (nameBytes n) ∧
      0x2F ∉ nameBytes n ∧ Plain n ∧ n.length ≤ (sanitizePasteName env.nanos name).length+17) ∧
    (triedPaths env dir name).Nodup ∧ (sanitizePasteName env.nanos name).length ≤ 200 := by
  have hnames : ∀ n ∈ untilFree env.opened dir (names env name), n ∈ names env name :=
    fun n hn => (untilFree_sublist _ _ _).subset hn
  have hjoin : ∀ n ∈ names env name, join dir n = child dir (nameBytes n) :=
    fun n hn => join_eq_child (plain_of_mem_names hn).1.safe
  refine ⟨call_ends dir name,fun hready => ⟨if_pos hready,_,if_pos hready⟩,?_⟩
  unfold triedPaths
  refine ⟨?_,?_,sanitizePasteName_length _ _⟩
  · intro path hpath
    split_ifs at hpath
    · cases hpath
    · obtain ⟨n,hn,rfl⟩ := List.mem_map.mp hpath
      obtain ⟨hplain,hlen⟩ := plain_of_mem_names (hnames n hn)
      exact ⟨n,hjoin n (hnames n hn),slash_notMem hplain.safe,hplain,hlen⟩
  · split_ifs
    · exact List.nodup_nil
    · refine List.Nodup.map_on ?_ ((names_nodup env name).sublist (untilFree_sublist _ _ _))
      intro a ha b hb heq
      rw [hjoin a (hnames a ha), hjoin b (hnames b hb)] at heq
      exact nameBytes_injective (child_injective dir heq)

end Term.PasteFileNames
