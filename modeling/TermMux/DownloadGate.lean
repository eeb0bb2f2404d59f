import TermMux.OscStream

/-!
# Downloads require the session token

While the scanner is inside a sequence its buffer is exactly the bytes that
followed the last `ESC ]`, with nothing skipped; every transition that drops
bytes also leaves the state in which the buffer can be delivered. A captured
payload is therefore a contiguous piece of the output, and so is a token that
passes the gate.
-/

set_option autoImplicit false

namespace Term.DownloadGate
open Term.ByteOrder Term.Utf8Text Term.OscStream

def Consumed (s : OscScanner) (seen : Bytes) : Prop :=
  match s.state with
  | .normal | .oscOverflow | .oscOverflowEsc => True
  | .esc => [esc] <:+ seen
  | .osc => esc::rightBracket::s.buf <:+ seen
  | .oscEsc => esc::rightBracket::(s.buf++[esc]) <:+ seen

def Ends (payload seen : Bytes) : Prop :=
  ∃ t : Terminator, esc::rightBracket::(appId++semicolon::payload++t.bytes) <:+ seen

theorem suffix_snoc {t seen : Bytes} (b : UInt8) (h : t <:+ seen) : t++[b] <:+ seen++[b] := by
  obtain ⟨u,rfl⟩ := h
  exact ⟨u,by simp⟩

theorem beforeSemi_append_fromSemi (t : Bytes) : beforeSemi t++fromSemi t = t :=
  List.takeWhile_append_dropWhile

theorem fromSemi_head {t rest : Bytes} {b : UInt8} (h : fromSemi t = b::rest) : b = semicolon := by
  induction t with
  | nil => cases h
  | cons c t ih =>
    unfold fromSemi at h ih
    by_cases hc : c = semicolon
    · rw [hc, List.dropWhile_cons_of_neg (by simp)] at h
      exact (List.cons.inj h).1.symm
    · rw [List.dropWhile_cons_of_pos (by simpa using hc)] at h
      exact ih h

theorem split_at_semi {t rest : Bytes} {b : UInt8} (h : fromSemi t = b::rest) :
    t = beforeSemi t++semicolon::rest := by
  have happ := beforeSemi_append_fromSemi t
  rw [h, fromSemi_head h] at happ
  exact happ.symm

/-- A buffer longer than `5111;` whose first field is `5111`. -/
theorem appBuffer_split {buf : Bytes} (h : beforeSemi buf = appId) (hlen : 5 < buf.length) :
    buf = appId++semicolon::buf.drop 5 := by
  cases hd : fromSemi buf with
  | nil =>
    have happ := beforeSemi_append_fromSemi buf
    rw [hd, h, List.append_nil] at happ
    rw [← happ] at hlen
    simp [appId] at hlen
  | cons b rest =>
    have hsplit := split_at_semi hd
    rw [h] at hsplit
    have hdrop : buf.drop 5 = rest := by
      rw [hsplit]
      rfl
    rw [hdrop]
    exact hsplit

/-- A non-empty captured payload is the rest of the sequence after `5111;`. -/
theorem finishOsc_captured {term : Terminator} {f : Feed} {seen : Bytes}
    (h : esc::rightBracket::(f.scanner.buf++term.bytes) <:+ seen) :
    ∃ new, (finishOsc term f).captured = f.captured++new ∧
      ∀ p ∈ new, p ≠ [] → Ends p seen := by
  unfold finishOsc
  by_cases happ : beforeSemi f.scanner.buf = appId
  · simp only [if_pos happ]
    refine ⟨_,rfl,?_⟩
    intro p hp hne
    rw [List.mem_singleton] at hp
    by_cases hlen : 5 < f.scanner.buf.length
    · rw [if_pos hlen] at hp
      refine ⟨term,?_⟩
      rw [appBuffer_split happ hlen] at h
      rw [hp]
      exact h
    · rw [if_neg hlen] at hp
      exact absurd hp hne
  · simp only [if_neg happ]
    exact ⟨[],by simp,by simp⟩

theorem finishOsc_consumed (term : Terminator) (f : Feed) (seen : Bytes) :
    Consumed (finishOsc term f).scanner seen := by
  unfold finishOsc
  by_cases happ : beforeSemi f.scanner.buf = appId
  · simp only [if_pos happ, Consumed]
  · simp only [if_neg happ, Consumed]

/-- The state is true to what was consumed, and what was captured after `old` has just
ended. -/
def Fed (old : List Bytes) (f : Feed) (seen : Bytes) : Prop :=
  Consumed f.scanner seen ∧ ∃ new, f.captured = old++new ∧ ∀ p ∈ new, p ≠ [] → Ends p seen

theorem fed_of_captured_eq {old : List Bytes} {f : Feed} {seen : Bytes} (h : f.captured = old)
    (hs : Consumed f.scanner seen) : Fed old f seen :=
  ⟨hs,[],by simp [h],by simp⟩

theorem feedByte_osc {f : Feed} {seen : Bytes} (b : UInt8) (hst : f.scanner.state = .osc)
    (h : Consumed f.scanner seen) : Fed f.captured (feedByte f b) (seen++[b]) := by
  simp only [Consumed, hst] at h
  have hsnoc := suffix_snoc b h
  by_cases hbel : b = bel
  · simp only [feedByte, hst, if_pos hbel]
    refine ⟨finishOsc_consumed _ _ _,finishOsc_captured ?_⟩
    simpa [hbel, Terminator.bytes] using hsnoc
  · by_cases hesc : b = esc
    · simp only [feedByte, hst, if_neg hbel, if_pos hesc]
      apply fed_of_captured_eq rfl
      rw [hesc] at hsnoc ⊢
      exact hsnoc
    · by_cases hlen : f.scanner.buf.length < maxOscLen
      · simp only [feedByte, hst, if_neg hbel, if_neg hesc, if_pos hlen]
        exact fed_of_captured_eq rfl hsnoc
      · simp only [feedByte, hst, if_neg hbel, if_neg hesc, if_neg hlen]
        exact fed_of_captured_eq rfl trivial

theorem feedByte_oscEsc {f : Feed} {seen : Bytes} (b : UInt8) (hst : f.scanner.state = .oscEsc)
    (h : Consumed f.scanner seen) : Fed f.captured (feedByte f b) (seen++[b]) := by
  simp only [Consumed, hst] at h
  have hsnoc := suffix_snoc b h
  by_cases hb : b = backslash
  · simp only [feedByte, hst, if_pos hb]
    refine ⟨finishOsc_consumed _ _ _,finishOsc_captured ?_⟩
    simpa [hb, Terminator.bytes] using hsnoc
  · by_cases hlen : f.scanner.buf.length+2 ≤ maxOscLen
    · simp only [feedByte, hst, if_neg hb, if_pos hlen]
      apply fed_of_captured_eq rfl
      simpa [Consumed] using hsnoc
    · simp only [feedByte, hst, if_neg hb, if_neg hlen]
      exact fed_of_captured_eq rfl trivial

/-- Outside a sequence, and inside one that is too long, nothing is captured. -/
theorem feedByte_outside {f : Feed} {seen : Bytes} (b : UInt8)
    (hst : f.scanner.state = .normal ∨ f.scanner.state = .oscOverflow ∨
      f.scanner.state = .oscOverflowEsc) : Fed f.captured (feedByte f b) (seen++[b]) := by
  rcases hst with hst | hst | hst
  · by_cases hb : b = esc
    · simp only [feedByte, hst, if_pos hb]
      apply fed_of_captured_eq rfl
      rw [hb]
      exact ⟨seen,rfl⟩
    · simp only [feedByte, hst, if_neg hb]
      apply fed_of_captured_eq rfl
      simp only [Consumed, hst]
  · by_cases hbel : b = bel
    · simp only [feedByte, hst, if_pos hbel]
      exact fed_of_captured_eq rfl trivial
    · by_cases hesc : b = esc
      · simp only [feedByte, hst, if_neg hbel, if_pos hesc]
        exact fed_of_captured_eq rfl trivial
      · simp only [feedByte, hst, if_neg hbel, if_neg hesc]
        apply fed_of_captured_eq rfl
        simp only [Consumed, hst]
  · by_cases hb : b = backslash
    · simp only [feedByte, hst, if_pos hb]
      exact fed_of_captured_eq rfl trivial
    · by_cases hesc : b = esc
      · simp only [feedByte, hst, if_neg hb, if_pos hesc]
        apply fed_of_captured_eq rfl
        simp only [Consumed, hst]
      · simp only [feedByte, hst, if_neg hb, if_neg hesc]
        exact fed_of_captured_eq rfl trivial

/-- One byte: the state stays true to what was consumed, and a payload captured
here has just ended. -/
theorem feedByte_consumed {f : Feed} {seen : Bytes} (b : UInt8) (h : Consumed f.scanner seen) :
    Fed f.captured (feedByte f b) (seen++[b]) := by
  cases hst : f.scanner.state with
  | normal => exact feedByte_outside b (.inl hst)
  | esc =>
    simp only [Consumed, hst] at h
    by_cases hb : b = rightBracket
    · simp only [feedByte, hst, if_pos hb]
      apply fed_of_captured_eq rfl
      rw [hb]
      exact suffix_snoc rightBracket h
    · simp only [feedByte, hst, if_neg hb]
      exact fed_of_captured_eq rfl trivial
  | osc => exact feedByte_osc b hst h
  | oscEsc => exact feedByte_oscEsc b hst h
  | oscOverflow => exact feedByte_outside b (.inr (.inl hst))
  | oscOverflowEsc => exact feedByte_outside b (.inr (.inr hst))

def Occurs (payload seen : Bytes) : Prop :=
  ∃ t : Terminator, esc::rightBracket::(appId++semicolon::payload++t.bytes) <:+: seen

theorem Ends.occurs {payload seen : Bytes} (h : Ends payload seen) (rest : Bytes) :
    Occurs payload (seen++rest) := by
  obtain ⟨t,ht⟩ := h
  exact ⟨t,ht.isInfix.trans (List.prefix_append seen rest).isInfix⟩

theorem foldl_feedByte_consumed (input : Bytes) {f : Feed} {seen : Bytes}
    (h : Consumed f.scanner seen) :
    Consumed (input.foldl feedByte f).scanner (seen++input) ∧
      ∃ new, (input.foldl feedByte f).captured = f.captured++new ∧
        ∀ p ∈ new, p ≠ [] → Occurs p (seen++input) := by
  induction input generalizing f seen with
  | nil => exact ⟨by simpa using h,[],by simp,by simp⟩
  | cons b input ih =>
    obtain ⟨hb,new,hnew,hends⟩ := feedByte_consumed b h
    obtain ⟨hrest,more,hmore,hocc⟩ := ih hb
    rw [List.append_assoc, List.singleton_append] at hrest hocc
    refine ⟨hrest,new++more,?_,?_⟩
    · rw [List.foldl_cons, hmore, hnew, List.append_assoc]
    · intro p hp hne
      rcases List.mem_append.mp hp with hmem | hmem
      · have hocc' := (hends p hmem hne).occurs input
        rwa [List.append_assoc, List.singleton_append] at hocc'
      · exact hocc p hmem hne

theorem splitSemi_eq_some {t a b : Bytes} (h : splitSemi t = some (a,b)) :
    t = a++semicolon::b := by
  unfold splitSemi at h
  cases hd : fromSemi t with
  | nil => simp [hd] at h
  | cons c rest =>
    simp only [hd, Option.some.injEq, Prod.mk.injEq] at h
    rw [← h.1, ← h.2]
    exact split_at_semi hd

theorem parseDlOsc_eq_some {payload : Bytes} {token path : String}
    (h : parseDlOsc payload = some (token,path)) :
    payload = dlCommand++semicolon::(asBytes token++semicolon::asBytes path) := by
  simp only [parseDlOsc, Option.bind_eq_bind, Option.bind_eq_some_iff, Prod.exists] at h
  obtain ⟨cmd,rest,hcmd,h⟩ := h
  by_cases hdl : cmd = dlCommand
  · simp only [ne_eq, hdl, not_true_eq_false, if_false, Option.bind_eq_some_iff, Prod.exists,
      Option.pure_def, Option.some.injEq, Prod.mk.injEq] at h
    obtain ⟨tok,pth,hrest,s,hs,u,hu,rfl,rfl⟩ := h
    rw [fromUtf8_eq_some.mp hs, fromUtf8_eq_some.mp hu, ← splitSemi_eq_some hrest, ← hdl]
    exact splitSemi_eq_some hcmd
  · simp [hdl] at h

theorem foldl_ctDiff_eq_zero (l : List (UInt8 × UInt8)) (d : UInt8) :
    l.foldl (fun diff p => diff ||| (p.1 ^^^ p.2)) d = 0 ↔ d = 0 ∧ ∀ p ∈ l, p.1 = p.2 := by
  induction l generalizing d with
  | nil => simp
  | cons p l ih => simp [ih, and_assoc]

theorem zip_forall_eq {a b : Bytes} (hlen : a.length = b.length)
    (h : ∀ p ∈ a.zip b, p.1 = p.2) : a = b := by
  induction a generalizing b with
  | nil => exact (List.length_eq_zero_iff.mp hlen.symm).symm
  | cons x a ih =>
    cases b with
    | nil => simp at hlen
    | cons y b =>
      simp only [List.zip_cons_cons, List.forall_mem_cons] at h
      rw [h.1, ih (by simpa using hlen) h.2]

theorem zip_self_forall (a : Bytes) : ∀ p ∈ a.zip a, p.1 = p.2 := by
  induction a with
  | nil => simp
  | cons x a ih =>
    rw [List.zip_cons_cons, List.forall_mem_cons]
    exact ⟨rfl,ih⟩

/-- The constant-time comparison is equality. -/
theorem ctEqStr_iff (a b : String) : ctEqStr a b = true ↔ a = b := by
  unfold ctEqStr
  by_cases hlen : (asBytes a).length = (asBytes b).length
  · rw [if_neg (not_not.mpr hlen), beq_iff_eq, ctDiff, foldl_ctDiff_eq_zero]
    constructor
    · intro h
      exact asBytes_injective (zip_forall_eq hlen h.2)
    · intro h
      subst h
      exact ⟨rfl,zip_self_forall (asBytes a)⟩
  · rw [if_pos hlen]
    constructor
    · intro h
      cases h
    · intro h
      exact absurd (congrArg (fun s => (asBytes s).length) h) hlen

def request (token : String) (path : String) (t : Terminator) : Bytes :=
  esc::rightBracket::(appId++semicolon::(dlCommand++semicolon::(asBytes token++
    semicolon::asBytes path))++t.bytes)

theorem authorised_request {dlToken path : String} {payload seen : Bytes}
    (h : authorised dlToken payload = some path) (hocc : payload ≠ [] → Occurs payload seen) :
    ∃ t, request dlToken path t <:+: seen := by
  unfold authorised at h
  cases hp : parseDlOsc payload with
  | none => simp [hp] at h
  | some r =>
    obtain ⟨token,pth⟩ := r
    simp only [hp] at h
    by_cases hct : ctEqStr token dlToken = true
    · rw [if_pos hct, Option.some.injEq] at h
      have hpayload := parseDlOsc_eq_some hp
      obtain ⟨t,ht⟩ := hocc (by rw [hpayload]; simp [dlCommand])
      rw [hpayload, (ctEqStr_iff token dlToken).mp hct, h] at ht
      exact ⟨t,ht⟩
    · rw [if_neg hct] at h
      cases h

/-- Every download the reader starts was requested in the bytes it has read. -/
theorem downloads_requested (dlToken : String) (chunks : List Bytes) (s : OscScanner)
    (seen : Bytes) (h : Consumed s seen) :
    ∀ path ∈ downloads dlToken s chunks, ∃ t, request dlToken path t <:+: seen++chunks.flatten := by
  induction chunks generalizing s seen with
  | nil => simp [downloads]
  | cons chunk rest ih =>
    obtain ⟨hnext,new,hnew,hocc⟩ := foldl_feedByte_consumed chunk (f := ⟨s,[],[]⟩) h
    rw [List.nil_append] at hnew
    intro path hpath
    simp only [downloads, readChunk, List.mem_append] at hpath
    rw [List.flatten_cons, ← List.append_assoc]
    rcases hpath with hpath | hpath
    · obtain ⟨payload,hmem,hauth⟩ := List.mem_filterMap.mp hpath
      rw [feed, hnew] at hmem
      obtain ⟨t,ht⟩ := authorised_request hauth (hocc payload hmem)
      exact ⟨t,ht.trans (List.prefix_append _ _).isInfix⟩
    · exact ih _ _ hnext path hpath

/-- The session reader starts a download of a path only if the output contains
the request with the session's token in one piece; without the token in the
output it starts none. -/
theorem download_requires_token (dlToken : String) (chunks : List Bytes) :
    (∀ path ∈ downloads dlToken OscScanner.new chunks,
      ∃ t, request dlToken path t <:+: chunks.flatten) ∧
    (¬asBytes dlToken <:+: chunks.flatten → downloads dlToken OscScanner.new chunks = []) := by
  have hall := downloads_requested dlToken chunks OscScanner.new [] trivial
  rw [List.nil_append] at hall
  refine ⟨hall,?_⟩
  intro hno
  apply List.eq_nil_iff_forall_not_mem.mpr
  intro path hpath
  obtain ⟨t,ht⟩ := hall path hpath
  apply hno
  refine List.IsInfix.trans ?_ ht
  exact ⟨esc::rightBracket::(appId++semicolon::(dlCommand++[semicolon])),
    semicolon::asBytes path++t.bytes,by simp [request]⟩

end Term.DownloadGate
