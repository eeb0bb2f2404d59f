import TermMux.Cbor

/-!
# ES256 keys as COSE maps

`decode_es256` walks over the entries of a map in the order in which they come, fills one slot
for each label that it knows and skips the values of the others. What it returns is read off the
slots alone, so with distinct labels the order of the entries does not count.
-/

set_option autoImplicit false

namespace Term.CoseKey
open Term.ByteOrder Term.CborItem Term.Cbor Term.Outcome

inductive CoseError where
  | cbor (e : CborError)
  | unsupportedAlg (alg : ℤ)
  | unsupportedCurve (crv : ℤ)
  | unsupportedKty (kty : ℤ)
  | missingField (name : String)
  | badCoordLen (name : String) (len : ℕ)
  deriving DecidableEq, Repr

def es256Alg : ℤ := -7
def p256Crv : ℤ := 1
def ec2Kty : ℤ := 2

structure Slots where
  kty : Option ℤ := none
  alg : Option ℤ := none
  crv : Option ℤ := none
  x : Option Bytes := none
  y : Option Bytes := none
  deriving DecidableEq, Repr

def readEntry (s : Slots) (buf : Bytes) : Outcome CborError (Slots × Bytes) := do
  let (key,buf) ← readInt buf
  if key = 1 then do
    let (v,buf) ← readInt buf
    return ({ s with kty := some v },buf)
  else if key = 3 then do
    let (v,buf) ← readInt buf
    return ({ s with alg := some v },buf)
  else if key = -1 then do
    let (v,buf) ← readInt buf
    return ({ s with crv := some v },buf)
  else if key = -2 then do
    let (v,buf) ← readBytes buf
    return ({ s with x := some v },buf)
  else if key = -3 then do
    let (v,buf) ← readBytes buf
    return ({ s with y := some v },buf)
  else do
    let buf ← skipValue buf
    return (s,buf)

def readEntries : ℕ → Slots → Bytes → Outcome CborError (Slots × Bytes)
  | 0, s, buf => .ok (s,buf)
  | n+1, s, buf => do
    let (s,buf) ← readEntry s buf
    readEntries n s buf

def checkAlg : Option ℤ → Outcome CoseError Unit
  | some a => rejectIf (a ≠ es256Alg) (.unsupportedAlg a)
  | none => .ok ()

def checkSlots (s : Slots) : Outcome CoseError Bytes := do
  let kty ← orElse s.kty (.missingField "kty")
  rejectIf (kty ≠ ec2Kty) (.unsupportedKty kty)
  checkAlg s.alg
  let crv ← orElse s.crv (.missingField "crv")
  rejectIf (crv ≠ p256Crv) (.unsupportedCurve crv)
  let x ← orElse s.x (.missingField "x")
  let y ← orElse s.y (.missingField "y")
  rejectIf (x.length ≠ 32) (.badCoordLen "x" x.length)
  rejectIf (y.length ≠ 32) (.badCoordLen "y" y.length)
  return 4::(x++y)

def decodeEs256Rest (bytes : Bytes) : Outcome CoseError (Bytes × Bytes) := do
  let (n,buf) ← mapErr .cbor (readMapHeader bytes)
  let (s,rest) ← mapErr .cbor (readEntries n.toNat {} buf)
  let key ← checkSlots s
  return (key,rest)

def decodeEs256 (bytes : Bytes) : Outcome CoseError Bytes := do
  let (key,_) ← decodeEs256Rest bytes
  return key

def knownLabels : List ℤ := [1,3,-1,-2,-3]

/-- An entry of a map with integer labels. The value of a known label may be of any kind, any
other value is one that `skip_value` accepts. -/
structure Entry where
  label : ℤ
  width : Width
  value : Bytes
  hlabel : InI64 label
  hwidth : width.Fits (intArg label)
  hvalue : if label ∈ knownLabels then Readable value else skipValue value = .ok []

def Entry.bytes (e : Entry) : Bytes :=
  headBytes e.width (intMajor e.label) (intArg e.label)++e.value

def mapBytes (w : Width) (entries : List Entry) : Bytes :=
  headBytes w 5 entries.length++entries.flatMap Entry.bytes

structure HoldsKey (entries : List Entry) (x y : Bytes) : Prop where
  kty : ∃ e ∈ entries, e.label = 1 ∧ IsInt e.value 2
  crv : ∃ e ∈ entries, e.label = -1 ∧ IsInt e.value 1
  alg : ∀ e ∈ entries, e.label = 3 → IsInt e.value (-7)
  xCoord : ∃ e ∈ entries, e.label = -2 ∧ IsString 2 e.value x
  yCoord : ∃ e ∈ entries, e.label = -3 ∧ IsString 2 e.value y
  xLength : x.length = 32
  yLength : y.length = 32

inductive Found where
  | int (i : ℤ)
  | bytes (s : Bytes)

def Found.Reads (label : ℤ) (value : Bytes) : Found → Prop
  | .int i => (label = 1 ∨ label = 3 ∨ label = -1) ∧ InI64 i ∧ IsInt value i
  | .bytes s => (label = -2 ∨ label = -3) ∧ s.length ≤ maxString ∧ IsString 2 value s

def Slots.get (s : Slots) (label : ℤ) : Option Found :=
  if label = 1 then s.kty.map .int
  else if label = 3 then s.alg.map .int
  else if label = -1 then s.crv.map .int
  else if label = -2 then s.x.map .bytes
  else if label = -3 then s.y.map .bytes
  else none

instance (i : ℤ) : Decidable (InI64 i) := inferInstanceAs (Decidable (_ ∧ _))

structure Fills (es : List Entry) (s t : Slots) : Prop where
  filled : ∀ label ∈ knownLabels, (∃ e ∈ es, e.label = label) →
    ∃ e ∈ es, e.label = label ∧ ∃ c : Found, c.Reads label e.value ∧ t.get label = some c
  kept : ∀ label, (∀ e ∈ es, e.label ≠ label) → t.get label = s.get label

section Entries
variable {e : Entry} {es : List Entry} {s t : Slots} {rest rest' buf : Bytes}

theorem readLabel (e : Entry) (rest : Bytes) :
    readInt (e.bytes++rest) = .ok (e.label,e.value++rest) := by
  rw [Entry.bytes, List.append_assoc]
  exact readInt_eq_ok.mpr ⟨e.hlabel,_,⟨e.width,e.hwidth,rfl⟩,rfl⟩

theorem Entry.readable (h : e.label ∈ knownLabels) : Readable e.value := by
  have hvalue := e.hvalue
  rwa [if_pos h] at hvalue

theorem Entry.skips (h : e.label ∉ knownLabels) : skipValue e.value = .ok [] := by
  have hvalue := e.hvalue
  rwa [if_neg h] at hvalue

/-- A value that is skipped by itself is skipped in front of anything. -/
theorem skipValue_append {v : Bytes} (h : skipValue v = .ok []) (rest : Bytes) :
    skipValue (v++rest) = .ok rest := by
  obtain ⟨e,he,hv⟩ := skipValue_eq_ok.mp h
  rw [List.append_nil] at hv
  rw [hv]
  exact skipValue_eq_ok.mpr ⟨e,he,rfl⟩

theorem int_label_known {label : ℤ} (h : label = 1 ∨ label = 3 ∨ label = -1) :
    label ∈ knownLabels := by
  rcases h with rfl | rfl | rfl
  · decide
  · decide
  · decide

theorem bytes_label_known {label : ℤ} (h : label = -2 ∨ label = -3) : label ∈ knownLabels := by
  rcases h with rfl | rfl
  · decide
  · decide

theorem fills_single {c : Found} (hc : c.Reads e.label e.value) (hget : t.get e.label = some c)
    (hkept : ∀ label ≠ e.label, t.get label = s.get label) : Fills [e] s t := by
  constructor
  · rintro label - ⟨e',he',rfl⟩
    obtain rfl := List.mem_singleton.mp he'
    exact ⟨e',he',rfl,c,hc,hget⟩
  · intro label hlabel
    exact hkept label fun h => hlabel e (List.mem_singleton_self e) h.symm

theorem readInt_fills (put : ℤ → Slots) (hlabel : e.label = 1 ∨ e.label = 3 ∨ e.label = -1)
    (hget : ∀ v, (put v).get e.label = some (.int v))
    (hkept : ∀ v, ∀ label ≠ e.label, (put v).get label = s.get label)
    (h : (readInt (e.value++rest) >>= fun p => pure (put p.1,p.2)) = .ok (t,rest')) :
    rest' = rest ∧ Fills [e] s t := by
  simp only [bind_eq_ok, pure_eq_ok, Prod.mk.injEq, Prod.exists] at h
  obtain ⟨v,r,hread,rfl,rfl⟩ := h
  obtain ⟨hrange,hint,hrest⟩ := readInt_readable (e.readable (int_label_known hlabel)) hread
  have hreads : (Found.int v).Reads e.label e.value := ⟨hlabel,hrange,hint⟩
  exact ⟨hrest,fills_single hreads (hget v) (hkept v)⟩

theorem readBytes_fills (put : Bytes → Slots) (hlabel : e.label = -2 ∨ e.label = -3)
    (hget : ∀ v, (put v).get e.label = some (.bytes v))
    (hkept : ∀ v, ∀ label ≠ e.label, (put v).get label = s.get label)
    (h : (readBytes (e.value++rest) >>= fun p => pure (put p.1,p.2)) = .ok (t,rest')) :
    rest' = rest ∧ Fills [e] s t := by
  simp only [bind_eq_ok, pure_eq_ok, Prod.mk.injEq, Prod.exists] at h
  obtain ⟨v,r,hread,rfl,rfl⟩ := h
  obtain ⟨hcap,hstring,hrest⟩ :=
    readBytes_readable (e.readable (bytes_label_known hlabel)) hread
  have hreads : (Found.bytes v).Reads e.label e.value := ⟨hlabel,hcap,hstring⟩
  exact ⟨hrest,fills_single hreads (hget v) (hkept v)⟩

theorem readEntry_fills (h : readEntry s (e.bytes++rest) = .ok (t,rest')) :
    rest' = rest ∧ Fills [e] s t := by
  rw [readEntry, readLabel, ok_bind] at h
  dsimp only at h
  split_ifs at h with h1 h2 h3 h4 h5
  · refine readInt_fills (fun v => { s with kty := some v }) (.inl h1) (fun v => ?_) (fun v => ?_) h
    · simp [Slots.get, h1]
    · intro label hlabel
      simp [Slots.get, h1 ▸ hlabel]
  · refine readInt_fills (fun v => { s with alg := some v }) (.inr (.inl h2)) (fun v => ?_) (fun v => ?_) h
    · simp [Slots.get, h2]
    · intro label hlabel
      simp [Slots.get, h2 ▸ hlabel]
  · refine readInt_fills (fun v => { s with crv := some v }) (.inr (.inr h3)) (fun v => ?_) (fun v => ?_) h
    · simp [Slots.get, h3]
    · intro label hlabel
      simp [Slots.get, h3 ▸ hlabel]
  · refine readBytes_fills (fun v => { s with x := some v }) (.inl h4) (fun v => ?_) (fun v => ?_) h
    · simp [Slots.get, h4]
    · intro label hlabel
      simp [Slots.get, h4 ▸ hlabel]
  · refine readBytes_fills (fun v => { s with y := some v }) (.inr h5) (fun v => ?_) (fun v => ?_) h
    · simp [Slots.get, h5]
    · intro label hlabel
      simp [Slots.get, h5 ▸ hlabel]
  · have hunknown : e.label ∉ knownLabels := by simp [knownLabels, h1, h2, h3, h4, h5]
    rw [skipValue_append (e.skips hunknown), ok_bind, pure_eq_ok] at h
    cases h
    refine ⟨rfl,?_,fun label _ => rfl⟩
    rintro label hlabel ⟨e',he',rfl⟩
    rw [List.mem_singleton.mp he'] at hlabel
    exact absurd hlabel hunknown

/-- A turn succeeds when the value is of the kind that its label asks for. -/
theorem readEntry_succeeds (h : e.label ∈ knownLabels → ∃ c : Found, c.Reads e.label e.value) :
    ∃ t, readEntry s (e.bytes++rest) = .ok (t,rest) := by
  rw [readEntry, readLabel, ok_bind]
  dsimp only
  by_cases hknown : e.label ∈ knownLabels
  · obtain ⟨c | c,hlabel,hc,hvalue⟩ := h hknown
    · rw [readInt_eq_ok.mpr ⟨hc,_,hvalue,rfl⟩, ok_bind]
      dsimp only
      rcases hlabel with h | h | h <;> rw [h] <;> exact ⟨_,rfl⟩
    · have hread : readBytes (e.value++rest) = .ok (c,rest) :=
        (readString_eq_ok (by decide)).mpr ⟨hc,_,hvalue,rfl⟩
      rw [hread, ok_bind]
      dsimp only
      rcases hlabel with h | h <;> rw [h] <;> exact ⟨_,rfl⟩
  · simp only [knownLabels, List.mem_cons, List.not_mem_nil, or_false, not_or] at hknown
    obtain ⟨h1,h2,h3,h4,h5⟩ := hknown
    have hskip := skipValue_append (e.skips (by simp [knownLabels, h1, h2, h3, h4, h5])) rest
    rw [if_neg h1, if_neg h2, if_neg h3, if_neg h4, if_neg h5, hskip]
    exact ⟨s,rfl⟩

theorem fills_nil (s : Slots) : Fills [] s s := by
  constructor
  · rintro label - ⟨e,he,-⟩
    exact absurd he List.not_mem_nil
  · intro label _
    rfl

theorem Fills.cons {m : Slots} (hm : Fills [e] s m) (ht : Fills es m t) : Fills (e::es) s t := by
  constructor
  · rintro label hlabel ⟨e',he',hl⟩
    -- The last entry with the label decides.
    by_cases hlater : ∃ e'' ∈ es, e''.label = label
    · obtain ⟨e'',he'',hl'',c,hc,hget⟩ := ht.filled label hlabel hlater
      exact ⟨e'',List.mem_cons_of_mem e he'',hl'',c,hc,hget⟩
    · have hnone : ∀ e'' ∈ es, e''.label ≠ label := fun e'' he'' h => hlater ⟨e'',he'',h⟩
      rcases List.mem_cons.mp he' with rfl | hmem
      · obtain ⟨d,hd,hdl,c,hc,hget⟩ :=
          hm.filled label hlabel ⟨e',List.mem_singleton_self e',hl⟩
        rw [List.mem_singleton.mp hd] at hdl hc
        exact ⟨e',List.mem_cons_self,hdl,c,hc,by rw [ht.kept label hnone, hget]⟩
      · exact absurd hl (hnone e' hmem)
  · intro label hlabel
    obtain ⟨hfirst,hrest⟩ := List.forall_mem_cons.mp hlabel
    rw [ht.kept label hrest, hm.kept label]
    intro e' he'
    rwa [List.mem_singleton.mp he']

theorem readEntries_fills
    (h : readEntries es.length s (es.flatMap Entry.bytes++rest) = .ok (t,rest')) :
    rest' = rest ∧ Fills es s t := by
  induction es generalizing s with
  | nil =>
    cases h
    exact ⟨rfl,fills_nil t⟩
  | cons e es ih =>
    rw [List.length_cons, readEntries, List.flatMap_cons, List.append_assoc, bind_eq_ok] at h
    obtain ⟨⟨m,buf⟩,hentry,h⟩ := h
    obtain ⟨rfl,hm⟩ := readEntry_fills hentry
    obtain ⟨hrest,ht⟩ := ih h
    exact ⟨hrest,hm.cons ht⟩

theorem readEntries_succeeds
    (h : ∀ e ∈ es, e.label ∈ knownLabels → ∃ c : Found, c.Reads e.label e.value) :
    ∃ t, readEntries es.length s (es.flatMap Entry.bytes++rest) = .ok (t,rest) := by
  induction es generalizing s with
  | nil => exact ⟨_,rfl⟩
  | cons e es ih =>
    obtain ⟨hfirst,hlater⟩ := List.forall_mem_cons.mp h
    obtain ⟨m,hm⟩ := @readEntry_succeeds e _ (es.flatMap Entry.bytes++rest) hfirst
    rw [List.length_cons, readEntries, List.flatMap_cons, List.append_assoc, hm, ok_bind]
    exact ih hlater

theorem checkAlg_eq_ok {alg : Option ℤ} {u : Unit} :
    checkAlg alg = .ok u ↔ ∀ a, alg = some a → a = -7 := by
  cases alg with
  | none => simp [checkAlg]
  | some a =>
    rw [checkAlg, rejectIf_eq_ok, not_not]
    exact ⟨fun h b hb => (Option.some.inj hb).symm.trans h,fun h => h a rfl⟩

theorem checkSlots_eq_ok {k : Bytes} : checkSlots s = .ok k ↔
    s.kty = some 2 ∧ (∀ a, s.alg = some a → a = -7) ∧ s.crv = some 1 ∧
      ∃ x y, s.x = some x ∧ s.y = some y ∧ x.length = 32 ∧ y.length = 32 ∧ k = 4::(x++y) := by
  simp only [checkSlots, bind_eq_ok, orElse_eq_ok, rejectIf_eq_ok, checkAlg_eq_ok, pure_eq_ok,
    not_not, exists_const]
  constructor
  · rintro ⟨kty,hkty,rfl,halg,crv,hcrv,rfl,x,hx,y,hy,hxl,hyl,rfl⟩
    exact ⟨hkty,halg,hcrv,x,y,hx,hy,hxl,hyl,rfl⟩
  · rintro ⟨hkty,halg,hcrv,x,y,hx,hy,hxl,hyl,rfl⟩
    exact ⟨2,hkty,rfl,halg,1,hcrv,rfl,x,hx,y,hy,hxl,hyl,rfl⟩

theorem readMapHeader_headBytes {w : Width} {n : ℕ} (hfits : w.Fits n) (rest : Bytes) :
    readMapHeader (headBytes w 5 n++rest) = .ok (UInt64.ofNat n,rest) := by
  rw [readMapHeader, readHead_headBytes rest (by decide) hfits]
  rfl

/-- The decoder runs its loop over the entries of the map and stops behind the last one. -/
theorem decodeEs256Rest_mapBytes {w : Width} {k : Bytes} (hfits : w.Fits es.length) :
    decodeEs256Rest (mapBytes w es++rest) = .ok (k,rest') ↔
      rest' = rest ∧ ∃ t, readEntries es.length {} (es.flatMap Entry.bytes++rest) = .ok (t,rest) ∧
        checkSlots t = .ok k := by
  rw [decodeEs256Rest, mapBytes, List.append_assoc, readMapHeader_headBytes hfits, mapErr_ok,
    ok_bind]
  dsimp only
  rw [UInt64.toNat_ofNat_of_lt' (fits_lt hfits)]
  simp only [bind_eq_ok, mapErr_eq_ok, pure_eq_ok, Prod.mk.injEq, Prod.exists]
  constructor
  · rintro ⟨t,r,hread,k',hk,rfl,rfl⟩
    obtain ⟨rfl,-⟩ := readEntries_fills hread
    exact ⟨rfl,t,hread,hk⟩
  · rintro ⟨rfl,t,hread,hk⟩
    exact ⟨t,rest',hread,k,hk,rfl,rfl⟩

theorem decodeEs256_eq_ok {b k : Bytes} :
    decodeEs256 b = .ok k ↔ ∃ rest, decodeEs256Rest b = .ok (k,rest) := by
  simp only [decodeEs256, bind_eq_ok, pure_eq_ok, Prod.exists]
  constructor
  · rintro ⟨k',rest,h,rfl⟩
    exact ⟨rest,h⟩
  · rintro ⟨rest,h⟩
    exact ⟨k,rest,h,rfl⟩

end Entries

section Spec
variable {es es' : List Entry} {t : Slots} {rest v x y k : Bytes} {i j : ℤ}

theorem isInt_unique (hi : InI64 i) (hj : InI64 j) (h : IsInt v i) (h' : IsInt v j) : i = j := by
  have hreadi : readInt v = .ok (i,[]) := readInt_eq_ok.mpr ⟨hi,v,h,(List.append_nil v).symm⟩
  have hreadj : readInt v = .ok (j,[]) := readInt_eq_ok.mpr ⟨hj,v,h',(List.append_nil v).symm⟩
  rw [hreadi] at hreadj
  cases hreadj
  rfl

theorem isString_unique {s s' : Bytes} (hs : s.length ≤ maxString) (h : IsString 2 v s)
    (h' : IsString 2 v s') : s = s' := by
  have hread : readBytes v = .ok (s,[]) :=
    (readString_eq_ok (by decide)).mpr ⟨hs,v,h,(List.append_nil v).symm⟩
  obtain ⟨w,hfits,hv⟩ := h
  obtain ⟨w',hfits',hv'⟩ := h'
  rw [hv] at hv'
  exact (head_unique (by decide) (by decide) hfits hfits' hv').2.2

/-- With distinct labels the slot of a label holds what its entry says. -/
theorem Fills.slot {e : Entry} (hdistinct : (es.map Entry.label).Nodup) (h : Fills es {} t)
    (he : e ∈ es) (hknown : e.label ∈ knownLabels) :
    ∃ c : Found, c.Reads e.label e.value ∧ t.get e.label = some c := by
  obtain ⟨e',he',hl,c,hc,hget⟩ := h.filled e.label hknown ⟨e,he,rfl⟩
  obtain rfl := List.inj_on_of_nodup_map hdistinct he' he hl
  exact ⟨c,hc,hget⟩

theorem Fills.entry {label : ℤ} {c : Found} (h : Fills es {} t) (hknown : label ∈ knownLabels)
    (hget : t.get label = some c) : ∃ e ∈ es, e.label = label ∧ c.Reads label e.value := by
  by_cases hex : ∃ e ∈ es, e.label = label
  · obtain ⟨e,he,hl,c',hc',hget'⟩ := h.filled label hknown hex
    rw [hget] at hget'
    cases hget'
    exact ⟨e,he,hl,hc'⟩
  · have hnone : t.get label = none := by
      rw [h.kept label fun e he hl => hex ⟨e,he,hl⟩]
      simp [Slots.get]
    rw [hget] at hnone
    cases hnone

theorem slot_int {e : Entry} (hdistinct : (es.map Entry.label).Nodup) (h : Fills es {} t)
    (he : e ∈ es) (hl : e.label = 1 ∨ e.label = 3 ∨ e.label = -1) (hi : InI64 i)
    (hvalue : IsInt e.value i) : t.get e.label = some (.int i) := by
  obtain ⟨c | c,hc,hget⟩ := h.slot hdistinct he (int_label_known hl)
  · obtain ⟨-,hrange,hint⟩ := hc
    rwa [isInt_unique hrange hi hint hvalue] at hget
  · obtain ⟨hbytes,-⟩ := hc
    omega

theorem slot_bytes {e : Entry} (hdistinct : (es.map Entry.label).Nodup) (h : Fills es {} t)
    (he : e ∈ es) (hl : e.label = -2 ∨ e.label = -3) (hvalue : IsString 2 e.value x) :
    t.get e.label = some (.bytes x) := by
  obtain ⟨c | c,hc,hget⟩ := h.slot hdistinct he (bytes_label_known hl)
  · obtain ⟨hint,-⟩ := hc
    omega
  · obtain ⟨-,hcap,hstring⟩ := hc
    rwa [isString_unique hcap hstring hvalue] at hget

theorem checkSlots_of_holdsKey (hdistinct : (es.map Entry.label).Nodup) (h : Fills es {} t)
    (hkey : HoldsKey es x y) : checkSlots t = .ok (4::(x++y)) := by
  apply checkSlots_eq_ok.mpr
  refine ⟨?_,?_,?_,x,y,?_,?_,hkey.xLength,hkey.yLength,rfl⟩
  · obtain ⟨e,he,hl,hvalue⟩ := hkey.kty
    have hget := slot_int hdistinct h he (.inl hl) (by decide) hvalue
    simpa [Slots.get, hl] using hget
  · intro a ha
    obtain ⟨e,he,hl,hrange⟩ :=
      @Fills.entry es t 3 (.int a) h (by decide) (by simp [Slots.get, ha])
    exact isInt_unique hrange.2.1 (by decide) hrange.2.2 (hkey.alg e he hl)
  · obtain ⟨e,he,hl,hvalue⟩ := hkey.crv
    have hget := slot_int hdistinct h he (.inr (.inr hl)) (by decide) hvalue
    simpa [Slots.get, hl] using hget
  · obtain ⟨e,he,hl,hvalue⟩ := hkey.xCoord
    have hget := slot_bytes hdistinct h he (.inl hl) hvalue
    simpa [Slots.get, hl] using hget
  · obtain ⟨e,he,hl,hvalue⟩ := hkey.yCoord
    have hget := slot_bytes hdistinct h he (.inr hl) hvalue
    simpa [Slots.get, hl] using hget

theorem holdsKey_of_checkSlots (hdistinct : (es.map Entry.label).Nodup) (h : Fills es {} t)
    (hk : checkSlots t = .ok k) : ∃ x y, HoldsKey es x y ∧ k = 4::(x++y) := by
  obtain ⟨hkty,halg,hcrv,x,y,hx,hy,hxl,hyl,rfl⟩ := checkSlots_eq_ok.mp hk
  refine ⟨x,y,?_,rfl⟩
  constructor
  · obtain ⟨e,he,hl,hc⟩ := @Fills.entry es t 1 (.int 2) h (by decide) (by simp [Slots.get, hkty])
    exact ⟨e,he,hl,hc.2.2⟩
  · obtain ⟨e,he,hl,hc⟩ :=
      @Fills.entry es t (-1) (.int 1) h (by decide) (by simp [Slots.get, hcrv])
    exact ⟨e,he,hl,hc.2.2⟩
  · intro e he hl
    obtain ⟨c | c,hc,hget⟩ := h.slot hdistinct he (by rw [hl]; decide)
    · have hslot : t.alg = some c := by simpa [Slots.get, hl] using hget
      rw [← halg c hslot]
      exact hc.2.2
    · obtain ⟨hbytes,-⟩ := hc
      omega
  · obtain ⟨e,he,hl,hc⟩ :=
      @Fills.entry es t (-2) (.bytes x) h (by decide) (by simp [Slots.get, hx])
    exact ⟨e,he,hl,hc.2.2⟩
  · obtain ⟨e,he,hl,hc⟩ :=
      @Fills.entry es t (-3) (.bytes y) h (by decide) (by simp [Slots.get, hy])
    exact ⟨e,he,hl,hc.2.2⟩
  · exact hxl
  · exact hyl

/-- With distinct labels, what some entry under a label has is so of every entry under it. -/
theorem value_of_label {e : Entry} {label : ℤ} (P : Bytes → Prop)
    (hdistinct : (es.map Entry.label).Nodup) (he : e ∈ es) (hl : e.label = label)
    (h : ∃ e' ∈ es, e'.label = label ∧ P e'.value) : P e.value := by
  obtain ⟨e',he',hl',hvalue⟩ := h
  rwa [List.inj_on_of_nodup_map hdistinct he he' (hl.trans hl'.symm)]

/-- Every known label of a map that holds a key has a value of its kind. -/
theorem HoldsKey.reads {e : Entry} (hdistinct : (es.map Entry.label).Nodup)
    (hkey : HoldsKey es x y) (he : e ∈ es) (hknown : e.label ∈ knownLabels) :
    ∃ c : Found, c.Reads e.label e.value := by
  simp only [knownLabels, List.mem_cons, List.not_mem_nil, or_false] at hknown
  rcases hknown with hl | hl | hl | hl | hl
  · have hvalue := value_of_label (IsInt · 2) hdistinct he hl hkey.kty
    exact ⟨.int 2,.inl hl,by decide,hvalue⟩
  · exact ⟨.int (-7),.inr (.inl hl),by decide,hkey.alg e he hl⟩
  · have hvalue := value_of_label (IsInt · 1) hdistinct he hl hkey.crv
    exact ⟨.int 1,.inr (.inr hl),by decide,hvalue⟩
  · have hvalue := value_of_label (IsString 2 · x) hdistinct he hl hkey.xCoord
    exact ⟨.bytes x,.inl hl,by rw [hkey.xLength]; decide,hvalue⟩
  · have hvalue := value_of_label (IsString 2 · y) hdistinct he hl hkey.yCoord
    exact ⟨.bytes y,.inr hl,by rw [hkey.yLength]; decide,hvalue⟩

theorem decodeEs256Rest_iff {w : Width} (hdistinct : (es.map Entry.label).Nodup)
    (hfits : w.Fits es.length) (rest : Bytes) :
    decodeEs256Rest (mapBytes w es++rest) = .ok (k,rest) ↔
      ∃ x y, HoldsKey es x y ∧ k = 4::(x++y) := by
  rw [decodeEs256Rest_mapBytes hfits]
  constructor
  · rintro ⟨-,t,hread,hk⟩
    exact holdsKey_of_checkSlots hdistinct (readEntries_fills hread).2 hk
  · rintro ⟨x,y,hkey,rfl⟩
    obtain ⟨t,hread⟩ := @readEntries_succeeds es {} rest fun e he => hkey.reads hdistinct he
    have hfills := (readEntries_fills hread).2
    exact ⟨rfl,t,hread,checkSlots_of_holdsKey hdistinct hfills hkey⟩

theorem decodeEs256_iff {w : Width} (hdistinct : (es.map Entry.label).Nodup)
    (hfits : w.Fits es.length) (rest : Bytes) :
    decodeEs256 (mapBytes w es++rest) = .ok k ↔ ∃ x y, HoldsKey es x y ∧ k = 4::(x++y) := by
  rw [decodeEs256_eq_ok, ← decodeEs256Rest_iff hdistinct hfits rest]
  constructor
  · rintro ⟨rest',h⟩
    obtain ⟨rfl,-⟩ := (decodeEs256Rest_mapBytes hfits).mp h
    exact h
  · intro h
    exact ⟨rest,h⟩

theorem HoldsKey.perm (hperm : es.Perm es') (h : HoldsKey es x y) : HoldsKey es' x y := by
  have hmem : ∀ e, e ∈ es ↔ e ∈ es' := fun e => hperm.mem_iff
  have hex : ∀ {p : Entry → Prop}, (∃ e ∈ es, p e) → ∃ e ∈ es', p e :=
    fun ⟨e,he,hp⟩ => ⟨e,(hmem e).mp he,hp⟩
  exact ⟨hex h.kty,hex h.crv,fun e he => h.alg e ((hmem e).mpr he),hex h.xCoord,hex h.yCoord,
    h.xLength,h.yLength⟩

/-- `decode_es256` returns the key that the map holds, whatever the order of its entries, the
widths of its heads and the bytes behind it. -/
theorem decodeEs256_spec {w : Width} (hdistinct : (es.map Entry.label).Nodup)
    (hfits : w.Fits es.length) (trailing : Bytes) :
    (∀ k, decodeEs256 (mapBytes w es++trailing) = .ok k ↔
      ∃ x y, HoldsKey es x y ∧ k = 4::(x++y)) ∧
    ∀ (es' : List Entry) (w' : Width) (trailing' : Bytes), es.Perm es' → w'.Fits es'.length →
      ∀ k, decodeEs256 (mapBytes w es++trailing) = .ok k ↔
        decodeEs256 (mapBytes w' es'++trailing') = .ok k := by
  constructor
  · intro k
    exact decodeEs256_iff hdistinct hfits trailing
  · intro es' w' trailing' hperm hfits' k
    have hdistinct' : (es'.map Entry.label).Nodup := (hperm.map Entry.label).nodup_iff.mp hdistinct
    rw [decodeEs256_iff hdistinct hfits trailing, decodeEs256_iff hdistinct' hfits' trailing']
    constructor
    · rintro ⟨x,y,hkey,hk⟩
      exact ⟨x,y,hkey.perm hperm,hk⟩
    · rintro ⟨x,y,hkey,hk⟩
      exact ⟨x,y,hkey.perm hperm.symm,hk⟩

def intEntry (label i : ℤ) (hknown : label ∈ knownLabels) (hlabel : InI64 label)
    (hdirect : Width.direct.Fits (intArg label)) (hfits : Width.direct.Fits (intArg i)) : Entry where
  label := label
  width := .direct
  value := headBytes .direct (intMajor i) (intArg i)
  hlabel := hlabel
  hwidth := hdirect
  hvalue := by
    rw [if_pos hknown]
    exact .inl ⟨i,.direct,hfits,rfl⟩

def coordEntry (label : ℤ) (s : Bytes) (hknown : label ∈ knownLabels) (hlabel : InI64 label)
    (hdirect : Width.direct.Fits (intArg label)) (hfits : Width.one.Fits s.length) : Entry where
  label := label
  width := .direct
  value := headBytes .one 2 s.length++s
  hlabel := hlabel
  hwidth := hdirect
  hvalue := by
    rw [if_pos hknown]
    exact .inr (.inl ⟨s,.one,hfits,rfl⟩)

def extraEntry (label : ℤ) (width : Width) (value : Bytes) (hknown : label ∉ knownLabels)
    (hlabel : InI64 label) (hwidth : width.Fits (intArg label)) (hskip : skipValue value = .ok []) :
    Entry where
  label := label
  width := width
  value := value
  hlabel := hlabel
  hwidth := hwidth
  hvalue := by
    rw [if_neg hknown]
    exact hskip

def xCoord : Bytes := List.replicate 32 1
def yCoord : Bytes := List.replicate 32 2

def es256Entries : List Entry :=
  [intEntry 1 2 (by decide) (by decide) (by decide) (by decide),
    intEntry 3 (-7) (by decide) (by decide) (by decide) (by decide),
    intEntry (-1) 1 (by decide) (by decide) (by decide) (by decide),
    coordEntry (-2) xCoord (by decide) (by decide) (by decide) (by decide),
    coordEntry (-3) yCoord (by decide) (by decide) (by decide) (by decide)]

def extraField (value : Bytes) (hskip : skipValue value = .ok []) : Entry :=
  extraEntry 99 .one value (by decide) (by decide) (by decide) hskip

def greeting : Entry := extraField [0x62,0x68,0x69] (by decide)

theorem es256Entries_holdsKey {extras : List Entry} (hextras : ∀ e ∈ extras, e.label = 99) :
    HoldsKey (extras++es256Entries) xCoord yCoord := by
  have hmem : ∀ {e : Entry}, e ∈ es256Entries → e ∈ extras++es256Entries :=
    fun h => List.mem_append_right extras h
  refine ⟨⟨_,hmem (.head _),rfl,.direct,by decide,rfl⟩,
    ⟨_,hmem (.tail _ (.tail _ (.head _))),rfl,.direct,by decide,rfl⟩,?_,
    ⟨_,hmem (.tail _ (.tail _ (.tail _ (.head _)))),rfl,.one,by decide,rfl⟩,
    ⟨_,hmem (.tail _ (.tail _ (.tail _ (.tail _ (.head _))))),rfl,.one,by decide,rfl⟩,
    by decide,by decide⟩
  intro e he hl
  rcases List.mem_append.mp he with he | he
  · have h99 := hextras e he
    omega
  · fin_cases he
    · exact absurd hl (by decide)
    · exact ⟨.direct,by decide,rfl⟩
    · exact absurd hl (by decide)
    · exact absurd hl (by decide)
    · exact absurd hl (by decide)

theorem decodeEs256_spec_reversed :
    decodeEs256 (mapBytes .direct (greeting::es256Entries)++[0xFF]) =
        .ok (4::(xCoord++yCoord)) ∧
      decodeEs256 (mapBytes .one (greeting::es256Entries).reverse) =
        .ok (4::(xCoord++yCoord)) := by
  have hdistinct : ((greeting::es256Entries).map Entry.label).Nodup := by decide
  have hfits : Width.direct.Fits (greeting::es256Entries).length := by decide
  have hspec := decodeEs256_spec hdistinct hfits [0xFF]
  have hkey : HoldsKey (greeting::es256Entries) xCoord yCoord :=
    @es256Entries_holdsKey [greeting] (by decide)
  have hfirst := (hspec.1 _).mpr ⟨_,_,hkey,rfl⟩
  refine ⟨hfirst,?_⟩
  rw [← List.append_nil (mapBytes _ _)]
  exact (hspec.2 _ .one [] (List.reverse_perm _).symm (by decide) _).mp hfirst

end Spec

end Term.CoseKey
