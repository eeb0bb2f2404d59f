import TermMux.CoseKey
import TermMux.Webauthn

/-!
# What a registration carries

`extract_auth_data` takes the authenticator data out of an attestation object, and
`parse_attested` takes the credential out of the authenticator data. The key at its end is walked
over twice: `decode_es256` reads it, and `skip_value` looks for its end. To `skip_value` the values
of the key lie one level deeper than they do to the decoder.
-/

set_option autoImplicit false

namespace Term.Registration
open Term.ByteOrder Term.CborItem Term.Cbor Term.CoseKey Term.Outcome Term.Utf8Text Term.Webauthn

inductive AttestedError where
  | tooShort (len : ℕ)
  | missingAttestedCredData
  | credIdTooLong (len : ℕ)
  | cose (e : CoseError)
  | cbor (e : CborError)
  deriving DecidableEq, Repr

def AttestedError.ofPrefix : AuthDataError → AttestedError
  | .tooShort len => .tooShort len

def flagAt : UInt8 := 0x40

structure AttestedCredentialData where
  head : AuthDataPrefix
  aaguid : Bytes
  credentialId : Bytes
  credentialPublicKey : Bytes
  deriving DecidableEq, Repr

def attestedCredData (p : AuthDataPrefix) : Bool := p.flags &&& flagAt ≠ 0

def parseAttestedHead (data : Bytes) :
    Outcome AttestedError (AuthDataPrefix × Bytes × Bytes × Bytes) := do
  let head ← mapErr .ofPrefix (parsePrefix data)
  rejectIf (¬attestedCredData head) .missingAttestedCredData
  let buf ← slice data headerLen data.length
  rejectIf (buf.length < 16+2) (.tooShort data.length)
  let aaguid ← slice buf 0 16
  let credIdLen ← u16At buf 16
  rejectIf (1023 < credIdLen.toNat) (.credIdTooLong credIdLen.toNat)
  let buf ← slice buf 18 buf.length
  rejectIf (buf.length < credIdLen.toNat) (.tooShort data.length)
  let credentialId ← slice buf 0 credIdLen.toNat
  let buf ← slice buf credIdLen.toNat buf.length
  return (head,aaguid,credentialId,buf)

def parseAttested (data : Bytes) : Outcome AttestedError AttestedCredentialData := do
  let (head,aaguid,credentialId,buf) ← parseAttestedHead data
  let credentialPublicKey ← mapErr .cose (decodeEs256 buf)
  let _ ← mapErr .cbor (skipValue buf)
  return ⟨head,aaguid,credentialId,credentialPublicKey⟩

inductive ExtractError where
  | cbor (e : CborError)
  | attestationObject (text : String)
  deriving DecidableEq, Repr

def readField (authData : Option Bytes) (buf : Bytes) :
    Outcome CborError (Option Bytes × Bytes) := do
  let (key,buf) ← readText buf
  if key = "authData" then do
    let (v,buf) ← readBytes buf
    return (some v,buf)
  else do
    let buf ← skipValue buf
    return (authData,buf)

def readFields : ℕ → Option Bytes → Bytes → Outcome CborError (Option Bytes × Bytes)
  | 0, authData, buf => .ok (authData,buf)
  | n+1, authData, buf => do
    let (authData,buf) ← readField authData buf
    readFields n authData buf

def extractAuthData (attObj : Bytes) : Outcome ExtractError Bytes := do
  let (n,buf) ← mapErr .cbor (readMapHeader attObj)
  let (authData,_) ← mapErr .cbor (readFields n.toNat none buf)
  orElse authData (.attestationObject "missing authData field")

section Walks
variable {es : List Entry} {e : Entry} {s t : Slots} {b k rest rest' buf v : Bytes} {w : Width}

theorem skipValue_item (h : Item maxString maxNesting 0 v) (rest : Bytes) :
    skipValue (v++rest) = .ok rest :=
  skipValue_eq_ok.mpr ⟨v,h,rfl⟩

/-- An entry whose value is one item, also one level deeper under a label that is known. -/
def EntryBefore (buf rest : Bytes) : Prop :=
  ∃ e : Entry, buf = e.bytes++rest ∧ skipValue e.value = .ok [] ∧
    (e.label ∈ knownLabels → Item maxString maxNesting 1 e.value)

theorem entry_of_readInt {key : ℤ} (hkey : readInt buf = .ok (key,v++rest))
    (hitem : Item maxString maxNesting 0 v)
    (hknown : key ∈ knownLabels → Readable v ∧ Item maxString maxNesting 1 v) :
    EntryBefore buf rest := by
  obtain ⟨hrange,l,⟨w,hfits,rfl⟩,rfl⟩ := readInt_eq_ok.mp hkey
  have hskip : skipValue v = .ok [] := by
    rw [← List.append_nil v]
    exact skipValue_item hitem []
  have hvalue : if key ∈ knownLabels then Readable v else skipValue v = .ok [] := by
    split_ifs with h
    · exact (hknown h).1
    · exact hskip
  exact ⟨⟨key,w,v,hrange,hfits,hvalue⟩,(List.append_assoc ..).symm,hskip,fun h => (hknown h).2⟩

/-- Whatever a turn of the loop reads is an entry, and its value is one item. -/
theorem readEntry_entry (h : readEntry s buf = .ok (t,rest)) :
    EntryBefore buf rest := by
  rw [readEntry, bind_eq_ok] at h
  obtain ⟨⟨key,buf'⟩,hkey,h⟩ := h
  dsimp only at h
  have hint : ∀ {i : ℤ}, readInt buf' = .ok (i,rest) → EntryBefore buf rest := by
    intro i hread
    obtain ⟨-,v,hv,rfl⟩ := readInt_eq_ok.mp hread
    exact entry_of_readInt hkey (hv.item (by decide)) fun _ => ⟨.inl ⟨i,hv⟩,hv.item (by decide)⟩
  have hbytes : ∀ {x : Bytes}, readBytes buf' = .ok (x,rest) → EntryBefore buf rest := by
    intro x hread
    obtain ⟨hcap,v,hv,rfl⟩ := (readString_eq_ok (by decide)).mp hread
    have hitem : ∀ depth ≤ maxNesting, Item maxString maxNesting depth v :=
      fun depth hdepth => hv.item hdepth (by decide) (by decide) hcap
    exact entry_of_readInt hkey (hitem 0 (by decide)) fun _ =>
      ⟨.inr (.inl ⟨x,hv⟩),hitem 1 (by decide)⟩
  split_ifs at h with h1 h2 h3 h4 h5
  all_goals simp only [bind_eq_ok, pure_eq_ok, Prod.mk.injEq, Prod.exists] at h
  · obtain ⟨i,r,hread,-,rfl⟩ := h
    exact hint hread
  · obtain ⟨i,r,hread,-,rfl⟩ := h
    exact hint hread
  · obtain ⟨i,r,hread,-,rfl⟩ := h
    exact hint hread
  · obtain ⟨x,r,hread,-,rfl⟩ := h
    exact hbytes hread
  · obtain ⟨x,r,hread,-,rfl⟩ := h
    exact hbytes hread
  · obtain ⟨r,hskip,-,rfl⟩ := h
    obtain ⟨v,hv,rfl⟩ := skipValue_eq_ok.mp hskip
    have hunknown : key ∉ knownLabels := by simp [knownLabels, h1, h2, h3, h4, h5]
    exact entry_of_readInt hkey hv fun hknown => absurd hknown hunknown

def Walked (es : List Entry) : Prop :=
  ∀ e ∈ es, skipValue e.value = .ok [] ∧
    (e.label ∈ knownLabels → Item maxString maxNesting 1 e.value)

theorem readEntries_entries {n : ℕ} (h : readEntries n s buf = .ok (t,rest)) :
    ∃ es : List Entry, es.length = n ∧ buf = es.flatMap Entry.bytes++rest ∧ Walked es := by
  induction n generalizing s buf with
  | zero =>
    cases h
    exact ⟨[],rfl,rfl,fun e he => absurd he List.not_mem_nil⟩
  | succ n ih =>
    rw [readEntries, bind_eq_ok] at h
    obtain ⟨⟨m,buf'⟩,hentry,h⟩ := h
    obtain ⟨e,rfl,he⟩ := readEntry_entry hentry
    obtain ⟨es,hlen,rfl,hes⟩ := ih h
    refine ⟨e::es,by rw [List.length_cons, hlen],?_,List.forall_mem_cons.mpr ⟨he,hes⟩⟩
    rw [List.flatMap_cons, List.append_assoc]

/-- A key that decodes is a map of entries up to where the decoder stopped. -/
theorem decodeEs256Rest_map (h : decodeEs256Rest b = .ok (k,rest)) :
    ∃ w es, Width.Fits w es.length ∧ b = mapBytes w es++rest ∧ Walked es := by
  simp only [decodeEs256Rest, bind_eq_ok, mapErr_eq_ok, pure_eq_ok, Prod.mk.injEq,
    Prod.exists] at h
  obtain ⟨n,buf,hheader,t,r,hentries,key,-,-,rfl⟩ := h
  obtain ⟨es,hlen,rfl,hes⟩ := readEntries_entries hentries
  simp only [readMapHeader, bind_eq_ok, rejectIf_eq_ok, pure_eq_ok, Prod.mk.injEq, Prod.exists,
    exists_const, not_not] at hheader
  obtain ⟨major,v,q,hhead,rfl,rfl,rfl⟩ := hheader
  obtain ⟨w,hfits,-,rfl⟩ := readHead_inversion hhead
  refine ⟨w,es,by rwa [hlen],?_,hes⟩
  rw [mapBytes, hlen, List.append_assoc]
  rfl

/-- The value of an entry as `skip_value` meets it inside the map. -/
theorem skip_nested_value (hskip : skipValue v = .ok []) :
    skipValueDepth maxNesting (v++rest) = .ok rest' ↔
      rest' = rest ∧ Item maxString maxNesting 1 v := by
  rw [skipValueDepth_skips (show 1+maxNesting = maxNesting+1 by decide)]
  constructor
  · rintro ⟨v',hv',heq⟩
    -- A shorter or longer item at the front would also be one at depth 0.
    have hfront := skipValue_item (hv'.lift 0 (by decide)) rest'
    rw [← id_def v', ← heq, skipValue_append hskip] at hfront
    cases hfront
    rw [List.append_left_inj] at heq
    exact ⟨rfl,by rwa [heq]⟩
  · rintro ⟨rfl,hv⟩
    exact ⟨v,hv,rfl⟩

theorem skip_nested_label (e : Entry) (rest : Bytes) :
    skipValueDepth maxNesting (e.bytes++rest) = .ok (e.value++rest) := by
  rw [skipValueDepth_skips (show 1+maxNesting = maxNesting+1 by decide)]
  have hlabel : IsInt (headBytes e.width (intMajor e.label) (intArg e.label)) e.label :=
    ⟨e.width,e.hwidth,rfl⟩
  exact ⟨_,hlabel.item (by decide),List.append_assoc ..⟩

theorem skip_entries (hes : Walked es) :
    skipTimes (fun buf => do skipValueDepth maxNesting (← skipValueDepth maxNesting buf)) es.length
      (es.flatMap Entry.bytes++rest) = .ok rest' ↔
      rest' = rest ∧ ∀ e ∈ es, Item maxString maxNesting 1 e.value := by
  induction es with
  | nil => simp [skipTimes, eq_comm]
  | cons e es ih =>
    obtain ⟨⟨hskip,-⟩,hrest⟩ := List.forall_mem_cons.mp hes
    rw [List.length_cons, skipTimes, List.flatMap_cons, List.append_assoc, skip_nested_label,
      ok_bind, bind_eq_ok, List.forall_mem_cons]
    simp only [skip_nested_value hskip]
    constructor
    · rintro ⟨mid,⟨rfl,hv⟩,h⟩
      obtain ⟨hr,hvs⟩ := (ih hrest).mp h
      exact ⟨hr,hv,hvs⟩
    · rintro ⟨hr,hv,hvs⟩
      exact ⟨_,⟨rfl,hv⟩,(ih hrest).mpr ⟨hr,hvs⟩⟩

theorem skipValue_mapBytes (hes : Walked es) (hfits : w.Fits es.length) :
    skipValue (mapBytes w es++rest) = .ok rest' ↔
      rest' = rest ∧ ∀ e ∈ es, Item maxString maxNesting 1 e.value := by
  have hlen : (UInt64.ofNat es.length).toNat = es.length := UInt64.toNat_ofNat_of_lt' (fits_lt hfits)
  rw [skipValue, mapBytes, List.append_assoc, skipValueDepth,
    readHead_headBytes _ (by decide) hfits, ok_bind]
  dsimp only
  rw [hlen, if_neg (by decide), if_neg (by decide), if_neg (by decide), if_pos (by decide)]
  exact skip_entries hes

/-- No value of an extra field nests more than five levels deep. -/
def ExtrasShallow (b : Bytes) : Prop :=
  ∃ w es rest, Width.Fits w es.length ∧ b = mapBytes w es++rest ∧
    ∀ e ∈ es, e.label ∉ knownLabels → Item 65536 5 0 e.value

theorem nested_iff : Item maxString maxNesting 1 v ↔ Item 65536 5 0 v := item_succ_iff

theorem walked_of_reads {c : Found} (hc : c.Reads e.label e.value) :
    skipValue e.value = .ok [] ∧ (e.label ∈ knownLabels → Item maxString maxNesting 1 e.value) := by
  have hitem : ∀ depth ≤ maxNesting, Item maxString maxNesting depth e.value := by
    intro depth hdepth
    cases c with
    | int i => exact hc.2.2.item hdepth
    | bytes x => exact hc.2.2.item hdepth (by decide) (by decide) hc.2.1
  have hskip := skipValue_item (hitem 0 (by decide)) []
  rw [List.append_nil] at hskip
  exact ⟨hskip,fun _ => hitem 1 (by decide)⟩

theorem walked_of_readEntries
    (h : readEntries es.length s (es.flatMap Entry.bytes++rest) = .ok (t,rest')) : Walked es := by
  induction es generalizing s with
  | nil => exact fun e he => absurd he List.not_mem_nil
  | cons e es ih =>
    rw [List.length_cons, readEntries, List.flatMap_cons, List.append_assoc, bind_eq_ok] at h
    obtain ⟨⟨m,buf⟩,hentry,h⟩ := h
    obtain ⟨rfl,hm⟩ := readEntry_fills hentry
    refine List.forall_mem_cons.mpr ⟨?_,ih h⟩
    by_cases hknown : e.label ∈ knownLabels
    · obtain ⟨e',he',-,c,hc,-⟩ := hm.filled e.label hknown ⟨e,List.mem_singleton_self e,rfl⟩
      rw [List.mem_singleton.mp he'] at hc
      exact walked_of_reads hc
    · exact ⟨e.skips hknown,fun h => absurd h hknown⟩

/-- Where the decoder stops, `skip_value` stops as well or not at all. -/
theorem skipValue_of_decoded (h : decodeEs256Rest b = .ok (k,rest)) :
    skipValue b = .ok rest' ↔ rest' = rest ∧ ExtrasShallow b := by
  constructor
  · intro hskip
    obtain ⟨w,es,hfits,rfl,hes⟩ := decodeEs256Rest_map h
    obtain ⟨hrest,hvalues⟩ := (skipValue_mapBytes hes hfits).mp hskip
    exact ⟨hrest,w,es,rest,hfits,rfl,fun e he _ => nested_iff.mp (hvalues e he)⟩
  · rintro ⟨rfl,w,es,r,hfits,rfl,hextras⟩
    obtain ⟨rfl,t,hread,-⟩ := (decodeEs256Rest_mapBytes hfits).mp h
    have hes := walked_of_readEntries hread
    refine (skipValue_mapBytes hes hfits).mpr ⟨rfl,fun e he => ?_⟩
    by_cases hknown : e.label ∈ knownLabels
    · exact (hes e he).2 hknown
    · exact nested_iff.mpr (hextras e he hknown)

/-- For a key that decodes, the two walks agree exactly when no extra field is nested too deeply,
and exactly then `parse_attested` accepts the key. -/
theorem key_walks_agree_iff (h : decodeEs256 b = .ok k) :
    ((∃ rest, decodeEs256Rest b = .ok (k,rest) ∧ skipValue b = .ok rest) ↔ ExtrasShallow b) ∧
    ∀ data head aaguid credentialId,
      parseAttestedHead data = .ok (head,aaguid,credentialId,b) →
        (parseAttested data = .ok ⟨head,aaguid,credentialId,k⟩ ↔ ExtrasShallow b) := by
  obtain ⟨rest,hrest⟩ := decodeEs256_eq_ok.mp h
  constructor
  · constructor
    · rintro ⟨rest',hrest',hskip⟩
      exact ((skipValue_of_decoded hrest').mp hskip).2
    · intro hshallow
      exact ⟨rest,hrest,(skipValue_of_decoded hrest).mpr ⟨rfl,hshallow⟩⟩
  · intro data head aaguid credentialId hhead
    rw [parseAttested, hhead, ok_bind]
    dsimp only
    rw [h, mapErr_ok, ok_bind, bind_eq_ok]
    simp only [mapErr_eq_ok, skipValue_of_decoded hrest]
    constructor
    · rintro ⟨r,⟨-,hshallow⟩,-⟩
      exact hshallow
    · intro hshallow
      exact ⟨rest,⟨rfl,hshallow⟩,rfl⟩

theorem es256Entries_known : ∀ e ∈ es256Entries, e.label ∈ knownLabels := by decide

def greetedKey : Bytes := mapBytes .direct (greeting::es256Entries)

theorem key_walks_agree_greeted :
    ∃ rest, decodeEs256Rest greetedKey = .ok (4::(xCoord++yCoord),rest) ∧
      skipValue greetedKey = .ok rest := by
  have hdecode : decodeEs256 greetedKey = .ok (4::(xCoord++yCoord)) := by decide
  apply (key_walks_agree_iff hdecode).1.mpr
  refine ⟨.direct,greeting::es256Entries,[],by decide,(List.append_nil _).symm,?_⟩
  intro e he hknown
  rcases List.mem_cons.mp he with rfl | he
  · have hhi : IsString 3 greeting.value [0x68,0x69] := ⟨.direct,by decide,rfl⟩
    exact hhi.item (by decide) (by decide) (by decide) (by decide)
  · exact absurd (es256Entries_known e he) hknown

def nested : Entry := extraField [0x81,0x81,0x81,0x81,0x81,0x81,0x00] (by decide)

def nestedKey : Bytes := mapBytes .direct (nested::es256Entries)

def dataBeforeKey : Bytes :=
  List.replicate 32 9++[0x41,0,0,0,0]++List.replicate 16 0++[0,0]

/-- The decoder takes the key with the nested field, `skip_value` does not. -/
theorem nested_key_rejected :
    decodeEs256Rest nestedKey = .ok (4::(xCoord++yCoord),[]) ∧
      skipValue nestedKey = .err .nestingTooDeep ∧
      parseAttested (dataBeforeKey++nestedKey) = .err (.cbor .nestingTooDeep) := by
  refine ⟨?_,?_,?_⟩
  · decide
  · decide
  · decide

end Walks

/-- What a registration encodes: the parts of the authenticator data, with the key as a map in
any order and without deeply nested extra fields. -/
structure Registered where
  head : AuthDataPrefix
  aaguid : Bytes
  credentialId : Bytes
  x : Bytes
  y : Bytes
  entries : List Entry
  width : Width
  extensions : Bytes
  hrpIdHash : head.rpIdHash.length = 32
  hflags : attestedCredData head = true
  haaguid : aaguid.length = 16
  hcredentialId : credentialId.length ≤ 1023
  hdistinct : (entries.map Entry.label).Nodup
  hkey : HoldsKey entries x y
  hwidth : width.Fits entries.length
  hextras : ∀ e ∈ entries, e.label ∉ knownLabels → Item 65536 5 0 e.value

def prefixBytes (p : AuthDataPrefix) : Bytes := p.rpIdHash++p.flags::be32 p.signCount

def Registered.authData (r : Registered) : Bytes :=
  prefixBytes r.head++(r.aaguid++(be16 (UInt16.ofNat r.credentialId.length)++
    (r.credentialId++(mapBytes r.width r.entries++r.extensions))))

structure Field where
  key : String
  width : Width
  value : Bytes
  hwidth : width.Fits (asBytes key).length
  hvalue : skipValue value = .ok []

def Field.bytes (f : Field) : Bytes :=
  headBytes f.width 3 (asBytes f.key).length++(asBytes f.key++f.value)

def authDataField (w w' : Width) (authData : Bytes) : Bytes :=
  headBytes w 3 (asBytes "authData").length++(asBytes "authData"++
    (headBytes w' 2 authData.length++authData))

def attestationObject (w wKey wData : Width) (before after : List Field) (authData : Bytes) :
    Bytes :=
  headBytes w 5 (before.length+(after.length+1))++(before.flatMap Field.bytes++
    (authDataField wKey wData authData++after.flatMap Field.bytes))

section RoundTrip
variable {w w' : Width} {authData rest : Bytes}

theorem readText_field {key : String} (hcap : (asBytes key).length ≤ maxString)
    (hfits : w.Fits (asBytes key).length) (rest : Bytes) :
    readText (headBytes w 3 (asBytes key).length++(asBytes key++rest)) = .ok (key,rest) := by
  have hread : readString majorText (headBytes w 3 (asBytes key).length++(asBytes key++rest)) =
      .ok (asBytes key,rest) :=
    (readString_eq_ok (by decide)).mpr ⟨hcap,_,⟨w,hfits,rfl⟩,(List.append_assoc ..).symm⟩
  rw [readText, hread, ok_bind]
  dsimp only
  rw [fromUtf8_asBytes]
  rfl

theorem readFields_others {fs : List Field} (found : Option Bytes) (n : ℕ)
    (h : ∀ f ∈ fs, f.key ≠ "authData" ∧ (asBytes f.key).length ≤ maxString) :
    readFields (fs.length+n) found (fs.flatMap Field.bytes++rest) = readFields n found rest := by
  induction fs with
  | nil => rw [List.length_nil, Nat.zero_add, List.flatMap_nil, List.nil_append]
  | cons f fs ih =>
    obtain ⟨⟨hkey,hcap⟩,hrest⟩ := List.forall_mem_cons.mp h
    rw [List.length_cons, Nat.add_right_comm, readFields, readField, List.flatMap_cons, Field.bytes]
    simp only [List.append_assoc]
    rw [readText_field hcap f.hwidth, ok_bind]
    dsimp only
    rw [if_neg hkey, skipValue_append f.hvalue]
    exact ih hrest

theorem readField_authData (found : Option Bytes) (hcap : authData.length ≤ maxString)
    (hfits : w.Fits (asBytes "authData").length) (hfits' : w'.Fits authData.length) :
    readField found (authDataField w w' authData++rest) = .ok (some authData,rest) := by
  have hread : readBytes (headBytes w' 2 authData.length++(authData++rest)) = .ok (authData,rest) :=
    (readString_eq_ok (by decide)).mpr ⟨hcap,_,⟨w',hfits',rfl⟩,(List.append_assoc ..).symm⟩
  have hkey : (asBytes "authData").length ≤ maxString := by decide
  rw [readField, authDataField]
  simp only [List.append_assoc]
  rw [readText_field hkey hfits, ok_bind]
  dsimp only
  rw [if_pos rfl, hread]
  rfl

theorem extractAuthData_object {wm : Width} {before after : List Field}
    (hothers : ∀ f ∈ before++after, f.key ≠ "authData" ∧ (asBytes f.key).length ≤ maxString)
    (hm : wm.Fits (before.length+(after.length+1))) (hcap : authData.length ≤ maxString)
    (hfits : w.Fits (asBytes "authData").length) (hfits' : w'.Fits authData.length) :
    extractAuthData (attestationObject wm w w' before after authData++rest) = .ok authData := by
  obtain ⟨hbefore,hafter⟩ := List.forall_mem_append.mp hothers
  rw [extractAuthData, attestationObject]
  simp only [List.append_assoc]
  rw [readMapHeader_headBytes hm, mapErr_ok, ok_bind]
  dsimp only
  rw [UInt64.toNat_ofNat_of_lt' (fits_lt hm), readFields_others none _ hbefore, readFields,
    readField_authData none hcap hfits hfits', ok_bind]
  dsimp only
  have hall := @readFields_others rest after (some authData) 0 hafter
  rw [Nat.add_zero] at hall
  rw [hall]
  rfl

theorem prefixBytes_length {p : AuthDataPrefix} (h : p.rpIdHash.length = 32) :
    (prefixBytes p).length = headerLen := by
  simp [prefixBytes, headerLen, h]

theorem parsePrefix_append {p : AuthDataPrefix} (h : p.rpIdHash.length = 32) (rest : Bytes) :
    parsePrefix (prefixBytes p++rest) = .ok p := by
  have hlen : ¬(prefixBytes p++rest).length < headerLen := by
    rw [List.length_append, prefixBytes_length h]
    omega
  have hflags : ∀ q : Bytes, (index (p.rpIdHash++q) 32 : Outcome AuthDataError UInt8) = index q 0 := by
    intro q
    rw [← h]
    exact index_append p.rpIdHash q 0
  have hcount : ∀ q : Bytes, (u32At (p.rpIdHash++q) 33 : Outcome AuthDataError UInt32) =
      u32At q (0+1) := by
    intro q
    rw [show 33 = p.rpIdHash.length+1 by rw [h]]
    exact u32At_append p.rpIdHash q 1
  rw [parsePrefix, rejectIf_neg hlen, ok_bind, prefixBytes]
  simp only [List.append_assoc, List.cons_append]
  rw [slice_before _ _ 32 h.symm, ok_bind, hflags, index_cons, ok_bind, hcount, u32At_skip8,
    u32At_be32, ok_bind]
  rfl

theorem parseAttestedHead_append {head : AuthDataPrefix} {aaguid credentialId : Bytes}
    (hrp : head.rpIdHash.length = 32) (hflags : attestedCredData head = true)
    (haaguid : aaguid.length = 16) (hid : credentialId.length ≤ 1023) (rest : Bytes) :
    parseAttestedHead (prefixBytes head++(aaguid++(be16 (UInt16.ofNat credentialId.length)++
      (credentialId++rest)))) = .ok (head,aaguid,credentialId,rest) := by
  have hlen : (UInt16.ofNat credentialId.length).toNat = credentialId.length :=
    UInt16.toNat_ofNat_of_lt' (show credentialId.length < 65536 by omega)
  have hidLen : ∀ q : Bytes, (u16At (aaguid++q) 16 : Outcome AttestedError UInt16) = u16At q 0 := by
    intro q
    rw [← haaguid]
    exact u16At_append aaguid q 0
  rw [parseAttestedHead, parsePrefix_append hrp, mapErr_ok, ok_bind, rejectIf_neg (by simp [hflags]),
    ok_bind, slice_append _ _ _ _ (prefixBytes_length hrp).symm (List.length_append ..), ok_bind,
    rejectIf_neg, ok_bind, slice_before _ _ 16 haaguid.symm, ok_bind, hidLen, u16At_be16, ok_bind,
    hlen, rejectIf_neg (by omega), ok_bind, ← List.append_assoc aaguid]
  · rw [slice_append _ _ 18 _ (by simp [haaguid]) (List.length_append ..), ok_bind, rejectIf_neg,
      ok_bind, slice_before _ _ _ rfl, ok_bind,
      slice_append _ _ _ _ rfl (List.length_append ..), ok_bind]
    · rfl
    · rw [List.length_append]
      omega
  · simp only [List.length_append, haaguid, be16_length]
    omega

theorem registration_recovers (r : Registered) (hlength : r.authData.length ≤ 65536)
    {before after : List Field} {wm wKey wData : Width}
    (hothers : ∀ f ∈ before++after, f.key ≠ "authData" ∧ (asBytes f.key).length ≤ 65536)
    (hm : wm.Fits (before.length+(after.length+1)))
    (hKey : wKey.Fits (asBytes "authData").length) (hData : wData.Fits r.authData.length)
    (trailing : Bytes) :
    extractAuthData (attestationObject wm wKey wData before after r.authData++trailing) =
        .ok r.authData ∧
      parseAttested r.authData = .ok ⟨r.head,r.aaguid,r.credentialId,4::(r.x++r.y)⟩ := by
  constructor
  · exact extractAuthData_object hothers hm hlength hKey hData
  · have hhead := parseAttestedHead_append r.hrpIdHash r.hflags r.haaguid r.hcredentialId
      (mapBytes r.width r.entries++r.extensions)
    have hdecode := (decodeEs256Rest_iff r.hdistinct r.hwidth r.extensions).mpr
      ⟨r.x,r.y,r.hkey,rfl⟩
    have hskip := (skipValue_of_decoded hdecode).mpr
      ⟨rfl,r.width,r.entries,r.extensions,r.hwidth,rfl,r.hextras⟩
    rw [parseAttested, Registered.authData, hhead, ok_bind]
    dsimp only
    rw [decodeEs256_eq_ok.mpr ⟨_,hdecode⟩, mapErr_ok, ok_bind, hskip]
    rfl

def registered : Registered where
  head := ⟨List.replicate 32 9,0x41,7⟩
  aaguid := List.replicate 16 1
  credentialId := [1,2,3]
  x := xCoord
  y := yCoord
  entries := es256Entries.reverse
  width := .direct
  extensions := [0xA0]
  hrpIdHash := by decide
  hflags := by decide
  haaguid := by decide
  hcredentialId := by decide
  hdistinct := by decide
  hkey := (@es256Entries_holdsKey [] (by decide)).perm (List.reverse_perm _).symm
  hwidth := by decide
  hextras := fun e he hknown => absurd (es256Entries_known e (List.mem_reverse.mp he)) hknown

theorem registered_length : registered.authData.length = 136 := by decide +kernel

def fmt : Field := ⟨"fmt",.direct,[0x64,0x6e,0x6f,0x6e,0x65],by decide,by decide⟩
def attStmt : Field := ⟨"attStmt",.one,[0xA0],by decide,by decide⟩

theorem registration_recovers_between :
    extractAuthData (attestationObject .direct .direct .two [fmt] [attStmt] registered.authData++
        [0xFF]) = .ok registered.authData ∧
      parseAttested registered.authData = .ok ⟨registered.head,registered.aaguid,
        registered.credentialId,4::(xCoord++yCoord)⟩ :=
  registration_recovers registered (by rw [registered_length]; decide) (by decide) (by decide)
    (by decide) (by rw [registered_length]; decide) [0xFF]

def longField (n : ℕ) (h : n < 256^4) : Field where
  key := ofAscii (List.replicate n 0x61)
  width := .four
  value := [0x00]
  hwidth := by
    rw [asBytes_ofAscii fun x hx => by rw [List.eq_of_mem_replicate hx]; decide,
      List.length_replicate]
    exact h
  hvalue := by decide

theorem longField_length {n : ℕ} (h : n < 256^4) : (asBytes (longField n h).key).length = n := by
  rw [longField, asBytes_ofAscii fun x hx => by rw [List.eq_of_mem_replicate hx]; decide,
    List.length_replicate]

/-- A text key of more than 65536 bytes is not read. -/
theorem readField_long {f : Field} (found : Option Bytes) (h : maxString < (asBytes f.key).length) :
    readField found (f.bytes++rest) =
      .err (.tooLarge (UInt64.ofNat (asBytes f.key).length) maxString) := by
  have hlen := UInt64.toNat_ofNat_of_lt' (fits_lt f.hwidth)
  rw [readField, readText, readString, Field.bytes, List.append_assoc,
    readHead_headBytes _ (by decide) f.hwidth, ok_bind]
  dsimp only
  rw [hlen, rejectIf_neg (by decide), ok_bind, rejectIf, if_pos h]
  rfl

theorem long_key_rejected :
    (longField 65537 (by decide)).key ≠ "authData" ∧ registered.authData.length ≤ 65536 ∧
      extractAuthData (attestationObject .direct .direct .two [longField 65537 (by decide)] []
        registered.authData) = .err (.cbor (.tooLarge 65537 65536)) := by
  have hlen := @longField_length 65537 (by decide)
  refine ⟨?_,by rw [registered_length]; decide,?_⟩
  · intro hkey
    rw [hkey] at hlen
    exact absurd hlen (by decide)
  · rw [extractAuthData, attestationObject, readMapHeader_headBytes (by decide), mapErr_ok, ok_bind]
    dsimp only
    rw [show (UInt64.ofNat _).toNat = 1+1 from rfl, readFields, List.flatMap_cons,
      List.append_assoc, readField_long none (by rw [hlen]; decide), hlen]
    rfl

end RoundTrip

end Term.Registration
