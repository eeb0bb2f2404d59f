import TermMux.Base64
import TermMux.CreatedOnce
import TermMux.TokenCache
import TermMux.Webauthn

/-!
# The signed registration envelope

The hub keeps no state of a registration: what it must know later travels in an
envelope through the browser and the operator's clipboard, tagged with a key
that only the hub host has. `SignedEnvelope` with `sign` and `verify`, the
paste blob with its decoder, and `load_or_create_secret`. Apart from the blob,
text is its bytes. The keyed hash and JSON are parameters; the hash takes keys
of any length.
-/

set_option autoImplicit false

namespace Term.Envelope
open Term.ByteOrder Term.Outcome Term.Utf8Text Term.Machine Term.TokenCache

structure EnvelopeInner where
  rpId : Bytes
  origin : Bytes
  /-- Seconds since the Unix epoch. -/
  issuedAt : UInt64
  challengeB64u : Bytes
  deriving DecidableEq, Repr

structure SignedEnvelope where
  inner : EnvelopeInner
  hmacB64 : Bytes
  deriving DecidableEq, Repr

/-- The attestation response of the browser. Nobody reads the two ids. -/
structure RegistrationResponse where
  id : Bytes
  rawId : Bytes
  ty : Bytes
  clientDataJson : Bytes
  attestationObject : Bytes
  deriving DecidableEq, Repr

structure PasteBlob where
  envelope : SignedEnvelope
  response : RegistrationResponse
  label : Option String
  deriving DecidableEq, Repr

structure Codecs where
  hmac : Bytes → Bytes → Bytes
  innerToVec : EnvelopeInner → Bytes
  blobFromSlice : Bytes → Option PasteBlob

inductive Undecoded where
  | base64
  | json
  | challengeLen (len : ℕ)
  deriving DecidableEq, Repr

inductive EnvelopeError where
  | time
  | hmacMismatch
  | expired (ageSecs ttl : ℕ)
  | decode (e : Undecoded)
  deriving DecidableEq, Repr

def envelopeTtlSecs : ℕ := 10*60
def challengeLen : ℕ := 32
def secretLen : ℕ := 32

def b64Encode (b : Bytes) : Bytes := Base64.encode Base64.standard b

def b64Decode (t : Bytes) : Outcome EnvelopeError Bytes :=
  orElse (Base64.decode Base64.standard t) (.decode .base64)

def SignedEnvelope.sign (libs : Codecs) (inner : EnvelopeInner) (key : Bytes) : SignedEnvelope :=
  ⟨inner,b64Encode (libs.hmac key (libs.innerToVec inner))⟩

/-- The clock is `none` before the epoch. -/
def SignedEnvelope.verify (libs : Codecs) (e : SignedEnvelope) (key : Bytes)
    (now : Option UInt64) : Outcome EnvelopeError EnvelopeInner := do
  let expected := libs.hmac key (libs.innerToVec e.inner)
  let provided ← b64Decode e.hmacB64
  rejectIf (provided.length ≠ expected.length) .hmacMismatch
  rejectIf (Webauthn.difference provided expected ≠ 0) .hmacMismatch
  let now ← orElse now .time
  let age := now.toNat-e.inner.issuedAt.toNat
  rejectIf (envelopeTtlSecs < age) (.expired age envelopeTtlSecs)
  return e.inner

def issuedAtNow (now : Option UInt64) : UInt64 := now.getD 0

def EnvelopeInner.challenge (inner : EnvelopeInner) : Outcome EnvelopeError Bytes := do
  let v ← orElse (Base64.decode Base64.urlSafe inner.challengeB64u) (.decode .base64)
  rejectIf (v.length ≠ challengeLen) (.decode (.challengeLen v.length))
  return v

def cleaned (s : String) : String := String.ofList (s.toList.filter fun c => !isWhitespace c)

def decodePasteBlob (libs : Codecs) (s : String) : Outcome EnvelopeError PasteBlob := do
  let bytes ← b64Decode (asBytes (cleaned s))
  orElse (libs.blobFromSlice bytes) (.decode .json)

def openPaste (libs : Codecs) (key : Bytes) (now : Option UInt64) (blobText : String) :
    Outcome EnvelopeError (PasteBlob × EnvelopeInner) := do
  let paste ← decodePasteBlob libs (trimText blobText)
  let inner ← paste.envelope.verify libs key now
  return (paste,inner)

def secretStep : CreatedOnce.World → CreatedOnce.Act → Option CreatedOnce.World :=
  CreatedOnce.step secretLen

section Tags
variable {libs : Codecs} {inner : EnvelopeInner} {e : SignedEnvelope} {key b t : Bytes}
  {now : Option UInt64}

theorem foldl_difference (ps : List (UInt8 × UInt8)) (d : UInt8) :
    ps.foldl (fun d p => d ||| (p.1 ^^^ p.2)) d = 0 ↔ d = 0 ∧ ∀ p ∈ ps, p.1 = p.2 := by
  induction ps generalizing d with
  | nil => simp
  | cons p ps ih =>
    rw [List.foldl_cons, ih, UInt8.or_eq_zero_iff, UInt8.xor_eq_zero_iff, List.forall_mem_cons,
      and_assoc]

theorem eq_of_zip {a c : Bytes} (hlen : a.length = c.length) (h : ∀ p ∈ a.zip c, p.1 = p.2) :
    a = c := by
  induction a generalizing c with
  | nil => exact (List.eq_nil_of_length_eq_zero hlen.symm).symm
  | cons x a ih =>
    cases c with
    | nil => cases hlen
    | cons y c =>
      rw [List.zip_cons_cons, List.forall_mem_cons] at h
      rw [show x = y from h.1, ih (Nat.succ.inj hlen) h.2]

theorem difference_eq_zero {a c : Bytes} (hlen : a.length = c.length) :
    Webauthn.difference a c = 0 ↔ a = c := by
  rw [Webauthn.difference, foldl_difference]
  constructor
  · intro h
    exact eq_of_zip hlen h.2
  · intro h
    subst h
    refine ⟨rfl,fun p hp => ?_⟩
    have ⟨i,hi⟩ := List.mem_iff_getElem?.mp hp
    rw [List.getElem?_zip_eq_some] at hi
    exact Option.some.inj (hi.1.symm.trans hi.2)

theorem b64Decode_eq_ok : b64Decode t = .ok b ↔ t = b64Encode b := by
  rw [b64Decode, orElse_eq_ok]
  exact Base64.decode_eq_some_iff fun _ h => Base64.value_symbol_standard h

/-- An envelope passes exactly as it was signed, and until its age is above the
limit; one from the future passes. -/
theorem verify_eq_ok : e.verify libs key now = .ok inner ↔
    e = .sign libs inner key ∧
      ∃ n, now = some n ∧ n.toNat ≤ inner.issuedAt.toNat+envelopeTtlSecs := by
  simp only [SignedEnvelope.verify, bind_eq_ok, rejectIf_eq_ok, orElse_eq_ok, pure_eq_ok,
    b64Decode_eq_ok, not_not]
  constructor
  · rintro ⟨provided,htag,-,hlen,-,hdiff,n,hn,-,hage,rfl⟩
    rw [difference_eq_zero hlen] at hdiff
    subst hdiff
    refine ⟨?_,n,hn,by omega⟩
    rw [SignedEnvelope.sign, ← htag]
  · rintro ⟨rfl,n,hn,hage⟩
    refine ⟨_,rfl,(),rfl,(),(difference_eq_zero rfl).mpr rfl,n,hn,(),?_,rfl⟩
    show ¬envelopeTtlSecs < n.toNat-inner.issuedAt.toNat
    omega

theorem challenge_eq_ok {challenge : Bytes} : inner.challenge = .ok challenge ↔
    inner.challengeB64u = Webauthn.toB64url challenge ∧ challenge.length = challengeLen := by
  simp only [EnvelopeInner.challenge, bind_eq_ok, rejectIf_eq_ok, orElse_eq_ok, pure_eq_ok,
    not_not, Base64.decode_eq_some_iff fun _ h => Base64.value_symbol_urlSafe h, Webauthn.toB64url]
  constructor
  · rintro ⟨v,hv,-,hlen,rfl⟩
    exact ⟨hv,hlen⟩
  · rintro ⟨hv,hlen⟩
    exact ⟨_,hv,(),hlen,rfl⟩

theorem filter_dropWhile {α : Type} (p : α → Bool) (l : List α) :
    (l.dropWhile p).filter (fun c => !p c) = l.filter fun c => !p c := by
  induction l with
  | nil => rfl
  | cons c l ih =>
    by_cases hc : p c = true
    · rw [List.dropWhile_cons_of_pos hc, ih, List.filter_cons_of_neg (by simp [hc])]
    · rw [List.dropWhile_cons_of_neg hc]

theorem cleaned_trimText (s : String) : cleaned (trimText s) = cleaned s := by
  have hreverse : ∀ l : List Char, (l.reverse.dropWhile isWhitespace).reverse.filter
      (fun c => !isWhitespace c) = l.filter fun c => !isWhitespace c := by
    intro l
    rw [List.filter_reverse, filter_dropWhile, List.filter_reverse, List.reverse_reverse]
  rw [cleaned, trimText, String.toList_ofList, hreverse, filter_dropWhile, cleaned]

/-- Whitespace aside, a blob has one spelling. -/
theorem decodePasteBlob_eq_ok {s : String} {blob : PasteBlob} :
    decodePasteBlob libs s = .ok blob ↔
      ∃ json, asBytes (cleaned s) = b64Encode json ∧ libs.blobFromSlice json = some blob := by
  simp only [decodePasteBlob, bind_eq_ok, b64Decode_eq_ok, orElse_eq_ok]

theorem openPaste_eq_ok {s : String} {blob : PasteBlob} :
    openPaste libs key now s = .ok (blob,inner) ↔
      (∃ json, asBytes (cleaned s) = b64Encode json ∧ libs.blobFromSlice json = some blob) ∧
      blob.envelope = .sign libs inner key ∧
      ∃ n, now = some n ∧ n.toNat ≤ inner.issuedAt.toNat+envelopeTtlSecs := by
  simp only [openPaste, bind_eq_ok, decodePasteBlob_eq_ok, cleaned_trimText, verify_eq_ok,
    pure_eq_ok, Prod.mk.injEq]
  constructor
  · rintro ⟨_,hjson,_,⟨henvelope,hnow⟩,rfl,rfl⟩
    exact ⟨hjson,henvelope,hnow⟩
  · rintro ⟨hjson,henvelope,hnow⟩
    exact ⟨_,hjson,_,⟨henvelope,hnow⟩,rfl,rfl⟩

end Tags

section Secrets
variable {u v : CreatedOnce.World} {file : Option Bytes} {as bs : List CreatedOnce.Act}
  {a b : Bytes}

theorem secretOk_run (h : run secretStep (.start file) as = some u) :
    CreatedOnce.OnceOk secretLen u :=
  CreatedOnce.onceOk_run (CreatedOnce.onceOk_start file) h

theorem secret_agree (hu : run secretStep (.start file) as = some u)
    (hv : run secretStep u bs = some v) (ha : .returned a ∈ u.parties ∨ .returned a ∈ v.parties)
    (hb : .returned b ∈ u.parties ∨ .returned b ∈ v.parties) : a = b := by
  have hok := secretOk_run hu
  have hlate := CreatedOnce.onceOk_run hok hv
  have hearly : ∀ c, .returned c ∈ u.parties → ∀ d, .returned d ∈ v.parties → c = d :=
    fun c hc d hd => CreatedOnce.returned_agree hok hv hc hd
  have hsame : ∀ w, CreatedOnce.OnceOk secretLen w → ∀ c d, .returned c ∈ w.parties →
      .returned d ∈ w.parties → c = d := by
    intro w hw c d hc hd
    have hstay : run secretStep w [] = some w := rfl
    exact CreatedOnce.returned_agree hw hstay hc hd
  rcases ha with ha | ha
  · rcases hb with hb | hb
    · exact hsame u hok a b ha hb
    · exact hearly a ha b hb
  · rcases hb with hb | hb
    · exact (hearly b hb a ha).symm
    · exact hsame v hlate a b ha hb

/-- However the starts of the hub and of its administrator interleave and wherever they are
killed, the secrets that they come to use are one, and it is how the file begins. A file left
short by a party that was killed stays, and nobody gets a secret. -/
theorem secret_shared (hu : run secretStep (.start file) as = some u)
    (hv : run secretStep u bs = some v) :
    (∀ a b, .returned a ∈ u.parties → .returned b ∈ v.parties →
      a = b ∧ a.length = 32 ∧ ∃ contents, v.file = some contents ∧ contents.take 32 = a) ∧
    ∀ contents, CreatedOnce.Stuck 32 contents u →
      v.file = some contents ∧ ∀ a, .returned a ∉ v.parties := by
  have hok := secretOk_run hu
  constructor
  · intro a b ha hb
    have ⟨hlen,contents,hfile,hvalue⟩ := CreatedOnce.returned_prefix hok ha hv
    exact ⟨CreatedOnce.returned_agree hok hv ha hb,hlen,contents,hfile,hvalue⟩
  · intro contents hstuck
    have hlate := CreatedOnce.stuck_run hstuck hv
    exact ⟨hlate.1,fun a => CreatedOnce.stuck_none_returned hlate (CreatedOnce.onceOk_run hok hv)⟩

def sampleSecret : Bytes := (List.range 32).map UInt8.ofNat

def sampleRace : List CreatedOnce.Act :=
  [.spawn,.spawn,.openFile 0 sampleSecret,.openFile 1 (List.replicate 32 7),.create 0,.create 1,
    .write 0 20,.write 0 12,.finish 0]

def sampleReads : List CreatedOnce.Act := [.spawn,.openFile 2 [],.read 2 30,.read 2 30]

def hubReady : CreatedOnce.World := ⟨some sampleSecret,[.returned sampleSecret,.failed]⟩

def bothReady : CreatedOnce.World :=
  ⟨some sampleSecret,[.returned sampleSecret,.failed,.returned sampleSecret]⟩

theorem run_sampleRace : run secretStep (.start none) sampleRace = some hubReady := by decide

theorem run_sampleReads : run secretStep hubReady sampleReads = some bothReady := by decide

theorem secret_shared_race : bothReady.file.map (·.take 32) = some sampleSecret := by
  have ⟨_,_,contents,hfile,htake⟩ := (secret_shared run_sampleRace run_sampleReads).1 sampleSecret
    sampleSecret (by decide) (by decide)
  rw [hfile, Option.map_some, htake]

/-- A paste gets past the administrator, whatever whitespace its text has taken up, exactly if
its envelope is what a hub of this installation would have signed, at most ten minutes ago. -/
theorem paste_opens_iff (libs : Codecs) {signer opener : Bytes}
    (hu : run secretStep (.start file) as = some u) (hv : run secretStep u bs = some v)
    (hsigner : .returned signer ∈ u.parties ∨ .returned signer ∈ v.parties)
    (hopener : .returned opener ∈ u.parties ∨ .returned opener ∈ v.parties)
    (blobText : String) (now : Option UInt64) (blob : PasteBlob) (inner : EnvelopeInner) :
    openPaste libs opener now blobText = .ok (blob,inner) ↔
      (∃ json, asBytes (String.ofList (blobText.toList.filter fun c => !isWhitespace c)) =
          Base64.encode Base64.standard json ∧ libs.blobFromSlice json = some blob) ∧
        blob.envelope = .sign libs inner signer ∧
        ∃ n, now = some n ∧ n.toNat ≤ inner.issuedAt.toNat+600 := by
  rw [secret_agree hu hv hsigner hopener]
  exact openPaste_eq_ok

def sampleInner : EnvelopeInner where
  rpId := asBytes "term.example"
  origin := asBytes "https://term.example"
  issuedAt := 1700000000
  challengeB64u := asBytes "ICEiIyQlJicoKSorLC0uLzAxMjM0NTY3ODk6Ozw9Pj8"

def sampleInnerJson : Bytes :=
  asBytes "\x7b\"rp_id\":\"term.example\",\"origin\":\"https://term.example\","++
    asBytes "\"issued_at\":1700000000,"++
    asBytes "\"challenge_b64u\":\"ICEiIyQlJicoKSorLC0uLzAxMjM0NTY3ODk6Ozw9Pj8\"\x7d"

def sampleTag : Bytes :=
  [0xDF,0x1D,0xD4,0xAC,0xF2,0x7C,0x5B,0xFC,0x8E,0x50,0xDA,0x2D,0x25,0x60,0x91,0x33,
    0x00,0x0C,0xCC,0x18,0x56,0x04,0xA5,0xF4,0x98,0x0C,0xF0,0x2C,0x8C,0x24,0x1D,0xE3]

def sampleBlob : PasteBlob where
  envelope := ⟨sampleInner,asBytes "3x3UrPJ8W/yOUNotJWCRMwAMzBhWBKX0mAzwLIwkHeM"⟩
  response := ⟨asBytes "AQID",asBytes "AQID",asBytes "public-key",asBytes "e30",asBytes "oA"⟩
  label := none

def sampleJson : Bytes :=
  asBytes "\x7b\"envelope\":\x7b\"inner\":"++sampleInnerJson++
    asBytes ",\"hmac_b64\":\"3x3UrPJ8W/yOUNotJWCRMwAMzBhWBKX0mAzwLIwkHeM\"\x7d,"++
    asBytes "\"response\":\x7b\"id\":\"AQID\",\"rawId\":\"AQID\",\"type\":\"public-key\","++
    asBytes "\"extensions\":\x7b\x7d,\"response\":\x7b\"clientDataJSON\":\"e30\","++
    asBytes "\"attestationObject\":\"oA\"\x7d\x7d,\"label\":null\x7d"

def sampleCodecs : Codecs where
  hmac key msg := if key = sampleSecret ∧ msg = sampleInnerJson then sampleTag else []
  innerToVec inner := if inner = sampleInner then sampleInnerJson else []
  blobFromSlice json := if json = sampleJson then some sampleBlob else none

def sampleChars : List Char :=
  let symbols := (b64Encode sampleJson).map fun b => Char.ofNat b.toNat
  symbols.take 76++('\n'::(symbols.drop 76++['\n']))

theorem paste_opens_sample :
    openPaste sampleCodecs sampleSecret (some 1700000600) (String.ofList sampleChars) =
      .ok (sampleBlob,sampleInner) := by
  have hsigner : .returned sampleSecret ∈ hubReady.parties := by decide
  have hopener : .returned sampleSecret ∈ bothReady.parties := by decide
  have hblob : sampleCodecs.blobFromSlice sampleJson = some sampleBlob := by
    simp only [sampleCodecs, if_true]
  refine (paste_opens_iff sampleCodecs run_sampleRace run_sampleReads (.inl hsigner) (.inr hopener)
    _ _ _ _).mpr ⟨⟨sampleJson,?_,hblob⟩,?_,_,rfl,by decide⟩
  · rw [String.toList_ofList, asBytes_ofList]
    decide +kernel
  · decide +kernel

end Secrets

end Term.Envelope
