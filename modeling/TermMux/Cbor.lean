import TermMux.CborItem
import TermMux.Outcome
import TermMux.Utf8Text

/-!
# The CBOR reader

Each reader takes the buffer and returns what it read with the rest of the buffer.
`skip_value` descends with a bound on the nesting and loops over counts that come from the
input. A loop ends at the first item that cannot be read, and every item takes at least one
byte, so a declared count costs no more than the bytes that are there.
-/

set_option autoImplicit false

namespace Term.Cbor
open Term.ByteOrder Term.CborItem Term.Outcome Term.Utf8Text

inductive CborError where
  | eof (need : ℕ)
  | unsupportedInfo (major info : UInt8)
  | wrongMajor (expected got : UInt8)
  | tooLarge (n : UInt64) (cap : ℕ)
  | utf8
  | nestingTooDeep
  deriving DecidableEq, Repr

def maxString : ℕ := 64*1024
def maxNesting : ℕ := 6

def majorUint : UInt8 := 0
def majorNint : UInt8 := 1
def majorBytes : UInt8 := 2
def majorText : UInt8 := 3
def majorArray : UInt8 := 4
def majorMap : UInt8 := 5

def take (buf : Bytes) (n : ℕ) : Outcome CborError (Bytes × Bytes) := do
  rejectIf (buf.length < n) (.eof (n-buf.length))
  return (buf.take n,buf.drop n)

def peekHeader (buf : Bytes) : Outcome CborError (UInt8 × UInt8) := do
  rejectIf (buf = []) (.eof 1)
  let b ← index buf 0
  return (b >>> 5,b &&& 0x1F)

def readHead (buf : Bytes) : Outcome CborError (UInt8 × UInt64 × Bytes) := do
  let (major,info) ← peekHeader buf
  let (_,buf) ← take buf 1
  if info ≤ 23 then return (major,info.toUInt64,buf)
  else if info = 24 then do
    let (b,buf) ← take buf 1
    let v ← index b 0
    return (major,v.toUInt64,buf)
  else if info = 25 then do
    let (b,buf) ← take buf 2
    let v ← u16At b 0
    return (major,v.toUInt64,buf)
  else if info = 26 then do
    let (b,buf) ← take buf 4
    let v ← u32At b 0
    return (major,v.toUInt64,buf)
  else if info = 27 then do
    let (b,buf) ← take buf 8
    let v ← u64At b 0
    return (major,v,buf)
  else .err (.unsupportedInfo major info)

def i64Max : ℕ := 2^63-1

/-- `i64::try_from`. -/
def toI64 (v : ℤ) (n : UInt64) : Outcome CborError ℤ :=
  if -2^63 ≤ v ∧ v < 2^63 then .ok v else .err (.tooLarge n i64Max)

def readInt (buf : Bytes) : Outcome CborError (ℤ × Bytes) := do
  let (m,v,buf) ← readHead buf
  if m = majorUint then return (← toI64 v.toNat v,buf)
  else if m = majorNint then return (← toI64 (-1-v.toNat) v,buf)
  else .err (.wrongMajor majorUint m)

def readString (expected : UInt8) (buf : Bytes) : Outcome CborError (Bytes × Bytes) := do
  let (m,len,buf) ← readHead buf
  rejectIf (m ≠ expected) (.wrongMajor expected m)
  rejectIf (maxString < len.toNat) (.tooLarge len maxString)
  take buf len.toNat

def readBytes (buf : Bytes) : Outcome CborError (Bytes × Bytes) := readString majorBytes buf

def readText (buf : Bytes) : Outcome CborError (String × Bytes) := do
  let (raw,buf) ← readString majorText buf
  return (← orElse (fromUtf8 raw) .utf8,buf)

def readMapHeader (buf : Bytes) : Outcome CborError (UInt64 × Bytes) := do
  let (m,n,buf) ← readHead buf
  rejectIf (m ≠ majorMap) (.wrongMajor majorMap m)
  return (n,buf)

/-- `for _ in 0..n { skip(buf)?; }` -/
def skipTimes (skip : Bytes → Outcome CborError Bytes) : ℕ → Bytes → Outcome CborError Bytes
  | 0, buf => .ok buf
  | n+1, buf => do skipTimes skip n (← skip buf)

/-- `skip_value_depth`, at the depth `maxNesting+1-room`. -/
def skipValueDepth : ℕ → Bytes → Outcome CborError Bytes
  | 0, _ => .err .nestingTooDeep
  | room+1, buf => do
    let (major,len,buf) ← readHead buf
    if major = majorUint ∨ major = majorNint then return buf
    else if major = majorBytes ∨ major = majorText then do
      rejectIf (maxString < len.toNat) (.tooLarge len maxString)
      let (_,buf) ← take buf len.toNat
      return buf
    else if major = majorArray then skipTimes (skipValueDepth room) len.toNat buf
    else if major = majorMap then
      skipTimes (fun buf => do skipValueDepth room (← skipValueDepth room buf)) len.toNat buf
    else .err (.unsupportedInfo major 0)

def skipValue (buf : Bytes) : Outcome CborError Bytes := skipValueDepth (maxNesting+1) buf

section Heads
variable {b buf rest : Bytes} {major : UInt8} {v : UInt64} {w : Width}

theorem initial_byte (x : UInt8) :
    (x >>> 5).toNat = x.toNat/32 ∧ (x &&& 0x1F).toNat = x.toNat%32 := by
  have hall : ∀ n < 256, (UInt8.ofNat n >>> 5).toNat = n/32 ∧
      (UInt8.ofNat n &&& 0x1F).toNat = n%32 := by decide +kernel
  have hx := hall x.toNat x.toNat_lt
  rwa [UInt8.ofNat_toNat] at hx

theorem take_eq_ok {n : ℕ} {h : Bytes} :
    take buf n = .ok (h,rest) ↔ h.length = n ∧ buf = h++rest := by
  simp only [take, bind_eq_ok, rejectIf_eq_ok, pure_eq_ok, Prod.mk.injEq, exists_const]
  constructor
  · rintro ⟨hlen,rfl,rfl⟩
    exact ⟨by rw [List.length_take]; omega,(List.take_append_drop n buf).symm⟩
  · rintro ⟨rfl,rfl⟩
    exact ⟨by simp,by simp,by simp⟩

theorem peekHeader_cons (x : UInt8) (q : Bytes) :
    peekHeader (x::q) = .ok (x >>> 5,x &&& 0x1F) := rfl

theorem take_cons (x : UInt8) (q : Bytes) : take (x::q) 1 = .ok ([x],q) :=
  take_eq_ok.mpr ⟨rfl,rfl⟩

theorem take_append {h : Bytes} {n : ℕ} (rest : Bytes) (hn : h.length = n) :
    take (h++rest) n = .ok (h,rest) :=
  take_eq_ok.mpr ⟨hn,rfl⟩

theorem toNat_byte {n : ℕ} (h : n < 256) : (UInt8.ofNat n).toNat = n :=
  UInt8.toNat_ofNat_of_lt' h

theorem initial_parts {m i : ℕ} (hm : m < 8) (hi : i < 32) :
    UInt8.ofNat (32*m+i) >>> 5 = UInt8.ofNat m ∧ UInt8.ofNat (32*m+i) &&& 0x1F = UInt8.ofNat i := by
  obtain ⟨hmajor,hinfo⟩ := initial_byte (UInt8.ofNat (32*m+i))
  rw [toNat_byte (show 32*m+i < 256 by omega)] at hmajor hinfo
  constructor
  · apply UInt8.toNat_inj.mp
    rw [hmajor, toNat_byte (show m < 256 by omega)]
    omega
  · apply UInt8.toNat_inj.mp
    rw [hinfo, toNat_byte (show i < 256 by omega)]
    omega

section Arguments
variable {ε : Type} {n : ℕ}

theorem index_beBytes : (index (beBytes 1 n) 0 : Outcome ε UInt8) = .ok (UInt8.ofNat n) := by
  simp [beBytes]

theorem u16At_beBytes (h : n < 256^2) :
    (u16At (beBytes 2 n) 0 : Outcome ε UInt16) = .ok (UInt16.ofNat n) := by
  refine u16At_eq_ok.mpr ⟨by rw [beBytes_length],?_⟩
  rw [List.drop_zero, List.take_of_length_le (by rw [beBytes_length]), ofBe16,
    beNat_beBytes_of_lt 2 n h]

theorem u32At_beBytes (h : n < 256^4) :
    (u32At (beBytes 4 n) 0 : Outcome ε UInt32) = .ok (UInt32.ofNat n) := by
  refine u32At_eq_ok.mpr ⟨by rw [beBytes_length],?_⟩
  rw [List.drop_zero, List.take_of_length_le (by rw [beBytes_length]), ofBe32,
    beNat_beBytes_of_lt 4 n h]

theorem u64At_beBytes (h : n < 256^8) :
    (u64At (beBytes 8 n) 0 : Outcome ε UInt64) = .ok (UInt64.ofNat n) := by
  refine u64At_eq_ok.mpr ⟨by rw [beBytes_length],?_⟩
  rw [List.drop_zero, List.take_of_length_le (by rw [beBytes_length]), ofBe64,
    beNat_beBytes_of_lt 8 n h]

end Arguments

theorem readHead_headBytes {m n : ℕ} (rest : Bytes) (hm : m < 8) (hfits : w.Fits n) :
    readHead (headBytes w m n++rest) = .ok (UInt8.ofNat m,UInt64.ofNat n,rest) := by
  obtain ⟨hmajor,hinfo⟩ := initial_parts hm (info_lt hfits)
  rw [readHead, headBytes, List.cons_append, peekHeader_cons, ok_bind, hmajor]
  dsimp only
  rw [take_cons, ok_bind]
  dsimp only
  have hn := fits_lt hfits
  cases w with
  | direct =>
    have hlt : n < 24 := hfits
    have hle : UInt8.ofNat n ≤ 23 := by
      rw [UInt8.le_iff_toNat_le, toNat_byte (by omega)]
      exact Nat.le_of_lt_succ hlt
    have harg : (UInt8.ofNat n).toUInt64 = UInt64.ofNat n := by
      apply UInt64.toNat_inj.mp
      rw [UInt8.toNat_toUInt64, toNat_byte (by omega), UInt64.toNat_ofNat_of_lt' hn]
    replace hinfo : _ = UInt8.ofNat n := hinfo
    rw [hinfo, if_pos hle, harg]
    rfl
  | one =>
    have hlt : n < 256 := hfits
    have harg : (UInt8.ofNat n).toUInt64 = UInt64.ofNat n := by
      apply UInt64.toNat_inj.mp
      rw [UInt8.toNat_toUInt64, toNat_byte hlt, UInt64.toNat_ofNat_of_lt' hn]
    replace hinfo : _ = (24 : UInt8) := hinfo
    rw [hinfo, if_neg (by decide), if_pos rfl]
    dsimp only [Width.bytes]
    rw [take_append rest (beBytes_length 1 n), ok_bind]
    dsimp only
    rw [index_beBytes, ok_bind, harg]
    rfl
  | two =>
    have hlt : n < 256^2 := hfits
    have harg : (UInt16.ofNat n).toUInt64 = UInt64.ofNat n := by
      apply UInt64.toNat_inj.mp
      rw [UInt16.toNat_toUInt64, UInt16.toNat_ofNat_of_lt' hlt, UInt64.toNat_ofNat_of_lt' hn]
    replace hinfo : _ = (25 : UInt8) := hinfo
    rw [hinfo, if_neg (by decide), if_neg (by decide), if_pos rfl]
    dsimp only [Width.bytes]
    rw [take_append rest (beBytes_length 2 n), ok_bind]
    dsimp only
    rw [u16At_beBytes hlt, ok_bind, harg]
    rfl
  | four =>
    have hlt : n < 256^4 := hfits
    have harg : (UInt32.ofNat n).toUInt64 = UInt64.ofNat n := by
      apply UInt64.toNat_inj.mp
      rw [UInt32.toNat_toUInt64, UInt32.toNat_ofNat_of_lt' hlt, UInt64.toNat_ofNat_of_lt' hn]
    replace hinfo : _ = (26 : UInt8) := hinfo
    rw [hinfo, if_neg (by decide), if_neg (by decide), if_neg (by decide), if_pos rfl]
    dsimp only [Width.bytes]
    rw [take_append rest (beBytes_length 4 n), ok_bind]
    dsimp only
    rw [u32At_beBytes hlt, ok_bind, harg]
    rfl
  | eight =>
    have hlt : n < 256^8 := hfits
    replace hinfo : _ = (27 : UInt8) := hinfo
    rw [hinfo, if_neg (by decide), if_neg (by decide), if_neg (by decide), if_neg (by decide),
      if_pos rfl]
    dsimp only [Width.bytes]
    rw [take_append rest (beBytes_length 8 n), ok_bind]
    dsimp only
    rw [u64At_beBytes hlt, ok_bind]
    rfl

theorem readHead_inversion (h : readHead buf = .ok (major,v,rest)) :
    ∃ w : Width, w.Fits v.toNat ∧ major.toNat < 8 ∧
      buf = headBytes w major.toNat v.toNat++rest := by
  cases buf with
  | nil => simp [readHead, peekHeader, bind_eq_ok, rejectIf_eq_ok] at h
  | cons x q =>
    obtain ⟨hmajor,hinfo⟩ := initial_byte x
    have hx := x.toNat_lt
    rw [readHead, peekHeader_cons, ok_bind] at h
    dsimp only at h
    rw [take_cons, ok_bind] at h
    dsimp only at h
    -- The initial byte in terms of the width that its information names.
    have hhead : ∀ (w : Width) (n : ℕ), (x &&& 0x1F).toNat = w.info n →
        x::beBytes w.bytes n = headBytes w (x >>> 5).toNat n := by
      intro w n hi
      rw [headBytes, hmajor, ← hi, hinfo, Nat.div_add_mod, UInt8.ofNat_toNat]
    have hlt : (x >>> 5).toNat < 8 := by
      rw [hmajor]
      omega
    split_ifs at h with h1 h2 h3 h4 h5
    · cases h
      have hdirect : (x &&& 0x1F).toUInt64.toNat < 24 := by
        rw [UInt8.toNat_toUInt64]
        exact Nat.lt_succ_of_le (UInt8.le_iff_toNat_le.mp h1)
      refine ⟨.direct,hdirect,hlt,?_⟩
      have hx := hhead .direct (x &&& 0x1F).toUInt64.toNat (UInt8.toNat_toUInt64 _).symm
      exact congrArg (·++rest) hx
    all_goals simp only [bind_eq_ok, take_eq_ok, index_eq_ok, u16At_eq_ok, u32At_eq_ok,
      u64At_eq_ok, pure_eq_ok, Prod.mk.injEq, Prod.exists] at h
    · obtain ⟨bs,r,⟨hlen,rfl⟩,y,hy,rfl,rfl,rfl⟩ := h
      obtain ⟨y',rfl⟩ := List.length_eq_one_iff.mp hlen
      obtain rfl : y' = y := by simpa using hy
      refine ⟨.one,?_,hlt,?_⟩
      · rw [UInt8.toNat_toUInt64]
        exact y'.toNat_lt
      · rw [UInt8.toNat_toUInt64, ← hhead .one _ (congrArg UInt8.toNat h2)]
        simp [Width.bytes, beBytes]
    · obtain ⟨bs,r,⟨hlen,rfl⟩,y,⟨hlen',rfl⟩,rfl,rfl,rfl⟩ := h
      refine ⟨.two,?_,hlt,?_⟩
      · rw [UInt16.toNat_toUInt64]
        exact UInt16.toNat_lt _
      · rw [UInt16.toNat_toUInt64, ← hhead .two _ (congrArg UInt8.toNat h3), List.drop_zero,
          List.take_of_length_le (by omega)]
        exact congrArg (fun e => x::(e++r)) (be16_ofBe16 hlen).symm
    · obtain ⟨bs,r,⟨hlen,rfl⟩,y,⟨hlen',rfl⟩,rfl,rfl,rfl⟩ := h
      refine ⟨.four,?_,hlt,?_⟩
      · rw [UInt32.toNat_toUInt64]
        exact UInt32.toNat_lt _
      · rw [UInt32.toNat_toUInt64, ← hhead .four _ (congrArg UInt8.toNat h4), List.drop_zero,
          List.take_of_length_le (by omega)]
        exact congrArg (fun e => x::(e++r)) (be32_ofBe32 hlen).symm
    · obtain ⟨bs,r,⟨hlen,rfl⟩,y,⟨hlen',rfl⟩,rfl,rfl,rfl⟩ := h
      refine ⟨.eight,UInt64.toNat_lt _,hlt,?_⟩
      rw [← hhead .eight _ (congrArg UInt8.toNat h5), List.drop_zero,
        List.take_of_length_le (by omega)]
      exact congrArg (fun e => x::(e++r)) (be64_ofBe64 hlen).symm

theorem readHead_eq_ok : readHead buf = .ok (major,v,rest) ↔
    ∃ w : Width, w.Fits v.toNat ∧ major.toNat < 8 ∧
      buf = headBytes w major.toNat v.toNat++rest := by
  constructor
  · exact readHead_inversion
  · rintro ⟨w,hfits,hlt,rfl⟩
    rw [readHead_headBytes rest hlt hfits, UInt8.ofNat_toNat, UInt64.ofNat_toNat]

theorem take_ne_panicked {n : ℕ} : take buf n ≠ .panicked :=
  bind_ne_panicked rejectIf_ne_panicked fun _ _ => nofun

theorem take_bind_ne_panicked {α : Type} {n : ℕ} {f : Bytes × Bytes → Outcome CborError α}
    (hf : ∀ p : Bytes × Bytes, p.1.length = n → f p ≠ .panicked) : (take buf n >>= f) ≠ .panicked :=
  bind_ne_panicked take_ne_panicked fun p hp => hf p (take_eq_ok.mp hp).1

/-- Every read behind a `take` finds its bytes. -/
theorem readHead_ne_panicked : readHead buf ≠ .panicked := by
  cases buf with
  | nil => exact nofun
  | cons x q =>
    rw [readHead, peekHeader_cons, ok_bind]
    dsimp only
    rw [take_cons, ok_bind]
    dsimp only
    split_ifs
    · exact nofun
    · apply take_bind_ne_panicked
      intro p hlen
      rw [index_eq_ok.mpr (List.getElem?_eq_getElem (show 0 < p.1.length by omega))]
      exact nofun
    · apply take_bind_ne_panicked
      intro p hlen
      rw [u16At_eq_ok.mpr ⟨show 0+2 ≤ p.1.length by omega,rfl⟩]
      exact nofun
    · apply take_bind_ne_panicked
      intro p hlen
      rw [u32At_eq_ok.mpr ⟨show 0+4 ≤ p.1.length by omega,rfl⟩]
      exact nofun
    · apply take_bind_ne_panicked
      intro p hlen
      rw [u64At_eq_ok.mpr ⟨show 0+8 ≤ p.1.length by omega,rfl⟩]
      exact nofun
    · exact nofun

end Heads

section Readers
variable {e e' s buf rest rest' : Bytes} {i : ℤ} {m m' n n' : ℕ} {w w' : Width} {expected : UInt8}

theorem head_unique (hm : m < 8) (hm' : m' < 8) (hfits : w.Fits n) (hfits' : w'.Fits n')
    (h : headBytes w m n++rest = headBytes w' m' n'++rest') : m = m' ∧ n = n' ∧ rest = rest' := by
  have hread := readHead_headBytes rest hm hfits
  rw [h, readHead_headBytes rest' hm' hfits'] at hread
  simp only [ok.injEq, Prod.mk.injEq] at hread
  obtain ⟨hmajor,hv,hrest⟩ := hread
  refine ⟨?_,?_,hrest.symm⟩
  · rw [← toNat_byte (show m < 256 by omega), ← hmajor, toNat_byte (by omega)]
  · rw [← UInt64.toNat_ofNat_of_lt' (fits_lt hfits), ← hv, UInt64.toNat_ofNat_of_lt' (fits_lt hfits')]

def InI64 (i : ℤ) : Prop := -2^63 ≤ i ∧ i < 2^63

theorem intMajor_lt : intMajor i < 2 := by
  unfold intMajor
  split_ifs <;> decide

theorem toI64_bind_eq_ok {j : ℤ} {v : UInt64} :
    (do return (← toI64 j v,buf) : Outcome CborError (ℤ × Bytes)) = .ok (i,rest) ↔
      InI64 j ∧ i = j ∧ rest = buf := by
  simp only [toI64, bind_eq_ok, pure_eq_ok, Prod.mk.injEq]
  constructor
  · rintro ⟨k,hk,rfl,rfl⟩
    split_ifs at hk with hrange
    cases hk
    exact ⟨hrange,rfl,rfl⟩
  · rintro ⟨hrange,rfl,rfl⟩
    exact ⟨i,if_pos hrange,rfl,rfl⟩

theorem intHead_natCast (v : ℕ) : intMajor v = 0 ∧ intArg v = v := by
  unfold intMajor intArg
  rw [if_neg (by omega), if_neg (by omega)]
  exact ⟨rfl,Int.toNat_natCast v⟩

theorem intHead_negSucc (v : ℕ) : intMajor (-1-v) = 1 ∧ intArg (-1-v) = v := by
  unfold intMajor intArg
  rw [if_pos (by omega), if_pos (by omega)]
  exact ⟨rfl,by omega⟩

/-- `read_int` reads one integer of 64 bits with a sign. -/
theorem readInt_eq_ok :
    readInt buf = .ok (i,rest) ↔ InI64 i ∧ ∃ e, IsInt e i ∧ buf = e++rest := by
  constructor
  · intro h
    rw [readInt, bind_eq_ok] at h
    obtain ⟨⟨major,v,r⟩,hhead,h⟩ := h
    obtain ⟨w,hfits,-,rfl⟩ := readHead_inversion hhead
    dsimp only at h
    split_ifs at h with hu hn
    · obtain ⟨hrange,rfl,rfl⟩ := toI64_bind_eq_ok.mp h
      obtain ⟨hmajor,harg⟩ := intHead_natCast v.toNat
      refine ⟨hrange,_,⟨w,?_,rfl⟩,?_⟩
      · rwa [harg]
      · rw [harg, hmajor, hu]
        rfl
    · obtain ⟨hrange,rfl,rfl⟩ := toI64_bind_eq_ok.mp h
      obtain ⟨hmajor,harg⟩ := intHead_negSucc v.toNat
      refine ⟨hrange,_,⟨w,?_,rfl⟩,?_⟩
      · rwa [harg]
      · rw [harg, hmajor, hn]
        rfl
  · rintro ⟨hrange,e,⟨w,hfits,rfl⟩,rfl⟩
    have hlt : intMajor i < 8 := intMajor_lt.trans (by decide)
    rw [readInt, readHead_headBytes rest hlt hfits, ok_bind]
    dsimp only
    rw [UInt64.toNat_ofNat_of_lt' (fits_lt hfits)]
    by_cases hneg : i < 0
    · have hi : -1-(intArg i : ℤ) = i := by
        rw [intArg, if_pos hneg]
        omega
      rw [intMajor, if_pos hneg, if_neg (by decide), if_pos (by decide), hi]
      exact toI64_bind_eq_ok.mpr ⟨hrange,rfl,rfl⟩
    · have hi : (intArg i : ℤ) = i := by
        rw [intArg, if_neg hneg]
        omega
      rw [intMajor, if_neg hneg, if_pos (by decide), hi]
      exact toI64_bind_eq_ok.mpr ⟨hrange,rfl,rfl⟩

/-- A string of the wanted major type, no longer than the bound. -/
theorem readString_eq_ok (hexpected : expected.toNat < 8) :
    readString expected buf = .ok (s,rest) ↔
      s.length ≤ maxString ∧ ∃ e, IsString expected.toNat e s ∧ buf = e++rest := by
  simp only [readString, bind_eq_ok, rejectIf_eq_ok, take_eq_ok, Prod.exists, readHead_eq_ok,
    not_not, exists_const]
  constructor
  · rintro ⟨major,len,r,⟨w,hfits,-,rfl⟩,rfl,hcap,hlen,rfl⟩
    rw [← hlen] at hfits hcap ⊢
    exact ⟨by omega,_,⟨w,hfits,rfl⟩,(List.append_assoc ..).symm⟩
  · rintro ⟨hcap,e,⟨w,hfits,rfl⟩,rfl⟩
    have hlen : (UInt64.ofNat s.length).toNat = s.length :=
      UInt64.toNat_ofNat_of_lt' (fits_lt hfits)
    refine ⟨expected,UInt64.ofNat s.length,s++rest,⟨w,?_,hexpected,?_⟩,rfl,?_,?_,rfl⟩
    · rwa [hlen]
    · rw [hlen, List.append_assoc]
    · rw [hlen]
      omega
    · rw [hlen]

def Readable (e : Bytes) : Prop := (∃ i, IsInt e i) ∨ (∃ s, IsString 2 e s) ∨ IsOther e

theorem readInt_readable (he : Readable e) (h : readInt (e++rest) = .ok (i,rest')) :
    InI64 i ∧ IsInt e i ∧ rest' = rest := by
  obtain ⟨hrange,e',⟨w',hfits',rfl⟩,heq⟩ := readInt_eq_ok.mp h
  have hlt' : intMajor i < 8 := intMajor_lt.trans (by decide)
  rcases he with ⟨j,w,hfits,rfl⟩ | ⟨s,w,hfits,rfl⟩ | ⟨b,q,rfl,hother⟩
  · have hlt : intMajor j < 8 := intMajor_lt.trans (by decide)
    obtain ⟨-,-,hrest⟩ := head_unique hlt hlt' hfits hfits' heq
    rw [← hrest, List.append_left_inj] at heq
    exact ⟨hrange,⟨w',hfits',heq⟩,hrest.symm⟩
  · rw [List.append_assoc] at heq
    obtain ⟨hmajor,-,-⟩ := head_unique (by decide) hlt' hfits hfits' heq
    have hlt := @intMajor_lt i
    omega
  · have hinitial := head_initial hlt' hfits' heq
    have hlt := @intMajor_lt i
    omega

theorem readBytes_readable (he : Readable e) (h : readBytes (e++rest) = .ok (s,rest')) :
    s.length ≤ maxString ∧ IsString 2 e s ∧ rest' = rest := by
  obtain ⟨hcap,e',⟨w',hfits',rfl⟩,heq⟩ := (readString_eq_ok (by decide)).mp h
  change _ = headBytes w' 2 s.length++s++rest' at heq
  rw [List.append_assoc] at heq
  rcases he with ⟨j,w,hfits,rfl⟩ | ⟨t,w,hfits,rfl⟩ | ⟨b,q,rfl,hother⟩
  · have hlt := @intMajor_lt j
    obtain ⟨hmajor,-,-⟩ := head_unique (by omega) (by decide) hfits hfits' heq
    omega
  · rw [List.append_assoc] at heq
    obtain ⟨-,hlen,hrest⟩ := head_unique (by decide) (by decide) hfits hfits' heq
    obtain ⟨rfl,rfl⟩ := List.append_inj hrest hlen
    exact ⟨hcap,⟨w,hfits,rfl⟩,rfl⟩
  · have hinitial := head_initial (by decide) hfits' heq
    omega

end Readers

section Skips
variable {α : Type} {enc : α → Bytes} {P : α → Prop} {Q : Bytes → Prop}
  {skip : Bytes → Outcome CborError Bytes} {depth room : ℕ}

def Skips (skip : Bytes → Outcome CborError Bytes) (enc : α → Bytes) (P : α → Prop) : Prop :=
  ∀ buf rest, skip buf = .ok rest ↔ ∃ a, P a ∧ buf = enc a++rest

theorem skipTimes_skips (hskip : Skips skip enc P) (n : ℕ) :
    Skips (skipTimes skip n) (List.flatMap enc) fun as => as.length = n ∧ ∀ a ∈ as, P a := by
  intro buf rest
  induction n generalizing buf with
  | zero =>
    simp only [skipTimes, ok.injEq, List.length_eq_zero_iff]
    constructor
    · rintro rfl
      exact ⟨[],⟨rfl,by simp⟩,rfl⟩
    · rintro ⟨as,⟨rfl,-⟩,rfl⟩
      rfl
  | succ n ih =>
    simp only [skipTimes, bind_eq_ok, hskip buf, ih]
    constructor
    · rintro ⟨mid,⟨a,ha,rfl⟩,as,⟨hlen,has⟩,rfl⟩
      refine ⟨a::as,⟨by rw [List.length_cons, hlen],?_⟩,?_⟩
      · exact List.forall_mem_cons.mpr ⟨ha,has⟩
      · rw [List.flatMap_cons, List.append_assoc]
    · rintro ⟨as,⟨hlen,has⟩,rfl⟩
      obtain ⟨a,as,rfl⟩ := List.exists_cons_of_length_eq_add_one hlen
      obtain ⟨ha,has⟩ := List.forall_mem_cons.mp has
      refine ⟨_,⟨a,ha,?_⟩,as,⟨Nat.succ.inj hlen,has⟩,rfl⟩
      rw [List.flatMap_cons, List.append_assoc]

theorem pair_skips (hskip : Skips skip id Q) :
    Skips (fun buf => do skip (← skip buf)) (fun p : Bytes × Bytes => p.1++p.2)
      fun p => Q p.1 ∧ Q p.2 := by
  have hiff : ∀ buf rest, skip buf = .ok rest ↔ ∃ e, Q e ∧ buf = id e++rest := hskip
  intro buf rest
  simp only [bind_eq_ok, hiff, id]
  constructor
  · rintro ⟨mid,⟨k,hk,rfl⟩,v,hv,rfl⟩
    exact ⟨(k,v),⟨hk,hv⟩,by simp⟩
  · rintro ⟨⟨k,v⟩,⟨hk,hv⟩,rfl⟩
    exact ⟨v++rest,⟨k,hk,by simp⟩,v,hv,rfl⟩

/-- One item at the depth that the bound leaves `room` for. -/
theorem skipValueDepth_skips (hroom : depth+room = maxNesting+1) :
    Skips (skipValueDepth room) id (Item maxString maxNesting depth) := by
  induction room generalizing depth with
  | zero =>
    intro buf rest
    constructor
    · exact nofun
    · rintro ⟨e,he,-⟩
      have hdepth := he.depth_le
      omega
  | succ room ih =>
    have ih' := ih (show depth+1+room = maxNesting+1 by omega)
    have hdepth : depth ≤ maxNesting := by omega
    intro buf rest
    constructor
    · intro h
      rw [skipValueDepth, bind_eq_ok] at h
      obtain ⟨⟨major,len,r⟩,hhead,h⟩ := h
      obtain ⟨w,hfits,hlt,rfl⟩ := readHead_inversion hhead
      dsimp only at h
      split_ifs at h with hint hstr harr hmap
      · cases h
        have hmajor : major.toNat < 2 := by rcases hint with rfl | rfl <;> decide
        refine ⟨_,.integer hdepth hmajor hfits,rfl⟩
      · simp only [bind_eq_ok, rejectIf_eq_ok, take_eq_ok, pure_eq_ok, Prod.exists,
          exists_const] at h
        obtain ⟨hcap,s,r',⟨hlen,rfl⟩,rfl⟩ := h
        have hmajor : 2 ≤ major.toNat ∧ major.toNat < 4 := by rcases hstr with rfl | rfl <;> decide
        rw [← hlen] at hfits hcap ⊢
        refine ⟨_,.string hdepth hmajor.1 hmajor.2 hfits (by omega),?_⟩
        rw [id, List.append_assoc]
      · obtain ⟨items,⟨hlen,hitems⟩,rfl⟩ := (skipTimes_skips ih' _ _ _).mp h
        rw [← hlen] at hfits ⊢
        rw [harr]
        refine ⟨_,.array hdepth hfits hitems,?_⟩
        rw [id, List.append_assoc, List.flatMap_id]
        rfl
      · obtain ⟨entries,⟨hlen,hentries⟩,rfl⟩ := (skipTimes_skips (pair_skips ih') _ _ _).mp h
        rw [← hlen] at hfits ⊢
        rw [hmap]
        refine ⟨_,.map hdepth hfits (fun p hp => (hentries p hp).1) fun p hp => (hentries p hp).2,?_⟩
        rw [id, List.append_assoc]
        rfl
    · rintro ⟨e,he,rfl⟩
      rw [skipValueDepth]
      cases he with
      | @integer _ major v w _ hmajor hfits =>
        rw [id, readHead_headBytes rest (by omega) hfits, ok_bind]
        obtain rfl | rfl : major = 0 ∨ major = 1 := by omega
        · rfl
        · rfl
      | @string _ major w s _ hlow hhigh hfits hlen =>
        have hcap : ¬maxString < (UInt64.ofNat s.length).toNat := by
          rw [UInt64.toNat_ofNat_of_lt' (fits_lt hfits)]
          omega
        have hs : take (s++rest) (UInt64.ofNat s.length).toNat = .ok (s,rest) := by
          rw [UInt64.toNat_ofNat_of_lt' (fits_lt hfits)]
          exact take_append rest rfl
        rw [id, List.append_assoc, readHead_headBytes _ (by omega) hfits, ok_bind]
        dsimp only
        rw [if_neg, if_pos, rejectIf_neg hcap, ok_bind, hs]
        · rfl
        · obtain rfl | rfl : major = 2 ∨ major = 3 := by omega
          · exact .inl rfl
          · exact .inr rfl
        · obtain rfl | rfl : major = 2 ∨ major = 3 := by omega
          · decide
          · decide
      | @array _ w items _ hfits hitems =>
        rw [id, List.append_assoc, readHead_headBytes _ (by decide) hfits, ok_bind]
        apply (skipTimes_skips ih' _ _ _).mpr
        refine ⟨items,⟨(UInt64.toNat_ofNat_of_lt' (fits_lt hfits)).symm,hitems⟩,?_⟩
        rw [List.flatMap_id]
      | @map _ w entries _ hfits hkeys hvalues =>
        rw [id, List.append_assoc, readHead_headBytes _ (by decide) hfits, ok_bind]
        apply (skipTimes_skips (pair_skips ih') _ _ _).mpr
        exact ⟨entries,⟨(UInt64.toNat_ofNat_of_lt' (fits_lt hfits)).symm,
          fun p hp => ⟨hkeys p hp,hvalues p hp⟩⟩,rfl⟩

theorem skipValue_eq_ok {buf rest : Bytes} :
    skipValue buf = .ok rest ↔ ∃ e, Item maxString maxNesting 0 e ∧ buf = e++rest :=
  skipValueDepth_skips (show 0+(maxNesting+1) = maxNesting+1 by decide) buf rest

end Skips

section Calls

/-! How often `skip_value_depth` is entered. -/

def thenCalls (skip : Bytes → Outcome CborError Bytes) (calls next : Bytes → ℕ) (buf : Bytes) : ℕ :=
  calls buf+match skip buf with
    | .ok rest => next rest
    | _ => 0

def timesCalls (skip : Bytes → Outcome CborError Bytes) (calls : Bytes → ℕ) : ℕ → Bytes → ℕ
  | 0, _ => 0
  | n+1, buf => thenCalls skip calls (timesCalls skip calls n) buf

def skipCalls : ℕ → Bytes → ℕ
  | 0, _ => 1
  | room+1, buf => 1+match readHead buf with
    | .ok (major,len,buf) =>
      if major = majorArray then timesCalls (skipValueDepth room) (skipCalls room) len.toNat buf
      else if major = majorMap then
        timesCalls (fun buf => do skipValueDepth room (← skipValueDepth room buf))
          (thenCalls (skipValueDepth room) (skipCalls room) (skipCalls room)) len.toNat buf
      else 0
    | _ => 0

variable {skip next : Bytes → Outcome CborError Bytes} {calls nextCalls : Bytes → ℕ}

/-- Every call takes a byte, but for the one that fails. -/
def Paid (skip : Bytes → Outcome CborError Bytes) (calls : Bytes → ℕ) : Prop :=
  ∀ buf, (∀ rest, skip buf = .ok rest → calls buf+rest.length ≤ buf.length) ∧
    calls buf ≤ buf.length+1

theorem thenCalls_paid (hskip : Paid skip calls) (hnext : Paid next nextCalls) :
    Paid (fun buf => do next (← skip buf)) (thenCalls skip calls nextCalls) := by
  intro buf
  obtain ⟨hok,hall⟩ := hskip buf
  change (∀ rest, (skip buf >>= next) = .ok rest → _) ∧ _
  unfold thenCalls
  cases hs : skip buf with
  | ok mid =>
    have hmid := hok mid hs
    obtain ⟨hok',hall'⟩ := hnext mid
    rw [ok_bind]
    dsimp only
    constructor
    · intro rest hrest
      have hlen := hok' rest hrest
      omega
    · omega
  | err e => exact ⟨fun _ h => (nomatch h),hall⟩
  | panicked => exact ⟨fun _ h => (nomatch h),hall⟩

theorem timesCalls_paid (hskip : Paid skip calls) (n : ℕ) :
    Paid (skipTimes skip n) (timesCalls skip calls n) := by
  induction n with
  | zero =>
    intro buf
    constructor
    · intro rest h
      cases h
      exact Nat.le_of_eq (Nat.zero_add _)
    · exact Nat.zero_le _
  | succ n ih => exact thenCalls_paid hskip ih

theorem readHead_length {buf rest : Bytes} {major : UInt8} {v : UInt64}
    (h : readHead buf = .ok (major,v,rest)) : rest.length < buf.length := by
  obtain ⟨w,-,-,rfl⟩ := readHead_inversion h
  rw [headBytes, List.cons_append, List.length_cons, List.length_append]
  omega

/-- The head behind which a run goes on pays for the call that read it. -/
theorem Paid.behind {buf r : Bytes} (hpaid : Paid skip calls) (hlen : r.length < buf.length) :
    (∀ rest, skip r = .ok rest → 1+calls r+rest.length ≤ buf.length) ∧
      1+calls r ≤ buf.length+1 := by
  obtain ⟨hok,hall⟩ := hpaid r
  constructor
  · intro rest h
    have hrest := hok rest h
    omega
  · omega

theorem skipCalls_paid (room : ℕ) : Paid (skipValueDepth room) (skipCalls room) := by
  induction room with
  | zero => exact fun buf => ⟨nofun,Nat.le_add_left _ _⟩
  | succ room ih =>
    intro buf
    rw [skipCalls, skipValueDepth]
    cases hhead : readHead buf with
    | ok p =>
      obtain ⟨major,len,r⟩ := p
      have hlen := readHead_length hhead
      rw [ok_bind]
      dsimp only
      by_cases harr : major = majorArray
      · rw [harr, if_pos rfl, if_neg (by decide), if_neg (by decide), if_pos rfl]
        exact (timesCalls_paid ih len.toNat).behind hlen
      by_cases hmap : major = majorMap
      · rw [hmap, if_neg (by decide), if_pos rfl, if_neg (by decide), if_neg (by decide),
          if_neg (by decide), if_pos rfl]
        exact (timesCalls_paid (thenCalls_paid ih ih) len.toNat).behind hlen
      -- No other item is entered again.
      simp only [harr, hmap, if_false]
      constructor
      · intro rest h
        split_ifs at h with hint hstr
        · cases h
          omega
        · simp only [bind_eq_ok, rejectIf_eq_ok, take_eq_ok, pure_eq_ok, Prod.exists,
            exists_const] at h
          obtain ⟨-,s,r',⟨-,rfl⟩,rfl⟩ := h
          rw [List.length_append] at hlen
          omega
      · omega
    | err e => exact ⟨nofun,Nat.le_add_left _ _⟩
    | panicked => exact ⟨nofun,Nat.le_add_left _ _⟩

theorem skipTimes_ne_panicked (hskip : ∀ buf, skip buf ≠ .panicked) (n : ℕ) (buf : Bytes) :
    skipTimes skip n buf ≠ .panicked := by
  induction n generalizing buf with
  | zero => exact nofun
  | succ n ih => exact bind_ne_panicked (hskip buf) fun rest _ => ih rest

theorem skipValueDepth_ne_panicked (room : ℕ) (buf : Bytes) :
    skipValueDepth room buf ≠ .panicked := by
  induction room generalizing buf with
  | zero => exact nofun
  | succ room ih =>
    rw [skipValueDepth]
    apply bind_ne_panicked readHead_ne_panicked
    rintro ⟨major,len,r⟩ -
    dsimp only
    split_ifs
    · exact nofun
    · apply bind_ne_panicked rejectIf_ne_panicked
      intro _ _
      exact bind_ne_panicked take_ne_panicked fun _ _ => nofun
    · exact skipTimes_ne_panicked ih _ _
    · exact skipTimes_ne_panicked (fun buf => bind_ne_panicked (ih buf) fun rest _ => ih rest) _ _
    · exact nofun

end Calls

/-- `skip_value` takes one item off the front, and no count in the input makes it enter
`skip_value_depth` more than once for each byte. -/
theorem skipValue_accepts (b : Bytes) :
    (∀ rest, skipValue b = .ok rest ↔ ∃ e, Item 65536 6 0 e ∧ b = e++rest) ∧
      skipValue b ≠ .panicked ∧ skipCalls (maxNesting+1) b ≤ b.length+1 :=
  ⟨fun _ => skipValue_eq_ok,skipValueDepth_ne_panicked _ b,(skipCalls_paid _ b).2⟩

end Term.Cbor
