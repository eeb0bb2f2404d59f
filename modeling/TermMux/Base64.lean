import TermMux.ByteOrder

/-!
# Base64 without padding

Three bytes are four symbols of six bits; a tail of one or two bytes is two or
three symbols whose unused low bits are zero. Decoding refuses foreign symbols,
a lone last symbol and non-zero unused bits, so a byte string has one spelling.
The padded form of the standard alphabet is decoded by stripping its padding.
-/

set_option autoImplicit false

namespace Term.Base64
open Term.ByteOrder

structure Alphabet where
  sym62 : UInt8
  sym63 : UInt8

def urlSafe : Alphabet := ⟨0x2D,0x5F⟩
def standard : Alphabet := ⟨0x2B,0x2F⟩

def symbol (a : Alphabet) (v : ℕ) : UInt8 :=
  if v < 26 then UInt8.ofNat (0x41+v)
  else if v < 52 then UInt8.ofNat (0x61+(v-26))
  else if v < 62 then UInt8.ofNat (0x30+(v-52))
  else if v = 62 then a.sym62
  else a.sym63

def value (a : Alphabet) (s : UInt8) : Option ℕ :=
  if 0x41 ≤ s ∧ s ≤ 0x5A then some (s.toNat-0x41)
  else if 0x61 ≤ s ∧ s ≤ 0x7A then some (s.toNat-0x61+26)
  else if 0x30 ≤ s ∧ s ≤ 0x39 then some (s.toNat-0x30+52)
  else if s = a.sym62 then some 62
  else if s = a.sym63 then some 63
  else none

def encode (a : Alphabet) : Bytes → Bytes
  | x::y::z::rest =>
    symbol a (x.toNat/4)::symbol a (x.toNat%4*16+y.toNat/16)::
      symbol a (y.toNat%16*4+z.toNat/64)::symbol a (z.toNat%64)::encode a rest
  | [x,y] => [symbol a (x.toNat/4),symbol a (x.toNat%4*16+y.toNat/16),symbol a (y.toNat%16*4)]
  | [x] => [symbol a (x.toNat/4),symbol a (x.toNat%4*16)]
  | [] => []

def decode (a : Alphabet) : Bytes → Option Bytes
  | p::q::r::s::rest => do
    let p ← value a p
    let q ← value a q
    let r ← value a r
    let s ← value a s
    let tail ← decode a rest
    return UInt8.ofNat (p*4+q/16)::UInt8.ofNat (q%16*16+r/4)::UInt8.ofNat (r%4*64+s)::tail
  | [p,q,r] => do
    let p ← value a p
    let q ← value a q
    let r ← value a r
    if r%4 = 0 then some [UInt8.ofNat (p*4+q/16),UInt8.ofNat (q%16*16+r/4)] else none
  | [p,q] => do
    let p ← value a p
    let q ← value a q
    if q%16 = 0 then some [UInt8.ofNat (p*4+q/16)] else none
  | [_] => none
  | [] => some []

def padding (n : ℕ) : Bytes :=
  match n%4 with
  | 2 => [0x3D,0x3D]
  | 3 => [0x3D]
  | _ => []

def decodePadded (a : Alphabet) (t : Bytes) : Option Bytes :=
  let body := t.takeWhile (· ≠ 0x3D)
  if t = body++padding body.length then decode a body else none

theorem value_symbol_urlSafe {v : ℕ} (h : v < 64) : value urlSafe (symbol urlSafe v) = some v := by
  interval_cases v <;> rfl

theorem value_symbol_standard {v : ℕ} (h : v < 64) :
    value standard (symbol standard v) = some v := by
  interval_cases v <;> rfl

theorem byte_of_halves {n m : ℕ} {x : UInt8} (hx : n = x.toNat) (h : m = n) :
    UInt8.ofNat m = x := by
  rw [h, hx, UInt8.ofNat_toNat]

/-- Decoding undoes encoding in an alphabet whose symbols are told apart. -/
theorem decode_encode_of {a : Alphabet} (ha : ∀ v < 64, value a (symbol a v) = some v) (b : Bytes) :
    decode a (encode a b) = some b := by
  fun_induction encode a b with
  | case1 x y z rest ih =>
    have hx := x.toNat_lt
    have hy := y.toNat_lt
    have hz := z.toNat_lt
    simp only [decode, ih, ha (x.toNat/4) (by omega), ha (x.toNat%4*16+y.toNat/16) (by omega),
      ha (y.toNat%16*4+z.toNat/64) (by omega), ha (z.toNat%64) (by omega), Option.pure_def,
      Option.bind_eq_bind, Option.bind_some, Option.some.injEq, List.cons.injEq, and_true]
    exact ⟨byte_of_halves rfl (by omega),byte_of_halves rfl (by omega),
      byte_of_halves rfl (by omega)⟩
  | case2 x y =>
    have hx := x.toNat_lt
    have hy := y.toNat_lt
    have hlow : y.toNat%16*4%4 = 0 := by omega
    simp only [decode, ha (x.toNat/4) (by omega), ha (x.toNat%4*16+y.toNat/16) (by omega),
      ha (y.toNat%16*4) (by omega), Option.bind_eq_bind, Option.bind_some, hlow, if_true,
      Option.some.injEq, List.cons.injEq, and_true]
    exact ⟨byte_of_halves rfl (by omega),byte_of_halves rfl (by omega)⟩
  | case3 x =>
    have hx := x.toNat_lt
    have hlow : x.toNat%4*16%16 = 0 := by omega
    simp only [decode, ha (x.toNat/4) (by omega), ha (x.toNat%4*16) (by omega),
      Option.bind_eq_bind, Option.bind_some, hlow, if_true, Option.some.injEq, List.cons.injEq,
      and_true]
    exact byte_of_halves rfl (by omega)
  | case4 => rfl

theorem decode_encode (b : Bytes) : decode urlSafe (encode urlSafe b) = some b :=
  decode_encode_of (fun _ h => value_symbol_urlSafe h) b

theorem decode_encode_standard (b : Bytes) : decode standard (encode standard b) = some b :=
  decode_encode_of (fun _ h => value_symbol_standard h) b

/-- A value is below 64, and its symbol is the one that was read. -/
theorem value_eq_some {a : Alphabet} {s : UInt8} {v : ℕ} (h : value a s = some v) :
    v < 64 ∧ symbol a v = s := by
  have hs := s.toNat_lt
  simp only [value, UInt8.le_iff_toNat_le] at h
  have hbyte : ∀ n, n = s.toNat → UInt8.ofNat n = s := fun n hn => by rw [hn, UInt8.ofNat_toNat]
  split_ifs at h with hupper hlower hdigit h62 h63
  all_goals cases h
  · have hlt : s.toNat-0x41 < 26 := by simp at hupper; omega
    exact ⟨by omega,by rw [symbol, if_pos hlt]; exact hbyte _ (by simp at hupper; omega)⟩
  · have hlt : s.toNat-0x61+26 < 52 := by simp at hlower; omega
    refine ⟨by omega,?_⟩
    rw [symbol, if_neg (by omega), if_pos hlt]
    exact hbyte _ (by simp at hlower; omega)
  · have hlt : s.toNat-0x30+52 < 62 := by simp at hdigit; omega
    refine ⟨by omega,?_⟩
    rw [symbol, if_neg (by omega), if_neg (by omega), if_pos hlt]
    exact hbyte _ (by simp at hdigit; omega)
  · exact ⟨by decide,h62.symm⟩
  · exact ⟨by decide,h63.symm⟩

theorem symbol_of_eq {a : Alphabet} {s : UInt8} {n v : ℕ} (hs : symbol a v = s) (h : n = v) :
    symbol a n = s := by
  rw [h, hs]

/-- What is decoded is the one spelling of its result. -/
theorem encode_decode {a : Alphabet} {t b : Bytes} (h : decode a t = some b) : encode a b = t := by
  have hbyte : ∀ n < 256, (UInt8.ofNat n).toNat = n := fun n hn => UInt8.toNat_ofNat_of_lt' hn
  fun_induction decode a t generalizing b with
  | case1 p q r s rest ih =>
    simp only [Option.bind_eq_bind, Option.bind_eq_some_iff, Option.pure_def,
      Option.some.injEq] at h
    obtain ⟨vp,hp,vq,hq,vr,hr,vs,hs,tail,htail,rfl⟩ := h
    have ⟨hp,hps⟩ := value_eq_some hp
    have ⟨hq,hqs⟩ := value_eq_some hq
    have ⟨hr,hrs⟩ := value_eq_some hr
    have ⟨hs,hss⟩ := value_eq_some hs
    rw [encode, ih htail, hbyte (vp*4+vq/16) (by omega), hbyte (vq%16*16+vr/4) (by omega),
      hbyte (vr%4*64+vs) (by omega), symbol_of_eq hps (by omega), symbol_of_eq hqs (by omega),
      symbol_of_eq hrs (by omega), symbol_of_eq hss (by omega)]
  | case2 p q r =>
    simp only [Option.bind_eq_bind, Option.bind_eq_some_iff] at h
    obtain ⟨vp,hp,vq,hq,vr,hr,h⟩ := h
    have ⟨hp,hps⟩ := value_eq_some hp
    have ⟨hq,hqs⟩ := value_eq_some hq
    have ⟨hr,hrs⟩ := value_eq_some hr
    split_ifs at h with hlow
    cases h
    rw [encode, hbyte (vp*4+vq/16) (by omega), hbyte (vq%16*16+vr/4) (by omega),
      symbol_of_eq hps (by omega), symbol_of_eq hqs (by omega), symbol_of_eq hrs (by omega)]
  | case3 p q =>
    simp only [Option.bind_eq_bind, Option.bind_eq_some_iff] at h
    obtain ⟨vp,hp,vq,hq,h⟩ := h
    have ⟨hp,hps⟩ := value_eq_some hp
    have ⟨hq,hqs⟩ := value_eq_some hq
    split_ifs at h with hlow
    cases h
    rw [encode, hbyte (vp*4+vq/16) (by omega), symbol_of_eq hps (by omega),
      symbol_of_eq hqs (by omega)]
  | case4 p => cases h
  | case5 =>
    cases h
    rfl

theorem decode_eq_some_iff {a : Alphabet} (ha : ∀ v < 64, value a (symbol a v) = some v)
    {t b : Bytes} : decode a t = some b ↔ t = encode a b := by
  constructor
  · intro h
    exact (encode_decode h).symm
  · intro h
    rw [h, decode_encode_of ha]

def UrlSymbol (s : UInt8) : Prop :=
  (0x30 ≤ s ∧ s ≤ 0x39) ∨ (0x41 ≤ s ∧ s ≤ 0x5A) ∨ (0x61 ≤ s ∧ s ≤ 0x7A) ∨ s = 0x2D ∨ s = 0x5F

instance : DecidablePred UrlSymbol := fun s =>
  inferInstanceAs (Decidable (_ ∨ _ ∨ _ ∨ s = _ ∨ s = _))

theorem symbol_urlSymbol {v : ℕ} (h : v < 64) : UrlSymbol (symbol urlSafe v) := by
  interval_cases v <;> decide

theorem encode_urlSymbol (b : Bytes) : ∀ s ∈ encode urlSafe b, UrlSymbol s := by
  fun_induction encode urlSafe b with
  | case1 x y z rest ih =>
    have hx := x.toNat_lt
    have hy := y.toNat_lt
    have hz := z.toNat_lt
    simp only [List.forall_mem_cons]
    exact ⟨symbol_urlSymbol (by omega),symbol_urlSymbol (by omega),symbol_urlSymbol (by omega),
      symbol_urlSymbol (by omega),ih⟩
  | case2 x y =>
    have hx := x.toNat_lt
    have hy := y.toNat_lt
    simp only [List.forall_mem_cons]
    exact ⟨symbol_urlSymbol (by omega),symbol_urlSymbol (by omega),symbol_urlSymbol (by omega),
      nofun⟩
  | case3 x =>
    have hx := x.toNat_lt
    simp only [List.forall_mem_cons]
    exact ⟨symbol_urlSymbol (by omega),symbol_urlSymbol (by omega),nofun⟩
  | case4 => nofun

theorem encode_length (a : Alphabet) (b : Bytes) : (encode a b).length = (b.length*4+2)/3 := by
  fun_induction encode a b with
  | case1 x y z rest ih =>
    simp only [List.length_cons, ih]
    omega
  | case2 x y => simp
  | case3 x => simp
  | case4 => rfl

end Term.Base64
