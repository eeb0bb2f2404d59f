import TermMux.Utf8Text

/-!
# Strings as UTF-16 code units

The text of a browser is a list of code units. Its conversion to scalar values joins surrogate
pairs and puts the replacement character where a surrogate stands alone.
-/

set_option autoImplicit false

namespace Term.Utf16Text
open Term.ByteOrder Term.Utf8Text

abbrev Units := List UInt16

def isHigh (u : UInt16) : Bool := 0xD800 ≤ u && u < 0xDC00

def isLow (u : UInt16) : Bool := 0xDC00 ≤ u && u < 0xE000

def replacement : Char := Char.ofNat 0xFFFD

def single (u : UInt16) : Char := if isHigh u || isLow u then replacement else Char.ofNat u.toNat

def paired (high low : UInt16) : Char :=
  Char.ofNat (0x10000+(high.toNat-0xD800)*0x400+(low.toNat-0xDC00))

def scalars : Units → List Char
  | [] => []
  | [u] => [single u]
  | u::v::rest =>
    if isHigh u && isLow v then paired u v::scalars rest else single u::scalars (v::rest)

def text (s : Units) : String := String.ofList (scalars s)

/-- `new TextEncoder().encode(s)`. -/
def textEncode (s : Units) : Bytes := asBytes (text s)

def units (s : String) : Units := (asBytes s).map UInt8.toUInt16

theorem not_surrogate {u : UInt16} (h : u < 0x80) : isHigh u = false ∧ isLow u = false := by
  have hu : u.toNat < 128 := by simpa [UInt16.lt_iff_toNat_lt] using h
  simp only [isHigh, isLow, Bool.and_eq_false_iff, decide_eq_false_iff_not, UInt16.le_iff_toNat_le]
  constructor
  · left
    simp
    omega
  · left
    simp
    omega

theorem single_ascii {u : UInt16} (h : u < 0x80) : single u = Char.ofNat u.toUInt8.toNat := by
  have hu : u.toNat < 128 := by simpa [UInt16.lt_iff_toNat_lt] using h
  have hbyte : u.toUInt8.toNat = u.toNat := by
    rw [UInt16.toNat_toUInt8]
    omega
  rw [single, (not_surrogate h).1, (not_surrogate h).2, hbyte]
  rfl

theorem text_ascii {s : Units} (h : ∀ u ∈ s, u < 0x80) : text s = ofAscii (s.map UInt16.toUInt8) := by
  have hs : scalars s = s.map single := by
    fun_induction scalars s with
    | case1 => rfl
    | case2 u => rfl
    | case3 u v rest hpair ih =>
      rw [(not_surrogate (h u List.mem_cons_self)).1] at hpair
      cases hpair
    | case4 u v rest hpair ih =>
      rw [ih fun w hw => h w (List.mem_cons_of_mem _ hw)]
      rfl
  rw [text, ofAscii, hs, List.map_map]
  congr 1
  exact List.map_congr_left fun u hu => single_ascii (h u hu)

theorem textEncode_ascii {s : Units} (h : ∀ u ∈ s, u < 0x80) :
    textEncode s = s.map UInt16.toUInt8 := by
  rw [textEncode, text_ascii h]
  apply asBytes_ofAscii
  intro b hb
  obtain ⟨u,hu,rfl⟩ := List.mem_map.mp hb
  have hlt : u.toNat < 128 := by simpa [UInt16.lt_iff_toNat_lt] using h u hu
  rw [UInt8.lt_iff_toNat_lt, UInt16.toNat_toUInt8]
  simp
  omega

end Term.Utf16Text
