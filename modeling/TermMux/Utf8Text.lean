import TermMux.ByteOrder

/-!
# Strings as UTF-8 byte strings

Text crosses the wire as bytes. A string is determined by its encoding, and a
byte string is text exactly when it is the encoding of some string; lengths and
slice positions count bytes, not characters.
-/

set_option autoImplicit false

namespace Term.Utf8Text
open Term.ByteOrder

def asBytes (s : String) : Bytes := s.toByteArray.data.toList

def fromUtf8 (b : Bytes) : Option String := String.fromUTF8? b.toByteArray

theorem toByteArray_asBytes (s : String) : (asBytes s).toByteArray = s.toByteArray := by
  apply ByteArray.ext
  simp [asBytes]

theorem asBytes_injective : Function.Injective asBytes := by
  intro s t h
  apply String.toByteArray_inj.mp
  rw [← toByteArray_asBytes, ← toByteArray_asBytes, h]

@[simp] theorem fromUtf8_asBytes (s : String) : fromUtf8 (asBytes s) = some s := by
  simp only [fromUtf8, String.fromUTF8?, toByteArray_asBytes, dif_pos s.isValidUTF8]
  rfl

/-- Decoding succeeds with `s` on the encoding of `s` and on nothing else. -/
theorem fromUtf8_eq_some {b : Bytes} {s : String} : fromUtf8 b = some s ↔ asBytes s = b := by
  constructor
  · intro h
    unfold fromUtf8 String.fromUTF8? at h
    split_ifs at h
    cases h
    simp [asBytes, String.fromUTF8]
  · rintro rfl
    exact fromUtf8_asBytes s

def ofAscii (b : Bytes) : String := String.ofList (b.map fun x => Char.ofNat x.toNat)

theorem utf8EncodeChar_ascii {x : UInt8} (h : x < 0x80) :
    String.utf8EncodeChar (Char.ofNat x.toNat) = [x] := by
  have hx : x.toNat < 128 := by simpa [UInt8.lt_iff_toNat_lt] using h
  have hv : (Char.ofNat x.toNat).val.toNat = x.toNat := by
    rw [Char.ofNat, dif_pos (Or.inl (by omega))]
    rfl
  have h1 : (Char.ofNat x.toNat).utf8Size = 1 := by
    rw [Char.utf8Size, if_pos]
    rw [UInt32.le_iff_toNat_le, hv]
    simp
    omega
  rw [String.utf8EncodeChar_eq_singleton h1]
  congr 1
  apply UInt8.toNat_inj.mp
  rw [UInt32.toNat_toUInt8, hv]
  omega

/-- Every string of seven-bit bytes is text. -/
theorem asBytes_ofAscii {b : Bytes} (h : ∀ x ∈ b, x < 0x80) : asBytes (ofAscii b) = b := by
  induction b with
  | nil => rfl
  | cons x b ih =>
    have hb := ih fun y hy => h y (List.mem_cons_of_mem _ hy)
    have hx := utf8EncodeChar_ascii (h x List.mem_cons_self)
    simp only [asBytes, ofAscii, String.toByteArray_ofList] at hb ⊢
    rw [List.map_cons, List.utf8Encode_cons, List.utf8Encode_singleton, hx,
      ByteArray.data_append, Array.toList_append, hb]
    simp

/-- A byte position that does not point inside a multi-byte character. -/
def isCharBoundary (s : String) (k : ℕ) : Bool :=
  k = 0 || (match (asBytes s)[k]? with
    | some b => b < 0x80 || 0xC0 ≤ b
    | none => k = (asBytes s).length)

theorem asBytes_ofList (cs : List Char) :
    asBytes (String.ofList cs) = cs.flatMap String.utf8EncodeChar := by
  simp [asBytes, List.utf8Encode]

theorem asBytes_toList (s : String) : asBytes s = s.toList.flatMap String.utf8EncodeChar := by
  rw [← asBytes_ofList, String.ofList_toList]

theorem continuation_byte (x : ℕ) :
    ¬(UInt8.ofNat (x%64+128) < 0x80 ∨ 0xC0 ≤ UInt8.ofNat (x%64+128)) := by
  rw [UInt8.lt_iff_toNat_lt, UInt8.le_iff_toNat_le]
  simp
  omega

/-- After its first byte a character has continuation bytes only. -/
theorem tail_utf8EncodeChar {c : Char} {b : UInt8} (h : b ∈ (String.utf8EncodeChar c).tail) :
    ¬(b < 0x80 ∨ 0xC0 ≤ b) := by
  unfold String.utf8EncodeChar at h
  simp only at h
  split_ifs at h
  · cases h
  · cases List.mem_singleton.mp h
    exact continuation_byte _
  · simp only [List.tail_cons, List.mem_cons, List.not_mem_nil, or_false] at h
    rcases h with rfl | rfl
    · exact continuation_byte _
    · exact continuation_byte _
  · simp only [List.tail_cons, List.mem_cons, List.not_mem_nil, or_false] at h
    rcases h with rfl | rfl | rfl
    · exact continuation_byte _
    · exact continuation_byte _
    · exact continuation_byte _

theorem lead_byte {n : ℕ} (hlow : 192 ≤ n) (hhigh : n < 256) : 0xC0 ≤ UInt8.ofNat n := by
  rw [UInt8.le_iff_toNat_le, UInt8.toNat_ofNat_of_lt' hhigh]
  exact hlow

/-- A character does not begin with a continuation byte. -/
theorem head_utf8EncodeChar (c : Char) :
    ∃ b bs, String.utf8EncodeChar c = b::bs ∧ (b < 0x80 ∨ 0xC0 ≤ b) := by
  unfold String.utf8EncodeChar
  simp only
  split_ifs with h1 h2 h3
  · refine ⟨_,_,rfl,.inl ?_⟩
    have hval : c.toNat = c.val.toNat := rfl
    rw [UInt8.lt_iff_toNat_lt]
    simp
    omega
  · exact ⟨_,_,rfl,.inr (lead_byte (by omega) (by omega))⟩
  · exact ⟨_,_,rfl,.inr (lead_byte (by omega) (by omega))⟩
  · exact ⟨_,_,rfl,.inr (lead_byte (by omega) (by omega))⟩

/-- Bytes cut where no continuation byte stands are the bytes of whole characters. -/
theorem take_flatMap_utf8EncodeChar (cs : List Char) (k : ℕ)
    (h : ∀ b ∈ (cs.flatMap String.utf8EncodeChar)[k]?, b < 0x80 ∨ 0xC0 ≤ b) :
    ∃ ds : List Char, ds <+: cs ∧ ds.flatMap String.utf8EncodeChar =
      (cs.flatMap String.utf8EncodeChar).take k := by
  induction cs generalizing k with
  | nil => exact ⟨[],List.prefix_refl [],by simp⟩
  | cons c cs ih =>
    rw [List.flatMap_cons] at h ⊢
    rcases Nat.eq_zero_or_pos k with rfl | hpos
    · exact ⟨[],List.nil_prefix,rfl⟩
    by_cases hk : k < (String.utf8EncodeChar c).length
    · have hmem : (String.utf8EncodeChar c)[k] ∈ (String.utf8EncodeChar c).tail := by
        rw [← List.drop_one, List.mem_drop_iff_getElem]
        exact ⟨k-1,by omega,by congr 1; omega⟩
      refine absurd (h _ ?_) (tail_utf8EncodeChar hmem)
      rw [List.getElem?_append_left hk]
      exact List.getElem?_eq_getElem hk
    · obtain ⟨ds,hds,htake⟩ := ih (k-(String.utf8EncodeChar c).length) (by
        rwa [List.getElem?_append_right (by omega)] at h)
      refine ⟨c::ds,List.cons_prefix_cons.mpr ⟨rfl,hds⟩,?_⟩
      rw [List.flatMap_cons, List.take_append, List.take_of_length_le (not_lt.mp hk), htake]

theorem exists_take_of_isCharBoundary {s : String} {k : ℕ} (h : isCharBoundary s k = true) :
    ∃ t : String, t.toList <+: s.toList ∧ asBytes t = (asBytes s).take k := by
  have hcut : ∀ b ∈ (asBytes s)[k]?, k = 0 ∨ b < 0x80 ∨ 0xC0 ≤ b := by
    intro b hb
    simpa [isCharBoundary, Option.mem_def.mp hb] using h
  rcases Nat.eq_zero_or_pos k with rfl | hpos
  · exact ⟨"",by simp,rfl⟩
  rw [asBytes_toList] at hcut ⊢
  obtain ⟨ds,hpre,hds⟩ := take_flatMap_utf8EncodeChar s.toList k fun b hb =>
    (hcut b hb).resolve_left hpos.ne'
  exact ⟨String.ofList ds,by rwa [String.toList_ofList],by rw [asBytes_ofList, hds]⟩

/-- A string ends at a boundary of every string it begins. -/
theorem isCharBoundary_of_prefix {s t : String} (h : t.toList <+: s.toList) :
    isCharBoundary s (asBytes t).length = true := by
  obtain ⟨cs,hcs⟩ := h
  have hs : asBytes s = asBytes t++cs.flatMap String.utf8EncodeChar := by
    rw [asBytes_toList s, asBytes_toList t, ← hcs, List.flatMap_append]
  unfold isCharBoundary
  rw [hs, List.getElem?_append_right (Nat.le_refl _), Nat.sub_self]
  cases cs with
  | nil => simp
  | cons c cs =>
    obtain ⟨b,bs,hc,hb⟩ := head_utf8EncodeChar c
    rw [List.flatMap_cons, hc]
    simpa using .inr hb

end Term.Utf8Text
