import Mathlib.Tactic

/-!
# Big-endian byte strings of a fixed width

A natural number becomes exactly `w` bytes, most significant first, and a
byte string becomes a natural number. The two maps are inverse to each other
once the width is fixed, which is all a length-delimited format relies on.
-/

set_option autoImplicit false

namespace Term.ByteOrder

abbrev Bytes := List UInt8

def beBytes : ℕ → ℕ → Bytes
  | 0, _ => []
  | w+1, n => UInt8.ofNat (n/256^w) :: beBytes w n

def beNat : Bytes → ℕ
  | [] => 0
  | b::bs => b.toNat*256^bs.length+beNat bs

@[simp] theorem beBytes_length (w n : ℕ) : (beBytes w n).length = w := by
  induction w with
  | zero => rfl
  | succ w ih => simp [beBytes, ih]

theorem beNat_lt (bs : Bytes) : beNat bs < 256^bs.length := by
  induction bs with
  | nil => simp [beNat]
  | cons b bs ih =>
    have hb : b.toNat+1 ≤ 256 := b.toNat_lt
    have hm : (b.toNat+1)*256^bs.length ≤ 256*256^bs.length := Nat.mul_le_mul_right _ hb
    simp only [beNat, List.length_cons, pow_succ]
    linarith

theorem beBytes_mod (w n k : ℕ) : beBytes w (k*256^w+n) = beBytes w n := by
  induction w generalizing k with
  | zero => rfl
  | succ w ih =>
    have hp : 0 < 256^w := by positivity
    have he : k*256^(w+1)+n = (k*256)*256^w+n := by ring
    simp only [beBytes]
    rw [he, ih]
    congr 1
    rw [Nat.add_comm, Nat.add_mul_div_right _ _ hp]
    apply UInt8.toNat_inj.mp
    simp

theorem beBytes_append (v w n : ℕ) : beBytes (v+w) n = beBytes v (n/256^w)++beBytes w n := by
  induction v with
  | zero => simp [beBytes]
  | succ v ih =>
    rw [Nat.add_right_comm, beBytes, beBytes, ih, Nat.div_div_eq_div_mul, ← pow_add, Nat.add_comm w v]
    rfl

theorem beBytes_beNat (bs : Bytes) : beBytes bs.length (beNat bs) = bs := by
  induction bs with
  | nil => rfl
  | cons b bs ih =>
    have hd : (b.toNat*256^bs.length+beNat bs)/256^bs.length = b.toNat := by
      rw [Nat.add_comm, Nat.add_mul_div_right _ _ (by positivity),
        Nat.div_eq_of_lt (beNat_lt bs), Nat.zero_add]
    simp only [List.length_cons, beBytes, beNat, hd, beBytes_mod, ih]
    simp

theorem beNat_beBytes (w n : ℕ) : beNat (beBytes w n) = n%256^w := by
  induction w with
  | zero => simp [beBytes, beNat, Nat.mod_one]
  | succ w ih =>
    have hm : n%256^(w+1) = n%256^w+256^w*(n/256^w%256) := by rw [pow_succ, Nat.mod_mul]
    rw [beBytes, beNat, beBytes_length, ih, UInt8.toNat_ofNat', hm]
    ring

theorem beNat_beBytes_of_lt (w n : ℕ) (h : n < 256^w) : beNat (beBytes w n) = n := by
  rw [beNat_beBytes, Nat.mod_eq_of_lt h]

theorem beBytes_of_length {w : ℕ} {bs : Bytes} (h : bs.length = w) :
    beBytes w (beNat bs) = bs := by
  subst h
  exact beBytes_beNat bs

def be16 (x : UInt16) : Bytes := beBytes 2 x.toNat
def be32 (x : UInt32) : Bytes := beBytes 4 x.toNat
def be64 (x : UInt64) : Bytes := beBytes 8 x.toNat

def ofBe16 (bs : Bytes) : UInt16 := UInt16.ofNat (beNat bs)
def ofBe32 (bs : Bytes) : UInt32 := UInt32.ofNat (beNat bs)
def ofBe64 (bs : Bytes) : UInt64 := UInt64.ofNat (beNat bs)

@[simp] theorem be16_length (x : UInt16) : (be16 x).length = 2 := beBytes_length 2 _
@[simp] theorem be32_length (x : UInt32) : (be32 x).length = 4 := beBytes_length 4 _
@[simp] theorem be64_length (x : UInt64) : (be64 x).length = 8 := beBytes_length 8 _

@[simp] theorem ofBe16_be16 (x : UInt16) : ofBe16 (be16 x) = x := by
  rw [ofBe16, be16, beNat_beBytes_of_lt _ _ x.toNat_lt]
  exact UInt16.ofNat_toNat

@[simp] theorem ofBe32_be32 (x : UInt32) : ofBe32 (be32 x) = x := by
  rw [ofBe32, be32, beNat_beBytes_of_lt _ _ x.toNat_lt]
  exact UInt32.ofNat_toNat

@[simp] theorem ofBe64_be64 (x : UInt64) : ofBe64 (be64 x) = x := by
  rw [ofBe64, be64, beNat_beBytes_of_lt _ _ x.toNat_lt]
  exact UInt64.ofNat_toNat

theorem be16_ofBe16 {bs : Bytes} (h : bs.length = 2) : be16 (ofBe16 bs) = bs := by
  have hlt := beNat_lt bs
  rw [h] at hlt
  rw [be16, ofBe16, UInt16.toNat_ofNat_of_lt' (by simpa using hlt), beBytes_of_length h]

theorem be32_ofBe32 {bs : Bytes} (h : bs.length = 4) : be32 (ofBe32 bs) = bs := by
  have hlt := beNat_lt bs
  rw [h] at hlt
  rw [be32, ofBe32, UInt32.toNat_ofNat_of_lt' (by simpa using hlt), beBytes_of_length h]

theorem be64_ofBe64 {bs : Bytes} (h : bs.length = 8) : be64 (ofBe64 bs) = bs := by
  have hlt := beNat_lt bs
  rw [h] at hlt
  rw [be64, ofBe64, UInt64.toNat_ofNat_of_lt' (by simpa using hlt), beBytes_of_length h]

end Term.ByteOrder
