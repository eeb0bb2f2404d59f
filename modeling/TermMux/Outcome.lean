import TermMux.ByteOrder

/-!
# Computations that return, fail or panic

A fallible function that indexes slices and subtracts lengths has three
results: a value, a reported error, or a panic. Keeping the panic as a result
of its own makes absence of panics a statement about the same definition that
is compared with the source.
-/

set_option autoImplicit false

namespace Term

inductive Outcome (ε α : Type) where
  | ok (value : α)
  | err (error : ε)
  | panicked
  deriving DecidableEq, Repr

namespace Outcome
open Term.ByteOrder

variable {ε α β : Type}

def bind (x : Outcome ε α) (f : α → Outcome ε β) : Outcome ε β :=
  match x with
  | .ok a => f a
  | .err e => .err e
  | .panicked => .panicked

instance : Monad (Outcome ε) where
  pure := .ok
  bind := bind

def rejectIf (c : Prop) [Decidable c] (e : ε) : Outcome ε Unit :=
  if c then .err e else .ok ()

def orElse (x : Option α) (e : ε) : Outcome ε α :=
  match x with
  | some a => .ok a
  | none => .err e

def mapErr {ε' : Type} (g : ε → ε') : Outcome ε α → Outcome ε' α
  | .ok a => .ok a
  | .err e => .err (g e)
  | .panicked => .panicked

def index (p : List α) (i : ℕ) : Outcome ε α :=
  match p[i]? with
  | some a => .ok a
  | none => .panicked

/-- `p[a..b]`, which panics unless `a ≤ b ≤ p.len()`. -/
def slice (p : List α) (a b : ℕ) : Outcome ε (List α) :=
  if a ≤ b ∧ b ≤ p.length then .ok ((p.take b).drop a) else .panicked

def sub (a b : ℕ) : Outcome ε ℕ :=
  if b ≤ a then .ok (a-b) else .panicked

/-- Addition in `usize`, which panics past `2^64-1`. -/
def add (a b : ℕ) : Outcome ε ℕ :=
  if a+b < 2^64 then .ok (a+b) else .panicked

/-- The array expression `[p[off], p[off+1], ..]` of `w` checked reads. -/
def bytesAt (p : Bytes) (off : ℕ) : ℕ → Outcome ε Bytes
  | 0 => .ok []
  | w+1 => do
    let b ← index p off
    let bs ← bytesAt p (off+1) w
    return b::bs

def u16At (p : Bytes) (off : ℕ) : Outcome ε UInt16 := do return ofBe16 (← bytesAt p off 2)
def u32At (p : Bytes) (off : ℕ) : Outcome ε UInt32 := do return ofBe32 (← bytesAt p off 4)
def u64At (p : Bytes) (off : ℕ) : Outcome ε UInt64 := do return ofBe64 (← bytesAt p off 8)

theorem bind_eq_ok {x : Outcome ε α} {f : α → Outcome ε β} {b : β} :
    (x >>= f) = .ok b ↔ ∃ a, x = .ok a ∧ f a = .ok b := by
  change bind x f = .ok b ↔ _
  cases x <;> simp [bind]

theorem bind_assoc {γ : Type} (x : Outcome ε α) (f : α → Outcome ε β) (g : β → Outcome ε γ) :
    (x >>= f) >>= g = x >>= fun a => f a >>= g := by
  cases x <;> rfl

theorem bind_ne_panicked {x : Outcome ε α} {f : α → Outcome ε β} (hx : x ≠ .panicked)
    (hf : ∀ a, x = .ok a → f a ≠ .panicked) : (x >>= f) ≠ .panicked := by
  change bind x f ≠ _
  cases x with
  | ok a => exact hf a rfl
  | err e => exact nofun
  | panicked => exact absurd rfl hx

theorem pure_eq_ok {a b : α} : (pure a : Outcome ε α) = .ok b ↔ a = b := by
  exact ⟨fun h => by cases h; rfl,fun h => by rw [h]; rfl⟩

theorem rejectIf_eq_ok {c : Prop} [Decidable c] {e : ε} {u : Unit} :
    rejectIf c e = .ok u ↔ ¬c := by
  unfold rejectIf
  split_ifs with h <;> simp [h]

theorem rejectIf_ne_panicked {c : Prop} [Decidable c] {e : ε} : rejectIf c e ≠ .panicked := by
  unfold rejectIf
  split_ifs <;> exact nofun

theorem orElse_eq_ok {x : Option α} {e : ε} {a : α} : orElse x e = .ok a ↔ x = some a := by
  cases x <;> simp [orElse]

theorem mapErr_eq_ok {ε' : Type} {g : ε → ε'} {x : Outcome ε α} {a : α} :
    mapErr g x = .ok a ↔ x = .ok a := by
  cases x <;> simp [mapErr]

theorem index_eq_ok {p : List α} {i : ℕ} {a : α} :
    (index p i : Outcome ε α) = .ok a ↔ p[i]? = some a := by
  unfold index
  cases p[i]? <;> simp

theorem slice_eq_ok {p q : List α} {a b : ℕ} :
    (slice p a b : Outcome ε (List α)) = .ok q ↔
      (a ≤ b ∧ b ≤ p.length) ∧ (p.take b).drop a = q := by
  unfold slice
  split_ifs with h <;> simp [h]

theorem sub_eq_ok {a b c : ℕ} : (sub a b : Outcome ε ℕ) = .ok c ↔ b ≤ a ∧ a-b = c := by
  unfold sub
  split_ifs with h <;> simp [h]

theorem add_eq_ok {a b c : ℕ} : (add a b : Outcome ε ℕ) = .ok c ↔ a+b < 2^64 ∧ a+b = c := by
  unfold add
  split_ifs with h
  · simp only [ok.injEq, h, true_and]
  · simp only [h, false_and]

theorem bytesAt_eq_ok {p bs : Bytes} {off w : ℕ} (hw : 0 < w) :
    (bytesAt p off w : Outcome ε Bytes) = .ok bs ↔
      off+w ≤ p.length ∧ (p.drop off).take w = bs := by
  induction w generalizing off bs with
  | zero => omega
  | succ w ih =>
    simp only [bytesAt, bind_eq_ok, index_eq_ok, pure_eq_ok]
    by_cases hoff : off < p.length
    · rw [List.drop_eq_getElem_cons hoff, List.take_succ_cons]
      simp only [List.getElem?_eq_getElem hoff, Option.some.injEq, exists_eq_left']
      rcases Nat.eq_zero_or_pos w with rfl | hpos
      · simp [bytesAt]
        exact fun _ => hoff
      · constructor
        · rintro ⟨cs,hcs,rfl⟩
          obtain ⟨hl,rfl⟩ := (ih hpos).mp hcs
          exact ⟨by omega,rfl⟩
        · rintro ⟨hl,rfl⟩
          exact ⟨_,(ih hpos).mpr ⟨by omega,rfl⟩,rfl⟩
    · have hn : p[off]? = none := List.getElem?_eq_none (by omega)
      simp only [hn, reduceCtorEq, false_and, exists_false, false_iff, not_and]
      omega

theorem u16At_eq_ok {p : Bytes} {off : ℕ} {x : UInt16} :
    (u16At p off : Outcome ε UInt16) = .ok x ↔
      off+2 ≤ p.length ∧ ofBe16 ((p.drop off).take 2) = x := by
  simp [u16At, bind_eq_ok, pure_eq_ok, bytesAt_eq_ok, and_assoc]

theorem u32At_eq_ok {p : Bytes} {off : ℕ} {x : UInt32} :
    (u32At p off : Outcome ε UInt32) = .ok x ↔
      off+4 ≤ p.length ∧ ofBe32 ((p.drop off).take 4) = x := by
  simp [u32At, bind_eq_ok, pure_eq_ok, bytesAt_eq_ok, and_assoc]

theorem u64At_eq_ok {p : Bytes} {off : ℕ} {x : UInt64} :
    (u64At p off : Outcome ε UInt64) = .ok x ↔
      off+8 ≤ p.length ∧ ofBe64 ((p.drop off).take 8) = x := by
  simp [u64At, bind_eq_ok, pure_eq_ok, bytesAt_eq_ok, and_assoc]

section Total

/-! A chain of checks and reads has no panic when each read is in bounds by the
checks before it. -/

variable {x : Outcome ε α} {f : α → Outcome ε β}

theorem ok_ne_panicked {a : α} : (.ok a : Outcome ε α) ≠ .panicked := nofun

theorem eq_err_or_eq_ok (h : x ≠ .panicked) : (∃ e, x = .err e) ∨ ∃ a, x = .ok a := by
  cases x with
  | ok a => exact Or.inr ⟨a,rfl⟩
  | err e => exact Or.inl ⟨e,rfl⟩
  | panicked => exact absurd rfl h

theorem rejectIf_bind_ne_panicked {c : Prop} [Decidable c] {e : ε} {f : Unit → Outcome ε β}
    (hf : ¬c → f () ≠ .panicked) : (rejectIf c e >>= f) ≠ .panicked :=
  bind_ne_panicked rejectIf_ne_panicked fun _ h => hf (rejectIf_eq_ok.mp h)

theorem orElse_bind_ne_panicked {x : Option α} {e : ε} (hf : ∀ a, x = some a → f a ≠ .panicked) :
    (orElse x e >>= f) ≠ .panicked := by
  apply bind_ne_panicked
  · cases x <;> exact nofun
  · intro a h
    exact hf a (orElse_eq_ok.mp h)

theorem index_bind_ne_panicked {p : List α} {i : ℕ} (h : i < p.length)
    (hf : ∀ a, p[i]? = some a → f a ≠ .panicked) : (index p i >>= f) ≠ .panicked := by
  have hi : p[i]? = some p[i] := List.getElem?_eq_getElem h
  rw [index_eq_ok.mpr hi]
  exact hf _ hi

theorem slice_bind_ne_panicked {p : List α} {a b : ℕ} {f : List α → Outcome ε β}
    (h : a ≤ b ∧ b ≤ p.length) (hf : ∀ q, f q ≠ .panicked) : (slice p a b >>= f) ≠ .panicked := by
  rw [slice_eq_ok.mpr ⟨h,rfl⟩]
  exact hf _

theorem sub_bind_ne_panicked {a b : ℕ} {f : ℕ → Outcome ε β} (h : b ≤ a)
    (hf : f (a-b) ≠ .panicked) : (sub a b >>= f) ≠ .panicked := by
  rw [sub_eq_ok.mpr ⟨h,rfl⟩]
  exact hf

theorem add_bind_ne_panicked {a b : ℕ} {f : ℕ → Outcome ε β} (h : a+b < 2^64)
    (hf : f (a+b) ≠ .panicked) : (add a b >>= f) ≠ .panicked := by
  rw [add_eq_ok.mpr ⟨h,rfl⟩]
  exact hf

theorem u16At_bind_ne_panicked {p : Bytes} {off : ℕ} {f : UInt16 → Outcome ε β}
    (h : off+2 ≤ p.length) (hf : ∀ x, f x ≠ .panicked) : (u16At p off >>= f) ≠ .panicked := by
  rw [u16At_eq_ok.mpr ⟨h,rfl⟩]
  exact hf _

theorem u32At_bind_ne_panicked {p : Bytes} {off : ℕ} {f : UInt32 → Outcome ε β}
    (h : off+4 ≤ p.length) (hf : ∀ x, f x ≠ .panicked) : (u32At p off >>= f) ≠ .panicked := by
  rw [u32At_eq_ok.mpr ⟨h,rfl⟩]
  exact hf _

theorem u64At_bind_ne_panicked {p : Bytes} {off : ℕ} {f : UInt64 → Outcome ε β}
    (h : off+8 ≤ p.length) (hf : ∀ x, f x ≠ .panicked) : (u64At p off >>= f) ≠ .panicked := by
  rw [u64At_eq_ok.mpr ⟨h,rfl⟩]
  exact hf _

end Total

section Reads

/-! Reading a field back from a buffer that was written field by field. -/

@[simp] theorem ok_bind (a : α) (f : α → Outcome ε β) : ((.ok a : Outcome ε α) >>= f) = f a := rfl

theorem pure_eq (a : α) : (pure a : Outcome ε α) = .ok a := rfl

theorem orElse_some (a : α) (e : ε) : orElse (some a) e = .ok a := rfl

theorem mapErr_ok {ε' : Type} (g : ε → ε') (a : α) : mapErr g (.ok a : Outcome ε α) = .ok a := rfl

theorem rejectIf_neg {c : Prop} [Decidable c] (h : ¬c) (e : ε) : rejectIf c e = .ok () :=
  if_neg h

theorem index_append (p q : Bytes) (n : ℕ) :
    (index (p++q) (p.length+n) : Outcome ε UInt8) = index q n := by
  simp [index, List.getElem?_append]

theorem bytesAt_append (p q : Bytes) (n w : ℕ) :
    (bytesAt (p++q) (p.length+n) w : Outcome ε Bytes) = bytesAt q n w := by
  induction w generalizing n with
  | zero => rfl
  | succ w ih =>
    simp only [bytesAt]
    rw [index_append, Nat.add_assoc, ih]

theorem u16At_append (p q : Bytes) (n : ℕ) :
    (u16At (p++q) (p.length+n) : Outcome ε UInt16) = u16At q n := by
  simp only [u16At, bytesAt_append]

theorem u32At_append (p q : Bytes) (n : ℕ) :
    (u32At (p++q) (p.length+n) : Outcome ε UInt32) = u32At q n := by
  simp only [u32At, bytesAt_append]

theorem u64At_append (p q : Bytes) (n : ℕ) :
    (u64At (p++q) (p.length+n) : Outcome ε UInt64) = u64At q n := by
  simp only [u64At, bytesAt_append]

theorem slice_append (p q : Bytes) (a b : ℕ) (ha : a = p.length) (hb : b = p.length+q.length) :
    (slice (p++q) a b : Outcome ε Bytes) = .ok q := by
  subst ha hb
  rw [← List.length_append, slice, if_pos ⟨by simp,le_refl _⟩, List.take_length, List.drop_left]

theorem slice_before (p q : Bytes) (b : ℕ) (hb : b = p.length) :
    (slice (p++q) 0 b : Outcome ε Bytes) = .ok p := by
  subst hb
  simp [slice]

@[simp] theorem index_cons (b : UInt8) (q : Bytes) : (index (b::q) 0 : Outcome ε UInt8) = .ok b :=
  rfl

@[simp] theorem u16At_be16 (x : UInt16) (q : Bytes) :
    (u16At (be16 x++q) 0 : Outcome ε UInt16) = .ok x := by
  simp [u16At_eq_ok]

@[simp] theorem u32At_be32 (x : UInt32) (q : Bytes) :
    (u32At (be32 x++q) 0 : Outcome ε UInt32) = .ok x := by
  simp [u32At_eq_ok]

@[simp] theorem u64At_be64 (x : UInt64) (q : Bytes) :
    (u64At (be64 x++q) 0 : Outcome ε UInt64) = .ok x := by
  simp [u64At_eq_ok]

@[simp] theorem index_skip32 (x : UInt32) (q : Bytes) (n : ℕ) :
    (index (be32 x++q) (n+4) : Outcome ε UInt8) = index q n := by
  rw [← index_append (be32 x) q n, be32_length, Nat.add_comm]

@[simp] theorem index_skip64 (x : UInt64) (q : Bytes) (n : ℕ) :
    (index (be64 x++q) (n+8) : Outcome ε UInt8) = index q n := by
  rw [← index_append (be64 x) q n, be64_length, Nat.add_comm]

@[simp] theorem u16At_skip16 (x : UInt16) (q : Bytes) (n : ℕ) :
    (u16At (be16 x++q) (n+2) : Outcome ε UInt16) = u16At q n := by
  rw [← u16At_append (be16 x) q n, be16_length, Nat.add_comm]

@[simp] theorem u32At_skip32 (x : UInt32) (q : Bytes) (n : ℕ) :
    (u32At (be32 x++q) (n+4) : Outcome ε UInt32) = u32At q n := by
  rw [← u32At_append (be32 x) q n, be32_length, Nat.add_comm]

@[simp] theorem u32At_skip64 (x : UInt64) (q : Bytes) (n : ℕ) :
    (u32At (be64 x++q) (n+8) : Outcome ε UInt32) = u32At q n := by
  rw [← u32At_append (be64 x) q n, be64_length, Nat.add_comm]

@[simp] theorem u32At_skip8 (x : UInt8) (q : Bytes) (n : ℕ) :
    (u32At (x::q) (n+1) : Outcome ε UInt32) = u32At q n := by
  rw [← u32At_append [x] q n, List.length_singleton, Nat.add_comm, List.singleton_append]

@[simp] theorem u64At_skip32 (x : UInt32) (q : Bytes) (n : ℕ) :
    (u64At (be32 x++q) (n+4) : Outcome ε UInt64) = u64At q n := by
  rw [← u64At_append (be32 x) q n, be32_length, Nat.add_comm]

theorem exists_be16 {p : Bytes} (h : 2 ≤ p.length) : ∃ x q, p = be16 x++q :=
  ⟨ofBe16 (p.take 2),p.drop 2,by rw [be16_ofBe16 (by simpa using h), List.take_append_drop]⟩

theorem exists_be32 {p : Bytes} (h : 4 ≤ p.length) : ∃ x q, p = be32 x++q :=
  ⟨ofBe32 (p.take 4),p.drop 4,by rw [be32_ofBe32 (by simpa using h), List.take_append_drop]⟩

theorem exists_be64 {p : Bytes} (h : 8 ≤ p.length) : ∃ x q, p = be64 x++q :=
  ⟨ofBe64 (p.take 8),p.drop 8,by rw [be64_ofBe64 (by simpa using h), List.take_append_drop]⟩

end Reads

end Outcome
end Term
