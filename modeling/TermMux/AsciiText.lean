import TermMux.ByteOrder

/-!
# Fields of ASCII text

Decimal numbers of 64 bits, splitting at a separator byte and trimming blanks,
on text as its bytes. Each printer is paired with the reader that undoes it on
text that does not contain the separator.
-/

set_option autoImplicit false

namespace Term.AsciiText
open Term.ByteOrder

def headerText (b : UInt8) : Bool := (0x20 ≤ b && b < 0x7F) || b == 0x09

def isBlank (b : UInt8) : Bool := b == 0x20 || b == 0x09

def trim (t : Bytes) : Bytes := ((t.dropWhile isBlank).reverse.dropWhile isBlank).reverse

theorem dropWhile_of_forall {p : UInt8 → Bool} {t : Bytes} (h : ∀ b ∈ t, p b = false) :
    t.dropWhile p = t := by
  cases t with
  | nil => rfl
  | cons b t => rw [List.dropWhile_cons_of_neg (by simp [h b List.mem_cons_self])]

theorem trim_of_forall {t : Bytes} (h : ∀ b ∈ t, isBlank b = false) : trim t = t := by
  rw [trim, dropWhile_of_forall h, dropWhile_of_forall (by simpa using h), List.reverse_reverse]

/-- `splitn`: at most `n` pieces, the last one whole. -/
def splitn (c : UInt8) : ℕ → Bytes → List Bytes
  | 0, _ => []
  | 1, t => [t]
  | n+2, t =>
    match t.span (· ≠ c) with
    | (a,[]) => [a]
    | (a,_::rest) => a::splitn c (n+1) rest

theorem span_separator {c : UInt8} {t : Bytes} (u : Bytes) (h : c ∉ t) :
    (t++c::u).span (· ≠ c) = (t,c::u) := by
  have hpos : ∀ b ∈ t, decide (b ≠ c) = true := by
    intro b hb
    simpa using fun heq : b = c => h (heq ▸ hb)
  rw [List.span_eq_takeWhile_dropWhile, List.takeWhile_append_of_pos hpos,
    List.dropWhile_append_of_pos hpos]
  simp

theorem splitn_separator {c : UInt8} {t : Bytes} (n : ℕ) (u : Bytes) (h : c ∉ t) :
    splitn c (n+2) (t++c::u) = t::splitn c (n+1) u := by
  simp only [splitn, span_separator u h]

/-- Text is cut at its last separator in one way only. -/
theorem last_separator_inj {c : UInt8} {a b t u : Bytes} (ht : c ∉ t) (hu : c ∉ u) :
    a++c::t = b++c::u ↔ a = b ∧ t = u := by
  constructor
  · intro h
    have hrev := congrArg List.reverse h
    simp only [List.reverse_append, List.reverse_cons, List.append_assoc, List.singleton_append]
      at hrev
    have hspan := congrArg (List.span (· ≠ c)) hrev
    rw [span_separator _ (by rwa [List.mem_reverse]), span_separator _ (by rwa [List.mem_reverse]),
      Prod.mk.injEq, List.cons.injEq, List.reverse_inj, List.reverse_inj] at hspan
    exact ⟨hspan.2.2,hspan.1⟩
  · rintro ⟨rfl,rfl⟩
    rfl
def decimalAux : ℕ → ℕ → Bytes → Bytes
  | 0, _, acc => acc
  | fuel+1, n, acc =>
    let acc := UInt8.ofNat (0x30+n%10)::acc
    if n < 10 then acc else decimalAux fuel (n/10) acc

def decimal (n : ℕ) : Bytes := decimalAux (n+1) n []

def digit (b : UInt8) : Option ℕ := if 0x30 ≤ b ∧ b ≤ 0x39 then some (b.toNat-0x30) else none

def pushDigit (acc : ℕ) (b : UInt8) : Option ℕ :=
  (digit b).bind fun d => if acc*10+d < 2^64 then some (acc*10+d) else none

/-- `u64::from_str`: an optional plus sign and at least one digit. -/
def parseU64 (t : Bytes) : Option UInt64 :=
  let digits := match t with
    | 0x2B::rest => rest
    | _ => t
  if digits = [] then none else (digits.foldlM pushDigit 0).map UInt64.ofNat

theorem digit_ofNat {d : ℕ} (h : d < 10) : digit (UInt8.ofNat (0x30+d)) = some d := by
  interval_cases d <;> rfl

theorem pushDigit_ofNat {acc d : ℕ} (hd : d < 10) (h : acc*10+d < 2^64) :
    pushDigit acc (UInt8.ofNat (0x30+d)) = some (acc*10+d) := by
  rw [pushDigit, digit_ofNat hd, Option.bind_some, if_pos h]

theorem foldlM_decimalAux (fuel n : ℕ) (acc : Bytes) (hf : n < fuel) (h : n < 2^64) :
    (decimalAux fuel n acc).foldlM pushDigit 0 = acc.foldlM pushDigit n := by
  induction fuel generalizing n acc with
  | zero => omega
  | succ fuel ih =>
    have hmod := Nat.mod_lt n (show 0 < 10 by omega)
    simp only [decimalAux]
    split_ifs with hn
    · rw [List.foldlM_cons, pushDigit_ofNat hmod (by omega)]
      simp only [Option.bind_eq_bind, Option.bind_some]
      congr 1
      omega
    · rw [ih (n/10) _ (by omega) (by omega), List.foldlM_cons, pushDigit_ofNat hmod (by omega)]
      simp only [Option.bind_eq_bind, Option.bind_some]
      congr 1
      omega

theorem forall_decimalAux {p : UInt8 → Prop} (hp : ∀ d < 10, p (UInt8.ofNat (0x30+d)))
    (fuel n : ℕ) (acc : Bytes) (hacc : ∀ b ∈ acc, p b) : ∀ b ∈ decimalAux fuel n acc, p b := by
  induction fuel generalizing n acc with
  | zero => exact hacc
  | succ fuel ih =>
    have hcons : ∀ b ∈ UInt8.ofNat (0x30+n%10)::acc, p b := by
      simp only [List.forall_mem_cons]
      exact ⟨hp _ (Nat.mod_lt _ (by omega)),hacc⟩
    simp only [decimalAux]
    split_ifs
    · exact hcons
    · exact ih _ _ hcons

theorem forall_decimal {p : UInt8 → Prop} (hp : ∀ d < 10, p (UInt8.ofNat (0x30+d))) (n : ℕ) :
    ∀ b ∈ decimal n, p b :=
  forall_decimalAux hp _ n [] nofun

theorem decimalAux_length (fuel n k : ℕ) (acc : Bytes) (h : n < 10^(k+1)) :
    (decimalAux fuel n acc).length ≤ acc.length+(k+1) := by
  induction fuel generalizing n k acc with
  | zero => simp [decimalAux]
  | succ fuel ih =>
    simp only [decimalAux]
    split_ifs with hn
    · simp
    · cases k with
      | zero => omega
      | succ k =>
        have hdiv : n/10 < 10^(k+1) := by
          rw [Nat.div_lt_iff_lt_mul (by omega)]
          exact h
        have := ih (n/10) k (UInt8.ofNat (0x30+n%10)::acc) hdiv
        simp only [List.length_cons] at this
        omega

theorem decimal_length {n : ℕ} (h : n < 2^64) : (decimal n).length ≤ 20 := by
  have := decimalAux_length (n+1) n 19 [] (by omega)
  simpa [decimal] using this

theorem decimal_ne_nil (n : ℕ) : decimal n ≠ [] := by
  have hlong : ∀ fuel n acc, acc ≠ [] → decimalAux fuel n acc ≠ [] := by
    intro fuel
    induction fuel with
    | zero => exact fun _ _ h => h
    | succ fuel ih =>
      intro n acc h
      simp only [decimalAux]
      split_ifs
      · simp
      · exact ih _ _ (by simp)
  simp only [decimal, decimalAux]
  split_ifs
  · simp
  · exact hlong _ _ _ (by simp)

theorem parseU64_decimal (x : UInt64) : parseU64 (decimal x.toNat) = some x := by
  have hplus : ∀ b ∈ decimal x.toNat, b ≠ 0x2B :=
    forall_decimal (fun d hd => by interval_cases d <;> decide) _
  have hfold := foldlM_decimalAux (x.toNat+1) x.toNat [] (by omega) x.toNat_lt
  have hdigits : (match decimal x.toNat with
      | 0x2B::rest => rest
      | _ => decimal x.toNat) = decimal x.toNat := by
    split
    · rename_i rest heq
      exact absurd rfl (hplus 0x2B (by rw [heq]; exact List.mem_cons_self))
    · rfl
  simp only [parseU64, hdigits, if_neg (decimal_ne_nil _)]
  rw [decimal, hfold]
  simp

end Term.AsciiText
