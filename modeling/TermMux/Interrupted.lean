import TermMux.Machine

/-!
# Runs that a fault cuts short

A program is a list of calls, and a fault strikes one of them: the calls before
it take effect, the one it strikes leaves what it had done so far, and the ones
behind it are not made. A call can also fail by itself. The flag says whether
every call was completed.
-/

set_option autoImplicit false

namespace Term.Interrupted
open Term.Machine

/-- The position of the call that is struck, and how far it had come. -/
structure Fault where
  call : ℕ
  progress : ℕ
  deriving DecidableEq, Repr

def after (m : ℕ) (fault : Option Fault) : Option Fault :=
  fault.map fun f => ⟨f.call-m,f.progress⟩

def Past (m : ℕ) (fault : Option Fault) : Prop := ∀ f ∈ fault, m ≤ f.call

section Attempts

variable {S A : Type} (step : S → A → Option S) (torn : ℕ → S → A → S)

def attempt : S → List A → Option Fault → S × Bool
  | s, [], _ => (s,true)
  | s, a::_, some ⟨0,k⟩ => (torn k s a,false)
  | s, a::as, some ⟨n+1,k⟩ =>
    match step s a with
    | some t => attempt t as (some ⟨n,k⟩)
    | none => (s,false)
  | s, a::as, none =>
    match step s a with
    | some t => attempt t as none
    | none => (s,false)

variable {step torn} {s t : S} {a : A} {as bs : List A} {fault : Option Fault}

theorem past_cons (h : Past (as.length+1) fault) :
    Past 1 fault ∧ Past as.length (after 1 fault) := by
  cases fault with
  | none => exact ⟨by simp [Past],by simp [Past, after]⟩
  | some f =>
    have hf := h f rfl
    constructor
    · intro g hg
      cases hg
      omega
    · intro g hg
      cases hg
      show as.length ≤ f.call-1
      omega

theorem attempt_cons (h : Past 1 fault) : attempt step torn s (a::as) fault =
    match step s a with
    | some t => attempt step torn t as (after 1 fault)
    | none => (s,false) := by
  cases fault with
  | none => rfl
  | some f =>
    obtain ⟨n,k⟩ := f
    cases n with
    | zero => exact absurd (h _ rfl) (by simp)
    | succ n => rfl

theorem past_or_struck (fault : Option Fault) : Past 1 fault ∨ ∃ k, fault = some ⟨0,k⟩ := by
  cases fault with
  | none => exact Or.inl (by simp [Past])
  | some f =>
    obtain ⟨n,k⟩ := f
    cases n with
    | zero => exact Or.inr ⟨k,rfl⟩
    | succ n => exact Or.inl (by simp [Past])

theorem exists_struck {n : ℕ} (h : ¬Past n fault) : ∃ i k, fault = some ⟨i,k⟩ ∧ i < n := by
  cases fault with
  | none => exact absurd (by simp [Past]) h
  | some g =>
    obtain ⟨i,k⟩ := g
    refine ⟨i,k,rfl,?_⟩
    by_contra hle
    apply h
    intro g hg
    cases hg
    exact Nat.not_lt.mp hle

theorem past_after {m n : ℕ} (h : Past (m+n) fault) : Past n (after m fault) := by
  cases fault with
  | none => simp [Past, after]
  | some f =>
    have hf := h f rfl
    intro g hg
    cases hg
    show n ≤ f.call-m
    omega

theorem after_after (m n : ℕ) : after n (after m fault) = after (m+n) fault := by
  cases fault with
  | none => rfl
  | some f => simp [after, Nat.sub_sub]

theorem attempt_run (h : Past as.length fault) (hrun : run step s as = some t) :
    attempt step torn s as fault = (t,true) := by
  induction as generalizing s fault with
  | nil => cases hrun; rfl
  | cons a as ih =>
    obtain ⟨u,hu,hrest⟩ := (run_cons step).mp hrun
    rw [attempt_cons (past_cons h).1, hu]
    exact ih (past_cons h).2 hrest

/-- A completed part hands the fault on to the rest. -/
theorem attempt_append_done (h : attempt step torn s as fault = (t,true)) :
    attempt step torn s (as++bs) fault = attempt step torn t bs (after as.length fault) := by
  induction as generalizing s fault with
  | nil =>
    cases h
    cases fault <;> rfl
  | cons a as ih =>
    rcases past_or_struck fault with hp | ⟨k,rfl⟩
    · rw [attempt_cons hp] at h
      rw [List.cons_append, attempt_cons hp]
      cases hs : step s a with
      | none => rw [hs] at h; cases h
      | some u =>
        rw [hs] at h
        show attempt step torn u (as++bs) (after 1 fault) = _
        rw [ih h, after_after, Nat.add_comm, List.length_cons]
    · cases h

theorem attempt_append_stopped (h : attempt step torn s as fault = (t,false)) :
    attempt step torn s (as++bs) fault = (t,false) := by
  induction as generalizing s fault with
  | nil => cases h
  | cons a as ih =>
    rcases past_or_struck fault with hp | ⟨k,rfl⟩
    · rw [attempt_cons hp] at h
      rw [List.cons_append, attempt_cons hp]
      cases hs : step s a with
      | none => rw [hs] at h; exact h
      | some u =>
        rw [hs] at h
        exact ih h
    · exact h

end Attempts

end Term.Interrupted
