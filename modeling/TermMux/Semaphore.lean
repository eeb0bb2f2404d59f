import Mathlib.Algebra.BigOperators.Group.List.Basic
import Mathlib.Tactic

/-!
# Semaphores that serve batches in turn

A request asks for several permits at once. One that finds too few takes what there is and queues
up; permits that are given back go to the front of the queue first, and what no one waits for
becomes free. Permits are neither made nor lost, and as long as anyone waits none is free.
-/

set_option autoImplicit false

namespace Term.Semaphore
variable {α : Type}

structure Waiter (α : Type) where
  want : ℕ
  got : ℕ
  item : α
  deriving DecidableEq, Repr

structure Sem (α : Type) where
  permits : ℕ
  /-- The first to be served comes first. -/
  waiters : List (Waiter α)
  deriving DecidableEq, Repr

structure Served (α : Type) where
  done : List (Waiter α)
  rest : List (Waiter α)
  left : ℕ

def serve : ℕ → List (Waiter α) → Served α
  | n, [] => ⟨[],[],n⟩
  | n, w::ws =>
    if w.want ≤ w.got+n then
      let r := serve (w.got+n-w.want) ws
      ⟨w::r.done,r.rest,r.left⟩
    else ⟨[],{ w with got := w.got+n }::ws,0⟩

namespace Sem

def release (s : Sem α) (n : ℕ) : Sem α :=
  ⟨s.permits+(serve n s.waiters).left,(serve n s.waiters).rest⟩

def served (s : Sem α) (n : ℕ) : List (Waiter α) := (serve n s.waiters).done

def enqueue (s : Sem α) (n : ℕ) (item : α) : Sem α := ⟨0,s.waiters++[⟨n,s.permits,item⟩]⟩

def leave (s : Sem α) (i : ℕ) : Sem α := { s with waiters := s.waiters.eraseIdx i }

end Sem

theorem sum_map_eraseIdx {β : Type} (f : β → ℕ) {l : List β} {i : ℕ} {b : β}
    (h : l[i]? = some b) : ((l.eraseIdx i).map f).sum+f b = (l.map f).sum := by
  obtain ⟨hlt,rfl⟩ := List.getElem?_eq_some_iff.mp h
  have hsum := ((List.getElem_cons_eraseIdx_perm hlt).map f).sum_nat
  rw [List.map_cons, List.sum_cons] at hsum
  omega

def assigned (ws : List (Waiter α)) : ℕ := (ws.map Waiter.got).sum

/-- Permits are free only when no one waits, and only the first in the queue has got some. -/
structure Fair (s : Sem α) : Prop where
  free : s.waiters ≠ [] → s.permits = 0
  short : ∀ w ∈ s.waiters, w.got < w.want
  behind : ∀ w ∈ s.waiters.tail, w.got = 0

section Serve
variable {n : ℕ} {ws : List (Waiter α)} {s : Sem α} {w : Waiter α}

theorem serve_total (n : ℕ) (ws : List (Waiter α)) :
    ((serve n ws).done.map Waiter.want).sum+assigned (serve n ws).rest+(serve n ws).left =
      n+assigned ws := by
  induction ws generalizing n with
  | nil => simp [serve, assigned]
  | cons w ws ih =>
    rw [serve]
    split_ifs with h
    · have hrest := ih (w.got+n-w.want)
      simp only [assigned, List.map_cons, List.sum_cons] at hrest ⊢
      omega
    · simp only [assigned, List.map_nil, List.sum_nil, List.map_cons, List.sum_cons]
      omega

theorem serve_items (n : ℕ) (ws : List (Waiter α)) :
    (serve n ws).done.map Waiter.item++(serve n ws).rest.map Waiter.item = ws.map Waiter.item := by
  induction ws generalizing n with
  | nil => rfl
  | cons w ws ih =>
    rw [serve]
    split_ifs with h
    · dsimp only
      rw [List.map_cons, List.map_cons, List.cons_append, ih]
    · rfl

theorem mem_serve_done (h : w ∈ (serve n ws).done) : w ∈ ws := by
  induction ws generalizing n with
  | nil => exact h
  | cons v ws ih =>
    rw [serve] at h
    split_ifs at h with hv
    · rcases List.mem_cons.mp h with rfl | h
      · exact List.mem_cons_self
      · exact List.mem_cons_of_mem v (ih h)
    · exact absurd h List.not_mem_nil

/-- Only the number of permits that it has got changes about a waiter. -/
theorem mem_serve_rest (h : w ∈ (serve n ws).rest) :
    ∃ v ∈ ws, v.want = w.want ∧ v.item = w.item := by
  induction ws generalizing n with
  | nil => exact absurd h List.not_mem_nil
  | cons v ws ih =>
    rw [serve] at h
    split_ifs at h with hv
    · obtain ⟨u,hu,hsame⟩ := ih h
      exact ⟨u,List.mem_cons_of_mem v hu,hsame⟩
    · rcases List.mem_cons.mp h with rfl | h
      · exact ⟨v,List.mem_cons_self,rfl,rfl⟩
      · exact ⟨w,List.mem_cons_of_mem v h,rfl,rfl⟩

theorem serve_fair (hshort : ∀ w ∈ ws, w.got < w.want) (hbehind : ∀ w ∈ ws.tail, w.got = 0)
    (n : ℕ) : ((serve n ws).rest ≠ [] → (serve n ws).left = 0) ∧
      (∀ w ∈ (serve n ws).rest, w.got < w.want) ∧ ∀ w ∈ (serve n ws).rest.tail, w.got = 0 := by
  induction ws generalizing n with
  | nil => exact ⟨fun h => absurd rfl h,hshort,hbehind⟩
  | cons w ws ih =>
    obtain ⟨-,hlater⟩ := List.forall_mem_cons.mp hshort
    rw [serve]
    split_ifs with h
    · exact ih hlater (fun v hv => hbehind v (List.mem_of_mem_tail hv)) _
    · refine ⟨fun _ => rfl,List.forall_mem_cons.mpr ⟨?_,hlater⟩,hbehind⟩
      change w.got+n < w.want
      omega

theorem Fair.release (h : Fair s) (n : ℕ) : Fair (s.release n) := by
  obtain ⟨hleft,hshort,hbehind⟩ := serve_fair h.short h.behind n
  refine ⟨fun hne => ?_,hshort,hbehind⟩
  have hwait : s.waiters ≠ [] := by
    rintro hnil
    apply hne
    rw [Sem.release, hnil]
    rfl
  change s.permits+(serve n s.waiters).left = 0
  rw [h.free hwait, hleft hne]

theorem release_total (s : Sem α) (n : ℕ) :
    (s.release n).permits+assigned (s.release n).waiters+((s.served n).map Waiter.want).sum =
      s.permits+assigned s.waiters+n := by
  have htotal := serve_total n s.waiters
  simp only [Sem.release, Sem.served]
  omega

theorem Fair.enqueue (h : Fair s) (hn : s.permits < n) (item : α) : Fair (s.enqueue n item) := by
  refine ⟨fun _ => rfl,List.forall_mem_append.mpr ⟨h.short,List.forall_mem_singleton.mpr hn⟩,?_⟩
  intro w hw
  cases hws : s.waiters with
  | nil =>
    rw [Sem.enqueue, hws] at hw
    exact absurd hw List.not_mem_nil
  | cons v vs =>
    have hnone : s.permits = 0 := h.free (by rw [hws]; exact List.cons_ne_nil v vs)
    rw [Sem.enqueue, hws, List.cons_append, List.tail_cons] at hw
    rcases List.mem_append.mp hw with hold | hnew
    · exact h.behind w (by rwa [hws])
    · rw [List.mem_singleton.mp hnew]
      exact hnone

theorem enqueue_total (s : Sem α) (n : ℕ) (item : α) :
    (s.enqueue n item).permits+assigned (s.enqueue n item).waiters =
      s.permits+assigned s.waiters := by
  simp [Sem.enqueue, assigned]
  omega

theorem Fair.leave (h : Fair s) (i : ℕ) : Fair (s.leave i) := by
  refine ⟨fun hne => h.free ?_,fun w hw => h.short w (List.mem_of_mem_eraseIdx hw),?_⟩
  · rintro hnil
    apply hne
    rw [Sem.leave, hnil]
    rfl
  · intro w hw
    apply h.behind w
    have hsub : (s.waiters.eraseIdx i).tail.Sublist s.waiters.tail :=
      (List.eraseIdx_sublist s.waiters i).tail
    exact hsub.subset hw

theorem leave_total {i : ℕ} (hw : s.waiters[i]? = some w) :
    assigned (s.leave i).waiters+w.got = assigned s.waiters :=
  sum_map_eraseIdx Waiter.got hw

/-- When all permits are free or on their way to waiters, no one that could be served waits. -/
theorem Fair.no_waiter (h : Fair s) {total : ℕ} (hall : s.permits+assigned s.waiters = total)
    (hsmall : ∀ w ∈ s.waiters, w.want ≤ total) : s.waiters = [] ∧ s.permits = total := by
  cases hws : s.waiters with
  | nil =>
    rw [hws] at hall
    exact ⟨rfl,hall⟩
  | cons w ws =>
    have hnone : s.permits = 0 := h.free (by rw [hws]; exact List.cons_ne_nil w ws)
    have hbehind : assigned ws = 0 := by
      have hzero := h.behind
      rw [hws, List.tail_cons] at hzero
      exact List.sum_eq_zero fun x hx => by
        obtain ⟨v,hv,rfl⟩ := List.mem_map.mp hx
        exact hzero v hv
    have hshort := h.short w (by rw [hws]; exact List.mem_cons_self)
    have hfit := hsmall w (by rw [hws]; exact List.mem_cons_self)
    have hfirst : assigned (w::ws) = w.got+assigned ws := List.sum_cons
    rw [hws, hnone, hfirst] at hall
    omega

end Serve

end Term.Semaphore
