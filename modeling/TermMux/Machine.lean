import Mathlib.Data.List.Basic
import Mathlib.Data.List.Induction
import Mathlib.Data.List.Nodup

/-!
# Runs of a guarded transition function

A system is a step function that answers `none` where an action is not
enabled. A run folds it over a list of actions. `Along` says that every action
of a run meets a condition in the state where it is taken, so that a result
about disciplined runs is stated on the actions and on the states before them.
A system of several parties keeps them in a list, each at its own position, or
as a bag of tasks that move from one list to the next.
-/

set_option autoImplicit false

namespace Term.Machine

variable {S A : Type} (step : S → A → Option S)

def run (s : S) : List A → Option S
  | [] => some s
  | a::as => (step s a).bind fun t => run t as

def Along (ok : S → A → Prop) (s : S) : List A → Prop
  | [] => True
  | a::as => ok s a ∧ ∀ t, step s a = some t → Along ok t as

instance decidableAlong (ok : S → A → Prop) [∀ s a, Decidable (ok s a)] (s : S) (as : List A) :
    Decidable (Along step ok s as) :=
  match as with
  | [] => isTrue trivial
  | a::as =>
    match h : step s a with
    | none => decidable_of_iff (ok s a) ⟨fun ha => ⟨ha,by simp [h]⟩,And.left⟩
    | some t =>
      have := decidableAlong ok t as
      decidable_of_iff (ok s a ∧ Along step ok t as)
        ⟨fun ha => ⟨ha.1,fun u hu => Option.some.inj (h.symm.trans hu) ▸ ha.2⟩,
          fun ha => ⟨ha.1,ha.2 t h⟩⟩

theorem run_cons {s t : S} {a : A} {as : List A} :
    run step s (a::as) = some t ↔ ∃ u, step s a = some u ∧ run step u as = some t := by
  simp [run, Option.bind_eq_some_iff]

theorem run_append {s t : S} {as bs : List A} :
    run step s (as++bs) = some t ↔ ∃ u, run step s as = some u ∧ run step u bs = some t := by
  induction as generalizing s with
  | nil => simp [run]
  | cons a as ih =>
    rw [List.cons_append, run_cons]
    constructor
    · rintro ⟨v,hv,hrest⟩
      obtain ⟨u,hu,ht⟩ := ih.mp hrest
      exact ⟨u,(run_cons step).mpr ⟨v,hv,hu⟩,ht⟩
    · rintro ⟨u,hu,ht⟩
      obtain ⟨v,hv,hrest⟩ := (run_cons step).mp hu
      exact ⟨v,hv,ih.mpr ⟨u,hrest,ht⟩⟩

theorem along_of_forall {ok : A → Prop} {s : S} {as : List A} (h : ∀ a ∈ as, ok a) :
    Along step (fun _ a => ok a) s as := by
  induction as generalizing s with
  | nil => trivial
  | cons a as ih =>
    exact ⟨h a List.mem_cons_self,fun t _ => ih fun b hb => h b (List.mem_cons_of_mem _ hb)⟩

/-- A condition along a run is one on every action that follows a completed prefix. -/
theorem along_iff {ok : S → A → Prop} {s : S} {as : List A} :
    Along step ok s as ↔ ∀ bs a cs t, as = bs++a::cs → run step s bs = some t → ok t a := by
  induction as generalizing s with
  | nil => simp [Along]
  | cons a as ih =>
    constructor
    · rintro ⟨hok,hrest⟩ bs b cs t heq hrun
      cases bs with
      | nil =>
        cases hrun
        cases heq
        exact hok
      | cons c bs =>
        cases heq
        obtain ⟨u,hu,hbs⟩ := (run_cons step).mp hrun
        exact ih.mp (hrest u hu) bs b cs t rfl hbs
    · intro h
      refine ⟨h [] a as s rfl rfl,fun u hu => ih.mpr fun bs b cs t heq hrun => ?_⟩
      exact h (a::bs) b cs t (by rw [heq, List.cons_append]) ((run_cons step).mpr ⟨u,hu,hrun⟩)

theorem along_and {ok good : S → A → Prop} {s : S} {as : List A} (hok : Along step ok s as)
    (hgood : Along step good s as) : Along step (fun s a => ok s a ∧ good s a) s as := by
  induction as generalizing s with
  | nil => trivial
  | cons a as ih =>
    exact ⟨⟨hok.1,hgood.1⟩,fun t ht => ih (hok.2 t ht) (hgood.2 t ht)⟩

theorem along_append {ok : S → A → Prop} {s : S} {as bs : List A}
    (h : Along step ok s (as++bs)) : Along step ok s as := by
  rw [along_iff] at h ⊢
  intro cs a ds t heq hrun
  exact h cs a (ds++bs) t (by rw [heq, List.append_assoc, List.cons_append]) hrun

theorem along_rest {ok : S → A → Prop} {s u : S} {as bs : List A}
    (h : Along step ok s (as++bs)) (hrun : run step s as = some u) : Along step ok u bs := by
  rw [along_iff] at h ⊢
  intro cs a ds t heq hcs
  apply h (as++cs) a ds t
  · rw [heq, List.append_assoc]
  · exact (run_append step).mpr ⟨u,hrun,hcs⟩

/-- What every state of a run says about the step into it holds along the run. -/
theorem along_of_prefixes {P : S → Prop} {ok : S → A → Prop}
    (hstep : ∀ s a t, step s a = some t → P t → ok s a) {s t : S} {as : List A}
    (hrun : run step s as = some t)
    (hall : ∀ bs u, bs <+: as → run step s bs = some u → P u) : Along step ok s as := by
  rw [along_iff]
  rintro bs a cs u rfl hbs
  obtain ⟨u',hu',hrest⟩ := (run_append step).mp hrun
  cases hu'.symm.trans hbs
  obtain ⟨v,hv,-⟩ := (run_cons step).mp hrest
  refine hstep u a v hv (hall (bs++[a]) v ⟨cs,by simp⟩ ?_)
  exact (run_append step).mpr ⟨u,hbs,(run_cons step).mpr ⟨v,hv,rfl⟩⟩

/-- What every step of a disciplined run preserves holds after the run. -/
theorem run_along {I : S → Prop} {ok : S → A → Prop}
    (hstep : ∀ s a t, I s → ok s a → step s a = some t → I t)
    {s t : S} {as : List A} (hs : I s) (hok : Along step ok s as) (hrun : run step s as = some t) :
    I t := by
  induction as generalizing s with
  | nil =>
    cases hrun
    exact hs
  | cons a as ih =>
    obtain ⟨u,hu,hrest⟩ := (run_cons step).mp hrun
    exact ih (hstep s a u hs hok.1 hu) (hok.2 u hu) hrest

/-- What follows from an invariant and the discipline holds at every step. -/
theorem along_imp {I : S → Prop} {ok good : S → A → Prop}
    (hstep : ∀ s a t, I s → ok s a → step s a = some t → I t)
    (hgood : ∀ s a, I s → ok s a → good s a) {s : S} {as : List A} (hs : I s)
    (hok : Along step ok s as) : Along step good s as := by
  induction as generalizing s with
  | nil => trivial
  | cons a as ih =>
    exact ⟨hgood s a hs hok.1,fun t ht => ih (hstep s a t hs hok.1 ht) (hok.2 t ht)⟩

/-- What every step preserves holds after every run. -/
theorem run_invariant {I : S → Prop} (hstep : ∀ s a t, I s → step s a = some t → I t)
    {s t : S} {as : List A} (hs : I s) (hrun : run step s as = some t) : I t := by
  have hany : ∀ a ∈ as, (fun _ : A => True) a := fun _ _ => trivial
  exact run_along step (fun s a t hI _ h => hstep s a t hI h) hs (along_of_forall step hany) hrun

/-- What an action brings about, and no step takes back, holds after a run that has the action. -/
theorem run_mem {P : S → Prop} {a : A} (hact : ∀ s t, step s a = some t → P t)
    (hkeep : ∀ s b t, P s → step s b = some t → P t) {s t : S} {as : List A}
    (hrun : run step s as = some t) (ha : a ∈ as) : P t := by
  obtain ⟨bs,cs,rfl⟩ := List.append_of_mem ha
  obtain ⟨u,-,hrest⟩ := (run_append step).mp hrun
  obtain ⟨v,hv,ht⟩ := (run_cons step).mp hrest
  exact run_invariant step hkeep (hact u v hv) ht

def Visits (s : S) (as : List A) (P : S → Prop) : Prop :=
  ∃ bs u, bs <+: as ∧ run step s bs = some u ∧ P u

theorem visits_last {P : S → Prop} {s t : S} {as : List A} (hrun : run step s as = some t)
    (h : P t) : Visits step s as P :=
  ⟨as,t,List.prefix_refl as,hrun,h⟩

theorem visits_append {P : S → Prop} {s : S} {as bs : List A} (h : Visits step s as P) :
    Visits step s (as++bs) P := by
  obtain ⟨cs,u,hcs,hrun,hu⟩ := h
  exact ⟨cs,u,hcs.trans (List.prefix_append as bs),hrun,hu⟩

/-- An invariant that also speaks of the run so far. -/
theorem run_history {J : List A → S → Prop} {s t : S} {as : List A} (hs : J [] s)
    (hstep : ∀ bs u a v, run step s bs = some u → J bs u → step u a = some v → J (bs++[a]) v)
    (hrun : run step s as = some t) : J as t := by
  induction as using List.reverseRecOn generalizing t with
  | nil =>
    cases hrun
    exact hs
  | append_singleton as a ih =>
    obtain ⟨u,hu,ha⟩ := (run_append step).mp hrun
    obtain ⟨v,hv,hnil⟩ := (run_cons step).mp ha
    cases hnil
    exact hstep as u a _ hu (ih hu) hv

section Parties
variable {P : A → Prop} {l : List A} {i j : ℕ} {a u v : A}

theorem forall_mem_set (h : ∀ x ∈ l, P x) (hu : P u) : ∀ x ∈ l.set i u, P x := by
  intro x hx
  rcases List.mem_or_eq_of_mem_set hx with hold | heq
  · exact h x hold
  · rw [heq]
    exact hu

theorem forall_mem_concat (h : ∀ x ∈ l, P x) (hu : P u) : ∀ x ∈ l++[u], P x :=
  List.forall_mem_append.mpr ⟨h,List.forall_mem_singleton.mpr hu⟩

theorem mem_set_self (u : A) (h : l[i]? = some a) : u ∈ l.set i u :=
  List.mem_set (List.getElem?_eq_some_iff.mp h).1 u

theorem mem_set_or_eq (u : A) (h : l[i]? = some a) (hv : v ∈ l) : v ∈ l.set i u ∨ v = a := by
  obtain ⟨j,hj⟩ := List.mem_iff_getElem?.mp hv
  by_cases heq : i = j
  · right
    rw [heq, hj] at h
    exact Option.some.inj h
  · left
    apply List.mem_iff_getElem?.mpr
    exact ⟨j,by rw [List.getElem?_set_ne heq, hj]⟩

theorem map_set_same {B : Type} (f : A → B) (h : l[i]? = some a) (hu : f u = f a) :
    (l.set i u).map f = l.map f := by
  obtain ⟨hlt,hget⟩ := List.getElem?_eq_some_iff.mp h
  rw [List.map_set, hu, ← hget]
  have hlt' : i < (l.map f).length := by simpa using hlt
  rw [← List.getElem_map f (h := hlt'), List.set_getElem_self]

theorem getElem?_set_cases (h : (l.set i u)[j]? = some v) :
    j = i ∧ v = u ∨ j ≠ i ∧ l[j]? = some v := by
  by_cases heq : i = j
  · subst heq
    have hlt : i < (l.set i u).length := (List.getElem?_eq_some_iff.mp h).1
    rw [List.length_set] at hlt
    rw [List.getElem?_set_self hlt] at h
    cases h
    exact .inl ⟨rfl,rfl⟩
  · rw [List.getElem?_set_ne heq] at h
    exact .inr ⟨fun hji => heq hji.symm,h⟩

theorem getElem?_concat_cases (h : (l++[u])[j]? = some v) :
    l[j]? = some v ∨ j = l.length ∧ v = u := by
  by_cases hlt : j < l.length
  · left
    rwa [List.getElem?_append_left hlt] at h
  · right
    have hle : j < (l++[u]).length := (List.getElem?_eq_some_iff.mp h).1
    rw [List.length_append, List.length_singleton] at hle
    have heq : j = l.length := by omega
    subst heq
    rw [List.getElem?_concat_length] at h
    exact ⟨rfl,(Option.some.inj h).symm⟩

end Parties

section Tasks
variable {B K : Type} [DecidableEq K]

def tally (key : B → K) (l : List B) (k : K) : ℕ := (l.map key).count k

theorem tally_cons (key : B → K) (l : List B) (b : B) (k : K) :
    tally key (b::l) k = tally key l k+(if key b = k then 1 else 0) := by
  rw [tally, List.map_cons, List.count_cons, tally]
  simp only [beq_iff_eq]

theorem tally_erase [DecidableEq B] (key : B → K) {l : List B} {b : B} (h : b ∈ l) (k : K) :
    tally key (l.erase b) k+(if key b = k then 1 else 0) = tally key l k := by
  rw [← tally_cons]
  exact ((List.perm_cons_erase h).symm.map key).count_eq k

theorem nodup_of_tally {key : B → K} {l : List B} (h : ∀ k, tally key l k ≤ 1) :
    (l.map key).Nodup :=
  List.nodup_iff_count_le_one.mpr h

end Tasks

end Term.Machine
