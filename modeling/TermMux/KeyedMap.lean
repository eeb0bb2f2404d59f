import Mathlib.Algebra.GroupWithZero.Nat
import Mathlib.Data.List.AList

/-!
# Maps with one entry a key

What an entry of a map says after an insertion or a removal about the map before it, and
how a part of the entries moves along. A sum over the entries, and a list with what each
entry contributes, change by the entry that comes or goes.
-/

set_option autoImplicit false

namespace Term.KeyedMap
variable {α β : Type} [DecidableEq α] {m : AList fun _ : α => β} {k i : α} {v x : β}

theorem lookup_of_erase (h : (m.erase k).lookup i = some x) : i ≠ k ∧ m.lookup i = some x := by
  by_cases heq : i = k
  · rw [heq, AList.lookup_erase] at h
    cases h
  · rw [AList.lookup_erase_ne heq] at h
    exact ⟨heq,h⟩

theorem lookup_of_insert (h : (m.insert k v).lookup i = some x) :
    i = k ∧ x = v ∨ i ≠ k ∧ m.lookup i = some x := by
  by_cases heq : i = k
  · rw [heq, AList.lookup_insert] at h
    exact .inl ⟨heq,(Option.some.inj h).symm⟩
  · rw [AList.lookup_insert_ne heq] at h
    exact .inr ⟨heq,h⟩

theorem lookup_erase_none (k : α) (h : m.lookup i = none) : (m.erase k).lookup i = none := by
  apply Option.eq_none_iff_forall_ne_some.mpr
  intro x hx
  cases h.symm.trans (lookup_of_erase hx).2

theorem forall_insert {P : α → β → Prop} (h : ∀ i x, m.lookup i = some x → P i x) (hv : P k v) :
    ∀ i x, (m.insert k v).lookup i = some x → P i x := by
  intro i x hx
  rcases lookup_of_insert hx with ⟨rfl,rfl⟩ | ⟨-,hold⟩
  · exact hv
  · exact h i x hold

theorem forall_erase {P : α → β → Prop} (h : ∀ i x, m.lookup i = some x → P i x) :
    ∀ i x, (m.erase k).lookup i = some x → P i x :=
  fun i x hx => h i x (lookup_of_erase hx).2

/-- Erasing a key and keeping the entries with a property commute where keys are distinct. -/
theorem filter_kerase (p : (Σ _ : α, β) → Bool) (k : α) {l : List (Σ _ : α, β)}
    (h : l.NodupKeys) : (l.kerase k).filter p = (l.filter p).kerase k := by
  induction l with
  | nil => rfl
  | cons e l ih =>
    obtain ⟨hnew,hrest⟩ := List.nodupKeys_cons.mp h
    by_cases hk : k = e.1
    · rw [List.kerase_cons_eq hk]
      have hnone : k ∉ (l.filter p).keys := by
        rw [hk]
        intro hmem
        exact hnew ((List.filter_sublist.map Sigma.fst).subset hmem)
      cases hp : p e with
      | true => rw [List.filter_cons_of_pos hp, List.kerase_cons_eq hk]
      | false =>
        rw [List.filter_cons_of_neg (by simp [hp]), List.kerase_of_notMem_keys hnone]
    · rw [List.kerase_cons_ne hk, List.filter_cons, List.filter_cons, ih hrest]
      split_ifs
      · rw [List.kerase_cons_ne hk]
      · rfl

theorem entries_perm (h : m.lookup k = some v) : m.entries.Perm (⟨k,v⟩::(m.erase k).entries) := by
  have hkey : k ∈ m.entries.keys := AList.mem_keys.mp (AList.lookup_isSome.mp (by rw [h]; rfl))
  obtain ⟨w,l₁,l₂,-,hl,her⟩ := List.exists_of_kerase hkey
  have hw : w = v := by
    have hmem : (⟨k,w⟩ : Σ _ : α, β) ∈ m.entries := by simp [hl]
    exact Option.some.inj ((AList.mem_lookup_iff.mpr hmem).symm.trans h)
  change m.entries.Perm (⟨k,v⟩::m.entries.kerase k)
  rw [her, hl, hw]
  exact List.perm_middle

theorem entries_insert (m : AList fun _ : α => β) (k : α) (v : β) :
    (m.insert k v).entries = ⟨k,v⟩::(m.erase k).entries := rfl

theorem erase_of_none (h : m.lookup k = none) : m.erase k = m := by
  apply AList.ext
  change m.entries.kerase k = m.entries
  exact List.kerase_of_notMem_keys (AList.lookup_eq_none.mp h)

theorem length_erase_le (m : AList fun _ : α => β) (k : α) :
    (m.erase k).entries.length ≤ m.entries.length := by
  cases h : m.lookup k with
  | none => rw [erase_of_none h]
  | some v =>
    have hlen := (entries_perm h).length_eq
    rw [List.length_cons] at hlen
    omega

def weigh (w : α → β → ℕ) (m : AList fun _ : α => β) : ℕ := (m.entries.map fun e => w e.1 e.2).sum

theorem weigh_insert (w : α → β → ℕ) (m : AList fun _ : α => β) (k : α) (v : β) :
    weigh w (m.insert k v) = w k v+weigh w (m.erase k) := by
  rw [weigh, entries_insert, List.map_cons, List.sum_cons, weigh]

theorem weigh_of_lookup (w : α → β → ℕ) (h : m.lookup k = some v) :
    weigh w m = w k v+weigh w (m.erase k) := by
  rw [← weigh_insert]
  exact ((entries_perm h).map _).sum_nat

theorem weigh_new (w : α → β → ℕ) (h : m.lookup k = none) (v : β) :
    weigh w (m.insert k v) = w k v+weigh w m := by
  rw [weigh_insert, erase_of_none h]

def gather {γ : Type} (f : β → List γ) (m : AList fun _ : α => β) : List γ :=
  m.entries.flatMap fun e => f e.2

section Gather
variable {γ : Type} {f : β → List γ}

theorem gather_insert (f : β → List γ) (m : AList fun _ : α => β) (k : α) (v : β) :
    gather f (m.insert k v) = f v++gather f (m.erase k) := by
  rw [gather, entries_insert, List.flatMap_cons, gather]

theorem gather_of_lookup (h : m.lookup k = some v) :
    (gather f m).Perm (f v++gather f (m.erase k)) := by
  rw [← gather_insert]
  exact (entries_perm h).flatMap_right _

theorem gather_new (f : β → List γ) (h : m.lookup k = none) (v : β) :
    gather f (m.insert k v) = f v++gather f m := by
  rw [gather_insert, erase_of_none h]

theorem gather_replace (h : m.lookup k = some v) (hf : f x = f v) :
    (gather f (m.insert k x)).Perm (gather f m) := by
  rw [gather_insert, hf]
  exact (gather_of_lookup h).symm

theorem mem_gather {x : γ} : x ∈ gather f m ↔ ∃ k v, m.lookup k = some v ∧ x ∈ f v := by
  rw [gather, List.mem_flatMap]
  constructor
  · rintro ⟨e,he,hx⟩
    exact ⟨e.1,e.2,AList.mem_lookup_iff.mpr he,hx⟩
  · rintro ⟨k,v,hl,hx⟩
    exact ⟨⟨k,v⟩,AList.mem_lookup_iff.mp hl,hx⟩

end Gather

end Term.KeyedMap
