import TermMux.Machine

/-!
# Maps whose entries expire

A map as a list of its entries, with the operations of a hash map and a
collection pass that keeps the entries still valid at a given time.
-/

set_option autoImplicit false

namespace Term.ExpiringMap
open Term.Machine

section Collection
variable {K V : Type} {expiry : V → ℕ} {now : ℕ}

def gc (expiry : V → ℕ) (now : ℕ) (m : List (K × V)) : List (K × V) :=
  m.filter fun e => now < expiry e.2

theorem mem_gc {m : List (K × V)} {e : K × V} :
    e ∈ gc expiry now m ↔ e ∈ m ∧ now < expiry e.2 := by
  simp [gc]

theorem length_gc_le (expiry : V → ℕ) (now : ℕ) (m : List (K × V)) :
    (gc expiry now m).length ≤ m.length :=
  List.length_filter_le _ _

theorem tally_gc_le [DecidableEq K] (expiry : V → ℕ) (now : ℕ) (m : List (K × V)) (k : K) :
    tally Prod.fst (gc expiry now m) k ≤ tally Prod.fst m k :=
  (List.filter_sublist.map Prod.fst).count_le k

end Collection

section Entries
variable {K V : Type} [DecidableEq K] {m : List (K × V)} {k : K} {v : V} {e : K × V}

def get (m : List (K × V)) (k : K) : Option V := (m.find? fun e => e.1 = k).map Prod.snd

def remove (m : List (K × V)) (k : K) : List (K × V) := m.filter fun e => e.1 ≠ k

def insert (m : List (K × V)) (k : K) (v : V) : List (K × V) := (k,v)::remove m k

theorem mem_of_get (h : get m k = some v) : (k,v) ∈ m := by
  obtain ⟨⟨k',v'⟩,hfind,rfl⟩ := Option.map_eq_some_iff.mp h
  have hk : k' = k := by simpa using List.find?_some hfind
  exact hk ▸ List.mem_of_find?_eq_some hfind

theorem mem_remove : e ∈ remove m k ↔ e ∈ m ∧ e.1 ≠ k := by simp [remove]

theorem mem_insert : e ∈ insert m k v ↔ e = (k,v) ∨ e ∈ m ∧ e.1 ≠ k := by
  rw [insert, List.mem_cons, mem_remove]

theorem length_insert_le (m : List (K × V)) : (insert m k v).length ≤ m.length+1 :=
  Nat.succ_le_succ (List.length_filter_le _ _)

theorem tally_remove_le (m : List (K × V)) (k n : K) :
    tally Prod.fst (remove m k) n ≤ tally Prod.fst m n :=
  (List.filter_sublist.map Prod.fst).count_le n

theorem tally_remove_of_get (h : get m k = some v) (n : K) :
    tally Prod.fst (remove m k) n+(if k = n then 1 else 0) ≤ tally Prod.fst m n := by
  split_ifs with hn
  · subst hn
    have hgone : k ∉ (remove m k).map Prod.fst := by
      intro hmem
      obtain ⟨e,he,hk⟩ := List.mem_map.mp hmem
      exact (mem_remove.mp he).2 hk
    rw [tally, List.count_eq_zero.mpr hgone]
    exact List.count_pos_iff.mpr (List.mem_map_of_mem (mem_of_get h))
  · exact tally_remove_le m k n

theorem tally_insert_le (m : List (K × V)) (k : K) (v : V) (n : K) :
    tally Prod.fst (insert m k v) n ≤ tally Prod.fst m n+(if k = n then 1 else 0) := by
  rw [insert, tally_cons]
  exact Nat.add_le_add_right (tally_remove_le m k n) _

theorem get_cons_self {e : K × V} (h : e.1 = k) : get (e::m) k = some e.2 := by
  rw [get, List.find?_cons_of_pos (by simpa using h)]
  rfl

theorem get_cons_other {e : K × V} (h : e.1 ≠ k) : get (e::m) k = get m k := by
  rw [get, List.find?_cons_of_neg (by simpa using h), get]

theorem get_insert_self (m : List (K × V)) (k : K) (v : V) : get (insert m k v) k = some v :=
  get_cons_self rfl

theorem get_remove_other {k' : K} (m : List (K × V)) (h : k ≠ k') :
    get (remove m k') k = get m k := by
  induction m with
  | nil => rfl
  | cons e m ih =>
    by_cases hk : e.1 = k
    · have hkept : e.1 ≠ k' := fun hk' => h (hk.symm.trans hk')
      rw [remove, List.filter_cons_of_pos (by simpa using hkept), get_cons_self hk,
        get_cons_self hk]
    · rw [get_cons_other hk, ← ih]
      by_cases hk' : e.1 = k'
      · rw [remove, List.filter_cons_of_neg (by simpa using hk'), remove]
      · rw [remove, List.filter_cons_of_pos (by simpa using hk'), get_cons_other hk, remove]

theorem get_insert_other {k' : K} (m : List (K × V)) (v : V) (h : k ≠ k') :
    get (insert m k' v) k = get m k :=
  (get_cons_other h.symm).trans (get_remove_other m h)

theorem get_gc {expiry : V → ℕ} {now : ℕ} (h : get m k = some v) (hlive : now < expiry v) :
    get (gc expiry now m) k = some v := by
  induction m with
  | nil => cases h
  | cons e m ih =>
    by_cases hk : e.1 = k
    · rw [get_cons_self hk] at h
      cases h
      rw [gc, List.filter_cons_of_pos (by simpa using hlive), get_cons_self hk]
    · rw [get_cons_other hk] at h
      by_cases hkept : now < expiry e.2
      · rw [gc, List.filter_cons_of_pos (by simpa using hkept), get_cons_other hk]
        exact ih h
      · rw [gc, List.filter_cons_of_neg (by simpa using hkept)]
        exact ih h

end Entries

end Term.ExpiringMap
