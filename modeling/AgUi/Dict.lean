import Mathlib.Data.List.Nodup

/-!
# Insertion-ordered dictionaries

Both sides of the protocol keep keyed data in insertion order: a JavaScript object's own properties
and a Ruby `Hash`.  `Dict.set` is assignment (`o[k] = v` in both languages, `acc[k] = v` in
`each_with_object`): it replaces the value of a key already present, in place, and appends a new key
at the end.  `Dict.erase` drops a key, as the rest pattern `const { k, ...rest } = o` does.

The lemmas are the read-after-write laws (`get_set`, `get_erase_ne`), the fact that assignment
never repeats a key (`nodup_keys_set`), and that `Hash#merge` of fresh keys appends them
(`merge_of_nodup`).
-/

namespace AgUi

/-- Keyed data in insertion order. -/
abbrev Dict (κ α : Type) := List (κ × α)

namespace Dict

variable {κ α : Type}

/-- The keys, in order. -/
def keys (d : Dict κ α) : List κ := d.map Prod.fst

@[simp] theorem keys_nil : keys ([] : Dict κ α) = [] := rfl

@[simp] theorem keys_cons (k : κ) (v : α) (d : Dict κ α) : keys ((k, v) :: d) = k :: keys d := rfl

variable [DecidableEq κ]

/-- The value stored under a key, if any. -/
def get : Dict κ α → κ → Option α
  | [], _ => none
  | (k', v) :: d, k => if k' = k then some v else get d k

/-- Assignment: overwrite in place, or append. -/
def set : Dict κ α → κ → α → Dict κ α
  | [], k, v => [(k, v)]
  | (k', v') :: d, k, v => if k' = k then (k', v) :: d else (k', v') :: set d k v

/-- `Hash#merge`: the entries of `other` assigned in order. -/
def merge (d other : Dict κ α) : Dict κ α := other.foldl (fun acc p => acc.set p.1 p.2) d

/-- The dictionary without a key. -/
def erase (d : Dict κ α) (k : κ) : Dict κ α := d.filter (·.1 ≠ k)

@[simp] theorem get_nil (k : κ) : get ([] : Dict κ α) k = none := rfl

theorem get_cons (k k' : κ) (v : α) (d : Dict κ α) :
    get ((k', v) :: d) k = if k' = k then some v else get d k := rfl

@[simp] theorem get_set_self (d : Dict κ α) (k : κ) (v : α) : (d.set k v).get k = some v := by
  induction d with
  | nil => simp [set, get]
  | cons p d ih =>
    by_cases h : p.1 = k
    · simp [set, get, h]
    · simp [set, get, h, ih]

@[simp] theorem get_set_ne (d : Dict κ α) {k k' : κ} (v : α) (h : k ≠ k') :
    (d.set k v).get k' = d.get k' := by
  induction d with
  | nil => simp [set, get, h]
  | cons p d ih =>
    by_cases hp : p.1 = k
    · subst hp; simp [set, get, h]
    · simp [set, get, hp, ih]

theorem get_set (d : Dict κ α) (k k' : κ) (v : α) :
    (d.set k v).get k' = if k = k' then some v else d.get k' := by
  by_cases h : k = k'
  · subst h; simp
  · simp [h]

@[simp] theorem get_erase_self (d : Dict κ α) (k : κ) : (d.erase k).get k = none := by
  induction d with
  | nil => rfl
  | cons p d ih => by_cases h : p.1 = k <;> simp_all [erase, List.filter_cons, get]

@[simp] theorem get_erase_ne (d : Dict κ α) {k k' : κ} (h : k ≠ k') :
    (d.erase k).get k' = d.get k' := by
  induction d with
  | nil => rfl
  | cons p d ih =>
    by_cases hp : p.1 = k
    · subst hp; simp_all [erase, List.filter_cons, get]
    · simp_all [erase, List.filter_cons, get]

/-- A lookup is the value of the first entry under the key. -/
theorem get_eq_find? (d : Dict κ α) (k : κ) : d.get k = (d.find? fun p => p.1 = k).map Prod.snd := by
  induction d with
  | nil => rfl
  | cons p d ih =>
    obtain ⟨k', v⟩ := p
    by_cases h : k' = k <;> simp [get_cons, h, ih]

theorem mem_of_get_eq_some {d : Dict κ α} {k : κ} {v : α} (h : d.get k = some v) : (k, v) ∈ d := by
  induction d with
  | nil => cases h
  | cons p d ih =>
    obtain ⟨k', v'⟩ := p
    by_cases hk : k' = k
    · rw [get_cons, if_pos hk, Option.some.injEq] at h
      subst hk h
      exact List.mem_cons_self _ _
    · rw [get_cons, if_neg hk] at h
      exact List.mem_cons_of_mem _ (ih h)

/-- With distinct keys, an entry is what a lookup of its key finds. -/
theorem get_of_mem {d : Dict κ α} (h : d.keys.Nodup) {k : κ} {v : α} (hm : (k, v) ∈ d) : d.get k = some v := by
  induction d with
  | nil => cases hm
  | cons p d ih =>
    obtain ⟨k', v'⟩ := p
    rw [keys_cons, List.nodup_cons] at h
    rcases List.mem_cons.1 hm with he | hm
    · cases he
      exact if_pos rfl
    · have hk : k' ≠ k := fun he => h.1 (he ▸ List.mem_map_of_mem Prod.fst hm)
      rw [get_cons, if_neg hk]
      exact ih h.2 hm

theorem mem_keys_set {d : Dict κ α} {k k' : κ} {v : α} : k' ∈ (d.set k v).keys ↔ k' = k ∨ k' ∈ d.keys := by
  induction d with
  | nil => simp [set, keys]
  | cons p d ih =>
    by_cases h : p.1 = k
    · subst h; simp [set, keys]
    · obtain ⟨k'', v''⟩ := p
      simp only [set, h, if_false, keys_cons, List.mem_cons, ih]
      tauto

theorem nodup_keys_set {d : Dict κ α} (h : d.keys.Nodup) (k : κ) (v : α) : (d.set k v).keys.Nodup := by
  induction d with
  | nil => simp [set, keys]
  | cons p d ih =>
    obtain ⟨k', v'⟩ := p
    simp only [keys_cons, List.nodup_cons] at h
    by_cases hk : k' = k
    · simpa [set, hk, keys] using h
    · rw [show set ((k', v') :: d) k v = (k', v') :: set d k v by simp [set, hk], keys_cons,
        List.nodup_cons, mem_keys_set]
      exact ⟨fun h' => h'.elim hk h.1, ih h.2⟩

theorem mem_set {d : Dict κ α} {k : κ} {v : α} {p : κ × α} (h : p ∈ d.set k v) : p ∈ d ∨ p = (k, v) := by
  induction d with
  | nil => exact .inr (List.mem_singleton.1 h)
  | cons q d ih =>
    unfold set at h
    split at h
    · rcases List.mem_cons.1 h with rfl | h
      · exact .inr (by rename_i hq; rw [hq])
      · exact .inl (List.mem_cons_of_mem _ h)
    · rcases List.mem_cons.1 h with rfl | h
      · exact .inl (List.mem_cons_self _ _)
      · exact (ih h).imp_left (List.mem_cons_of_mem _)

/-- Assigning a key that is not yet present appends it. -/
theorem set_of_not_mem {d : Dict κ α} {k : κ} (h : k ∉ d.keys) (v : α) : d.set k v = d ++ [(k, v)] := by
  induction d with
  | nil => rfl
  | cons p d ih =>
    simp only [keys, List.map_cons, List.mem_cons, not_or] at h
    simp [set, Ne.symm h.1, ih h.2]

/-- Merging fresh keys appends them. -/
theorem merge_of_nodup {d other : Dict κ α} (h : (d.keys ++ other.keys).Nodup) : d.merge other = d ++ other := by
  induction other generalizing d with
  | nil => exact (List.append_nil d).symm
  | cons p other ih =>
    have hp : p.1 ∉ keys d := fun hm => (List.nodup_append.1 h).2.2 hm (List.mem_cons_self _ _)
    have h' : (keys (d ++ [p]) ++ keys other).Nodup := by simpa [keys] using h
    rw [merge, List.foldl_cons, set_of_not_mem hp, ← merge, ih h', List.append_assoc, List.singleton_append]

end Dict

end AgUi
