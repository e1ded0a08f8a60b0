/-!
# Values by key

A list of keys with their values in the order in which the keys came in. A new value for a key
takes the place of the old one.
-/

namespace LineWatch

abbrev Keyed (α : Type) := List (String × α)

theorem lookup_map_snd {κ α β : Type} [BEq κ] (f : α → β) (key : κ) (kvs : List (κ × α)) :
    (kvs.map fun kv => (kv.1, f kv.2)).lookup key = (kvs.lookup key).map f := by
  induction kvs with
  | nil => rfl
  | cons kv rest ih =>
    rw [List.map_cons, List.lookup_cons, List.lookup_cons, ih]
    cases key == kv.1 <;> rfl

namespace Keyed

variable {α : Type}

def get? (m : Keyed α) (key : String) : Option α := m.lookup key

def set (m : Keyed α) (key : String) (value : α) : Keyed α :=
  match m with
  | [] => [(key, value)]
  | (k, v) :: rest => if k = key then (key, value) :: rest else (k, v) :: set rest key value

def erase (m : Keyed α) (key : String) : Keyed α := m.filter (·.1 != key)

def keys (m : Keyed α) : List String := m.map (·.1)

@[simp] theorem get?_nil (key : String) : get? ([] : Keyed α) key = none := rfl

theorem get?_cons (k : String) (v : α) (m : Keyed α) (key : String) :
    get? ((k, v) :: m) key = if key = k then some v else get? m key := by
  simp only [get?, List.lookup_cons]
  split <;> simp_all

theorem get?_set (m : Keyed α) (key key' : String) (value : α) :
    get? (set m key value) key' = if key' = key then some value else get? m key' := by
  induction m with
  | nil => simp [set, get?_cons]
  | cons kv rest ih =>
    obtain ⟨k, v⟩ := kv
    simp only [set]
    split
    · next h =>
      subst h
      simp only [get?_cons]
      split <;> rfl
    · next h =>
      simp only [get?_cons, ih]
      split
      · next h' => simp [h', h]
      · rfl

theorem get?_erase (m : Keyed α) (key key' : String) :
    get? (erase m key) key' = if key' = key then none else get? m key' := by
  induction m with
  | nil => simp [erase]
  | cons kv rest ih =>
    obtain ⟨k, v⟩ := kv
    simp only [erase, List.filter_cons] at ih ⊢
    by_cases hk : k = key
    · subst hk
      simp only [bne_self_eq_false, Bool.false_eq_true, if_false, ih, get?_cons]
      split <;> rfl
    · simp only [bne_iff_ne, ne_eq, hk, not_false_eq_true, if_true, get?_cons, ih]
      by_cases h' : key' = k
      · simp [h', hk]
      · simp [h']

theorem mem_keys_iff (m : Keyed α) (key : String) : key ∈ keys m ↔ (get? m key).isSome := by
  induction m with
  | nil => simp [keys]
  | cons kv rest ih =>
    obtain ⟨k, v⟩ := kv
    change key ∈ k :: keys rest ↔ _
    rw [get?_cons, List.mem_cons, ih]
    split
    · next h => simp [h]
    · next h => simp [h]

/-- A key that is there keeps its place, and a new one comes last. -/
theorem keys_set (m : Keyed α) (key : String) (value : α) :
    keys (set m key value) = if key ∈ keys m then keys m else keys m ++ [key] := by
  induction m with
  | nil => rfl
  | cons kv rest ih =>
    obtain ⟨k, v⟩ := kv
    by_cases h : k = key
    · simp [set, keys, h]
    · have hset : keys (set ((k, v) :: rest) key value) = k :: keys (set rest key value) := by
        simp [set, keys, h]
      have hmem : key ∈ keys ((k, v) :: rest) ↔ key ∈ keys rest := by
        simp [keys, Ne.symm h]
      rw [hset, ih]
      simp only [hmem]
      split <;> rfl

theorem keys_erase (m : Keyed α) (key : String) :
    keys (erase m key) = (keys m).filter (· != key) := by
  simp only [keys, erase, List.filter_map]
  rfl

theorem mem_of_get? {m : Keyed α} {key : String} {value : α} (h : get? m key = some value) :
    (key, value) ∈ m := by
  obtain ⟨before, after, rfl, -⟩ := List.lookup_eq_some_iff.mp h
  exact List.mem_append_right before List.mem_cons_self

theorem mem_set {m : Keyed α} {key : String} {value : α} {kv : String × α}
    (h : kv ∈ set m key value) : kv = (key, value) ∨ kv ∈ m := by
  induction m with
  | nil => exact .inl (List.mem_singleton.mp h)
  | cons first rest ih =>
    simp only [set] at h
    split at h
    · exact (List.mem_cons.mp h).imp_right (List.mem_cons_of_mem first)
    · rcases List.mem_cons.mp h with rfl | h
      · exact .inr List.mem_cons_self
      · exact (ih h).imp_right (List.mem_cons_of_mem first)

/-- To set what is there already changes nothing. -/
theorem set_of_get? {m : Keyed α} {key : String} {value : α} (h : get? m key = some value) :
    set m key value = m := by
  induction m with
  | nil => cases h
  | cons kv rest ih =>
    obtain ⟨k, v⟩ := kv
    rw [get?_cons] at h
    by_cases hk : k = key
    · rw [if_pos hk.symm] at h
      rw [set, if_pos hk, Option.some.inj h, hk]
    · rw [if_neg (Ne.symm hk)] at h
      rw [set, if_neg hk, ih h]

theorem get?_map_snd {β : Type} (f : α → β) (m : Keyed α) (key : String) :
    get? (m.map fun kv => (kv.1, f kv.2)) key = (get? m key).map f := lookup_map_snd f key m

theorem set_map_snd {β : Type} (f : α → β) (m : Keyed α) (key : String) (value : α) :
    set (m.map fun kv => (kv.1, f kv.2)) key (f value) =
      (set m key value).map fun kv => (kv.1, f kv.2) := by
  induction m with
  | nil => rfl
  | cons kv rest ih =>
    obtain ⟨k, v⟩ := kv
    simp only [List.map_cons, set, ih]
    split <;> rfl

end Keyed

end LineWatch
