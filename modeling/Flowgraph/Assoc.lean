/-!
# Association lists

Keyed data in two orders. `insert` keeps the keys ascending (by code point, which is also
the byte order of their UTF-8 form) and is used for the state of a run and the objects
inside values; `set` leaves a key at its first position and is used where the order of
authoring counts. In both, a later value for a key replaces the earlier one.
-/

set_option autoImplicit false

namespace Flowgraph.Assoc

variable {α : Type}

/-- The value of a key. -/
def get? (key : String) : List (String × α) → Option α
  | [] => none
  | (k, v) :: rest => if k = key then some v else get? key rest

/-- Whether a key has a value. -/
def contains (key : String) (entries : List (String × α)) : Bool :=
  (get? key entries).isSome

/-- Sets the value of a key in a list with ascending keys. -/
def insert (key : String) (value : α) : List (String × α) → List (String × α)
  | [] => [(key, value)]
  | (k, v) :: rest =>
    if k = key then (key, value) :: rest
    else if key < k then (key, value) :: (k, v) :: rest
    else (k, v) :: insert key value rest

/-- Sets the value of a key, in its place if it has one and at the end otherwise. -/
def set (key : String) (value : α) : List (String × α) → List (String × α)
  | [] => [(key, value)]
  | (k, v) :: rest => if k = key then (key, value) :: rest else (k, v) :: set key value rest

/-- Removes a key. -/
def erase (key : String) (entries : List (String × α)) : List (String × α) :=
  entries.filter (·.1 ≠ key)

/-- The entries in the order of their first occurrence, each with its last value. -/
def authored (entries : List (String × α)) : List (String × α) :=
  entries.foldl (fun acc e => set e.1 e.2 acc) []

/-- The entries in ascending order of keys, each with its last value. -/
def ascending (entries : List (String × α)) : List (String × α) :=
  entries.foldl (fun acc e => insert e.1 e.2 acc) []

@[simp] theorem get?_nil (key : String) : get? key ([] : List (String × α)) = none := rfl

theorem get?_eq_none {key : String} {entries : List (String × α)}
    (h : key ∉ entries.map (·.1)) : get? key entries = none := by
  induction entries with
  | nil => rfl
  | cons e rest ih =>
    obtain ⟨k, v⟩ := e
    simp only [List.map_cons, List.mem_cons, not_or] at h
    simp [get?, Ne.symm h.1, ih h.2]

theorem get?_set (key other : String) (value : α) (entries : List (String × α)) :
    get? other (set key value entries) =
      if key = other then some value else get? other entries := by
  induction entries with
  | nil => simp [set, get?]
  | cons e rest ih =>
    obtain ⟨k, v⟩ := e
    by_cases h : k = key
    · subst h; simp only [set, if_true, get?]; split <;> rfl
    · by_cases h' : k = other
      · subst h'; simp [set, get?, h, Ne.symm h]
      · simp [set, get?, h, h', ih]

theorem get?_insert (key other : String) (value : α) (entries : List (String × α)) :
    get? other (insert key value entries) =
      if key = other then some value else get? other entries := by
  induction entries with
  | nil => simp [insert, get?]
  | cons e rest ih =>
    obtain ⟨k, v⟩ := e
    by_cases h : k = key
    · subst h; simp only [insert, if_true, get?]; split <;> rfl
    · by_cases hlt : key < k
      · simp only [insert, h, hlt, if_false, if_true, get?]
      · by_cases h' : k = other
        · subst h'; simp [insert, get?, h, hlt, Ne.symm h]
        · simp [insert, get?, h, hlt, h', ih]

theorem get?_erase (key other : String) (entries : List (String × α)) :
    get? other (erase key entries) = if key = other then none else get? other entries := by
  induction entries with
  | nil => simp [erase]
  | cons e rest ih =>
    obtain ⟨k, v⟩ := e
    by_cases h : k = key
    · subst h
      simp only [erase, ne_eq, not_true_eq_false, decide_false, Bool.false_eq_true,
        not_false_eq_true, List.filter_cons_of_neg] at ih ⊢
      rw [ih]; simp only [get?]; split <;> rfl
    · have hf : erase key ((k, v) :: rest) = (k, v) :: erase key rest := by
        simp [erase, h]
      rw [hf]
      by_cases h' : k = other
      · subst h'; simp [get?, Ne.symm h]
      · simp [get?, h', ih]

end Flowgraph.Assoc
