/-!
# Dictionaries

A dictionary gives values to keys.  Its entries stand in the order of their
keys, which is the order of code points.

Main results:

- Theorem `Dictionary.get?_insert`: an insertion is found under its key and
  changes nothing else.
- Theorem `Dictionary.get?_erase`: an erased key is gone and nothing else.
-/

namespace Mustache

/-- The entries of a dictionary. -/
abbrev Dictionary (α : Type) := List (String × α)

namespace Dictionary

variable {α : Type}

/-- The value of a key. -/
def get? (d : Dictionary α) (key : String) : Option α :=
  List.lookup key d

/-- Gives a value to a key, in place of an earlier one. -/
def insert (key : String) (value : α) : Dictionary α → Dictionary α
  | [] => [(key, value)]
  | entry :: rest =>
    if key = entry.1 then
      (key, value) :: rest
    else if key < entry.1 then
      (key, value) :: entry :: rest
    else
      entry :: insert key value rest

/-- Takes a key away. -/
def erase (key : String) (d : Dictionary α) : Dictionary α :=
  List.filter (fun entry => entry.1 ≠ key) d

/-- The dictionary of some entries, of which a later one replaces an earlier one. -/
def ofList (entries : List (String × α)) : Dictionary α :=
  entries.foldl (fun d entry => insert entry.1 entry.2 d) []

/-- The keys in order. -/
def keys (d : Dictionary α) : List String :=
  List.map Prod.fst d

@[simp]
theorem get?_nil (key : String) : get? ([] : Dictionary α) key = none :=
  rfl

/-- An entry in front answers for its own key. -/
theorem get?_cons (entry : String × α) (d : Dictionary α) (key : String) :
    get? (entry :: d) key = if key = entry.1 then some entry.2 else get? d key := by
  obtain ⟨k, v⟩ := entry
  by_cases h : key = k
  · simp [get?, h]
  · have : (key == k) = false := by simpa using h
    simp [get?, List.lookup_cons, h, this]

/-- An insertion is found under its key and changes nothing else. -/
theorem get?_insert (d : Dictionary α) (key other : String) (value : α) :
    get? (insert key value d) other = if other = key then some value else get? d other := by
  induction d with
  | nil => simp [insert, get?_cons]
  | cons entry rest ih =>
    rw [insert]
    split
    · rename_i h
      subst h
      by_cases h : other = entry.1 <;> simp [get?_cons, h]
    · split
      · simp [get?_cons]
      · rename_i hne _
        rw [get?_cons, get?_cons, ih]
        by_cases h : other = key
        · subst h
          simp [hne]
        · simp [h]

/-- An erased key is gone, and nothing else. -/
theorem get?_erase (d : Dictionary α) (key other : String) :
    get? (erase key d) other = if other = key then none else get? d other := by
  induction d with
  | nil => simp [erase]
  | cons entry rest ih =>
    rw [erase] at ih ⊢
    by_cases h : entry.1 = key
    · rw [List.filter_cons_of_neg (by simpa using h), ih, get?_cons]
      by_cases ho : other = key <;> simp [ho, h]
    · rw [List.filter_cons_of_pos (by simpa using h), get?_cons, get?_cons, ih]
      by_cases ho : other = key
      · subst ho
        simp [Ne.symm h]
      · simp [ho]

end Dictionary

end Mustache
