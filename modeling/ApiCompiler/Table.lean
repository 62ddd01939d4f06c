/-!
# Insertion-ordered tables

A table maps texts to values and keeps its keys in order of first insertion: writing to a key that
is present replaces its value in place, writing to a new key appends. `Table.Distinct` says that no
key occurs twice; every table built by `insert` from the empty one has it.
-/

set_option autoImplicit false

namespace ApiCompiler

/-- Keys with values, in order of first insertion. -/
abbrev Table (α : Type) := List (String × α)

namespace Table

variable {α β : Type}

def keys (t : Table α) : List String := t.map Prod.fst

/-- The values, in the order of their keys. -/
def values (t : Table α) : List α := t.map Prod.snd

/-- No key occurs twice. -/
def Distinct (t : Table α) : Prop := t.keys.Nodup

/-- The value at a key. -/
def get? : Table α → String → Option α
  | [], _ => none
  | (k, v) :: t, key => if k = key then some v else get? t key

def has (t : Table α) (key : String) : Bool := (t.get? key).isSome

/-- Writes a value at a key: in place when the key is present, at the end otherwise. -/
def insert : Table α → String → α → Table α
  | [], key, v => [(key, v)]
  | (k, w) :: t, key, v => if k = key then (k, v) :: t else (k, w) :: insert t key v

/-- Writes all entries of the second table into the first, in order. -/
def merge (t u : Table α) : Table α :=
  u.foldl (fun acc (k, v) => acc.insert k v) t

def ofList (entries : List (String × α)) : Table α := merge [] entries

/-- The entries sorted by key, in the order of code points. -/
def sorted (t : Table α) : Table α :=
  t.mergeSort fun a b => decide (a.1 ≤ b.1)

/-- Applies a function to every value. -/
def mapValues (f : α → β) (t : Table α) : Table β :=
  t.map fun (k, v) => (k, f v)

@[simp] theorem keys_nil : keys ([] : Table α) = [] := rfl

@[simp] theorem keys_cons (k : String) (v : α) (t : Table α) :
    keys ((k, v) :: t) = k :: keys t := rfl

@[simp] theorem get?_nil (key : String) : get? ([] : Table α) key = none := rfl

theorem get?_cons (k : String) (v : α) (t : Table α) (key : String) :
    get? ((k, v) :: t) key = if k = key then some v else get? t key := rfl

/-- Reading after a write. -/
theorem get?_insert (t : Table α) (key key' : String) (v : α) :
    (t.insert key v).get? key' = if key = key' then some v else t.get? key' := by
  induction t with
  | nil => rfl
  | cons e t ih =>
    obtain ⟨k, w⟩ := e
    by_cases hk : k = key
    · subst hk
      by_cases h : k = key' <;> simp [insert, get?_cons, h]
    · by_cases h : k = key'
      · subst h
        simp [insert, get?_cons, hk, Ne.symm hk]
      · simp [insert, get?_cons, hk, h, ih]

/-- A write leaves the keys as they are, or appends the key when it is new. -/
theorem keys_insert (t : Table α) (key : String) (v : α) :
    (t.insert key v).keys = if key ∈ t.keys then t.keys else t.keys ++ [key] := by
  induction t with
  | nil => simp [insert, keys]
  | cons e t ih =>
    obtain ⟨k, w⟩ := e
    by_cases hk : k = key
    · simp [insert, hk]
    · simp only [insert, if_neg hk, keys_cons, ih, List.mem_cons, Ne.symm hk, false_or]
      split <;> simp

theorem distinct_nil : Distinct ([] : Table α) := List.nodup_nil

theorem Distinct.insert {t : Table α} (h : t.Distinct) (key : String) (v : α) :
    (t.insert key v).Distinct := by
  unfold Distinct at *
  rw [keys_insert]
  split
  · exact h
  · rename_i hk
    rw [List.nodup_append]
    exact ⟨h, by simp, by simp; exact fun a ha hak => hk (hak ▸ ha)⟩

end Table

end ApiCompiler
