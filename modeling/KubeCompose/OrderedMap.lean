/-!
# Maps in insertion order

A map is the list of its entries in the order in which the keys first appeared. `insert` keeps the
place of a key that is already there; `swapRemove` fills the hole with the last entry.
-/

namespace KubeCompose

/-- A map as its entries in order; the operations below keep the keys distinct. -/
abbrev OrderedMap (α β : Type) := List (α × β)

namespace OrderedMap

variable {α β : Type} [BEq α]

/-- The value of a key. -/
def find? (m : OrderedMap α β) (key : α) : Option β :=
  match m with
  | [] => none
  | (k, v) :: r => if key == k then some v else find? r key

/-- Whether a key has a value. -/
def contains (m : OrderedMap α β) (key : α) : Bool := (find? m key).isSome

/-- Gives a key a value: in its place when the key is there, at the end otherwise. -/
def insert (m : OrderedMap α β) (key : α) (value : β) : OrderedMap α β :=
  match m with
  | [] => [(key, value)]
  | (k, v) :: r => if key == k then (k, value) :: r else (k, v) :: insert r key value

/-- Changes the value of a key, when it is there. -/
def modify (m : OrderedMap α β) (key : α) (f : β → β) : OrderedMap α β :=
  match m with
  | [] => []
  | (k, v) :: r => if key == k then (k, f v) :: r else (k, v) :: modify r key f

/-- The entries before those of a key and those after it, when it is there. -/
def splitAt? (m : OrderedMap α β) (key : α) : Option (OrderedMap α β × OrderedMap α β) :=
  match m with
  | [] => none
  | (k, v) :: r =>
    if key == k then some ([], r)
    else (splitAt? r key).map fun (before, after) => ((k, v) :: before, after)

/-- Takes a key out and moves the last entry into its place. -/
def swapRemove (m : OrderedMap α β) (key : α) : OrderedMap α β :=
  match splitAt? m key with
  | none => m
  | some (before, after) =>
    match after.getLast? with
    | none => before
    | some last => before ++ last :: after.dropLast

/-- Takes a key out; the entries behind it move up. -/
def erase (m : OrderedMap α β) (key : α) : OrderedMap α β :=
  match m with
  | [] => []
  | (k, v) :: r => if key == k then erase r key else (k, v) :: erase r key

/-- The map of a list of entries, a later value of a key replacing the earlier one. -/
def ofList (entries : List (α × β)) : OrderedMap α β :=
  entries.foldl (fun m (k, v) => insert m k v) []

/-- The keys in order. -/
def keys (m : OrderedMap α β) : List α := m.map (·.1)

theorem find?_insert [LawfulBEq α] (m : OrderedMap α β) (key other : α) (value : β) :
    find? (insert m key value) other = if other == key then some value else find? m other := by
  induction m with
  | nil => simp [insert, find?]
  | cons e r ih =>
    obtain ⟨k, v⟩ := e
    by_cases h : key == k
    · have := eq_of_beq h
      subst this
      by_cases ho : other == key <;> simp_all [insert, find?]
    · by_cases ho : other == k
      · have := eq_of_beq ho
        subst this
        have hk : (other == key) = false := by
          rw [Bool.eq_false_iff]
          intro hb
          exact h (by rw [eq_of_beq hb]; simp)
        simp [insert, find?, h, hk]
      · simp [insert, find?, h, ho, ih]

theorem find?_erase [LawfulBEq α] (m : OrderedMap α β) (key other : α) :
    find? (erase m key) other = if other == key then none else find? m other := by
  induction m with
  | nil => simp [erase, find?]
  | cons e r ih =>
    obtain ⟨k, v⟩ := e
    by_cases h : key == k
    · have := eq_of_beq h
      subst this
      by_cases ho : other == key <;> simp_all [erase, find?]
    · by_cases ho : other == k
      · have := eq_of_beq ho
        subst this
        have hk : (other == key) = false := by
          rw [Bool.eq_false_iff]
          intro hb
          exact h (by rw [eq_of_beq hb]; simp)
        simp [erase, find?, h, hk]
      · simp [erase, find?, h, ho, ih]

end OrderedMap

end KubeCompose
