import KubeCompose.Yaml.Render

/-!
# Documents that can be written

The start of a mapping of one entry is written together with its key, because a tag is written in
the same place. A key that is itself a mapping of one entry, or a tagged value, takes that start for
its own; the mapping around it has none then, and its end closes whatever is open. A tag directly on
a tag has no place at all.

The walk over a document follows what is open at each node and finds the first end without a start.
`walk_eq_ok_iff` says that it finds one exactly when the document holds a mapping without a start or
a tag on a tag.
-/

namespace KubeCompose.Yaml

/-- Why a document has no text. -/
inductive WriteError where
  | nestedTag
  | endInside
  | endOutside
  deriving DecidableEq, Repr

/-- The wording of a cause. -/
def WriteError.message : WriteError → String
  | .nestedTag => "serializing nested enums in YAML is not supported yet"
  | .endInside => "expected SCALAR, SEQUENCE-START, MAPPING-START, or ALIAS"
  | .endOutside => "expected DOCUMENT-START or STREAM-END"

/-! ### What is open around a node -/

/-- What a node can be part of: a sequence, or a mapping as a key or as a value. -/
inductive Slot where
  | item
  | key
  | value
  deriving DecidableEq, Repr

/-- The slots that are open around a node, the innermost first. -/
abbrev Nesting := List Slot

namespace Nesting

/-- What is open behind a node: a value follows a key, and a key follows a value. -/
def filled : Nesting → Nesting
  | .key :: n => .value :: n
  | .value :: n => .key :: n
  | n => n

/-- What is open behind the end of a collection, which is due at `slot` only. -/
def closed (slot : Slot) : Nesting → Except WriteError Nesting
  | [] => .error .endOutside
  | s :: n => if s = slot then .ok (filled n) else .error .endInside

@[simp] theorem length_filled (n : Nesting) : n.filled.length = n.length := by
  unfold filled; split <;> rfl

end Nesting

/-- Whether a key takes the start of a mapping of which it is the only one. -/
def takesStart : Yaml → Bool
  | .tagged .. | .map [_] => true
  | _ => false

/-- Whether a mapping without a tag has no start. -/
def lacksStart : List (Yaml × Yaml) → Bool
  | [(k, _)] => takesStart k
  | _ => false

/-! ### The walk -/

mutual

/-- What is open behind a value that is written where `n` is open; `tagged` says that a tag stands
directly before it. -/
def walk (tagged : Bool) (n : Nesting) : Yaml → Except WriteError Nesting
  | .tagged _ v => if tagged then .error .nestedTag else walk true n v
  | .seq items => do (← walkItems (.item :: n) items).closed .item
  | .map entries => do
    let inside := if !tagged && lacksStart entries then n else .key :: n
    (← walkEntries inside entries).closed .key
  | _ => .ok n.filled

/-- What is open behind the items of a sequence. -/
def walkItems (n : Nesting) : List Yaml → Except WriteError Nesting
  | [] => .ok n
  | v :: r => do walkItems (← walk false n v) r

/-- What is open behind the entries of a mapping. -/
def walkEntries (n : Nesting) : List (Yaml × Yaml) → Except WriteError Nesting
  | [] => .ok n
  | (k, v) :: r => do walkEntries (← walk false (← walk false n k) v) r

end

/-- The text of a document. -/
def write (v : Yaml) : Except WriteError String := (walk false [] v).map fun _ => render v

/-! ### Which documents can be written -/

mutual

/-- Whether a value can be written: it holds no tag on a tag, and no mapping without a start. -/
def isWritable (tagged : Bool) : Yaml → Bool
  | .tagged _ v => !tagged && isWritable true v
  | .seq items => allWritable items
  | .map entries => (tagged || !lacksStart entries) && entriesWritable entries
  | _ => true

/-- Whether all values of a list can be written. -/
def allWritable : List Yaml → Bool
  | [] => true
  | v :: r => isWritable false v && allWritable r

/-- Whether all keys and values of a mapping can be written. -/
def entriesWritable : List (Yaml × Yaml) → Bool
  | [] => true
  | (k, v) :: r => isWritable false k && isWritable false v && entriesWritable r

end

mutual

theorem walk_of_isWritable {tagged : Bool} (n : Nesting) :
    (v : Yaml) → isWritable tagged v = true → walk tagged n v = .ok n.filled
  | .tagged _ v, h => by
    simp only [isWritable, Bool.and_eq_true, Bool.not_eq_true'] at h
    simp [walk, h.1, walk_of_isWritable n v h.2]
  | .seq items, h => by
    simp only [isWritable] at h
    rw [walk, walkItems_of_allWritable n items h]
    rfl
  | .map entries, h => by
    simp only [isWritable, Bool.and_eq_true, Bool.or_eq_true, Bool.not_eq_true'] at h
    have inside : (!tagged && lacksStart entries) = false := by
      rcases h.1 with h | h <;> simp [h]
    rw [walk, inside]
    simp only [Bool.false_eq_true, if_false]
    rw [walkEntries_of_entriesWritable n entries h.2]
    rfl
  | .null, _ | .bool _, _ | .int _, _ | .float _, _ | .str _, _ => by simp [walk]

theorem walkItems_of_allWritable (n : Nesting) :
    (vs : List Yaml) → allWritable vs = true → walkItems (.item :: n) vs = .ok (.item :: n)
  | [], _ => by simp [walkItems]
  | v :: r, h => by
    simp only [allWritable, Bool.and_eq_true] at h
    rw [walkItems, walk_of_isWritable _ v h.1]
    exact walkItems_of_allWritable n r h.2

theorem walkEntries_of_entriesWritable (n : Nesting) :
    (es : List (Yaml × Yaml)) → entriesWritable es = true →
      walkEntries (.key :: n) es = .ok (.key :: n)
  | [], _ => by simp [walkEntries]
  | (k, v) :: r, h => by
    simp only [entriesWritable, Bool.and_eq_true] at h
    rw [walkEntries, walk_of_isWritable _ k h.1.1]
    change (walk false (.value :: n) v >>= fun n => walkEntries n r) = _
    rw [walk_of_isWritable _ v h.1.2]
    exact walkEntries_of_entriesWritable n r h.2

end

theorem exists_of_bind_eq_ok {ε α β : Type} {x : Except ε α} {f : α → Except ε β} {b : β}
    (h : x >>= f = .ok b) : ∃ a, x = .ok a ∧ f a = .ok b := by
  cases x with
  | error e => cases h
  | ok a => exact ⟨a, rfl, h⟩

theorem exists_of_map_eq_ok {ε α β : Type} {x : Except ε α} {f : α → β} {b : β}
    (h : x.map f = .ok b) : ∃ a, x = .ok a ∧ f a = b := by
  cases x with
  | error e => cases h
  | ok a => exact ⟨a, rfl, Except.ok.inj h⟩

theorem Nesting.length_of_closed {slot : Slot} {n m : Nesting} (h : n.closed slot = .ok m) :
    m.length + 1 = n.length := by
  unfold closed at h
  split at h
  · simp at h
  · split at h
    · simp only [Except.ok.injEq] at h
      simp [← h]
    · simp at h

mutual

theorem length_walk_le {tagged : Bool} {n m : Nesting} :
    (v : Yaml) → walk tagged n v = .ok m →
      m.length + (!isWritable tagged v).toNat ≤ n.length
  | .tagged _ v, h => by
    unfold walk at h
    split at h
    · simp at h
    · next hTag => simpa [isWritable, hTag] using length_walk_le v h
  | .seq items, h => by
    unfold walk at h
    obtain ⟨inside, hItems, hEnd⟩ := exists_of_bind_eq_ok h
    have := length_walkItems_le items hItems
    have := Nesting.length_of_closed hEnd
    simp only [isWritable, List.length_cons] at *
    omega
  | .map entries, h => by
    unfold walk at h
    obtain ⟨inside, hEntries, hEnd⟩ := exists_of_bind_eq_ok h
    have := length_walkEntries_le entries hEntries
    have := Nesting.length_of_closed hEnd
    have hMap : isWritable tagged (.map entries) =
        (!(!tagged && lacksStart entries) && entriesWritable entries) := by simp [isWritable]
    cases hStart : !tagged && lacksStart entries <;> cases hEntries : entriesWritable entries <;>
      simp_all <;> omega
  | .null, h | .bool _, h | .int _, h | .float _, h | .str _, h => by
    simp only [walk, Except.ok.injEq] at h
    simp [isWritable, ← h]

theorem length_walkItems_le {n m : Nesting} :
    (vs : List Yaml) → walkItems n vs = .ok m → m.length + (!allWritable vs).toNat ≤ n.length
  | [], h => by
    simp only [walkItems, Except.ok.injEq] at h
    simp [allWritable, h]
  | v :: r, h => by
    obtain ⟨inside, hHead, hRest⟩ := exists_of_bind_eq_ok h
    have := length_walk_le v hHead
    have := length_walkItems_le r hRest
    cases hv : isWritable false v <;> cases hr : allWritable r <;>
      simp_all [allWritable] <;> omega

theorem length_walkEntries_le {n m : Nesting} :
    (es : List (Yaml × Yaml)) → walkEntries n es = .ok m →
      m.length + (!entriesWritable es).toNat ≤ n.length
  | [], h => by
    simp only [walkEntries, Except.ok.injEq] at h
    simp [entriesWritable, h]
  | (k, v) :: r, h => by
    obtain ⟨afterKey, hKey, h⟩ := exists_of_bind_eq_ok h
    obtain ⟨afterValue, hValue, hRest⟩ := exists_of_bind_eq_ok h
    have := length_walk_le k hKey
    have := length_walk_le v hValue
    have := length_walkEntries_le r hRest
    cases hk : isWritable false k <;> cases hv : isWritable false v <;>
      cases hr : entriesWritable r <;> simp_all [entriesWritable] <;> omega

end

/-- A document has a text exactly when it can be written. -/
theorem write_eq_ok_iff {v : Yaml} {text : String} :
    write v = .ok text ↔ isWritable false v = true ∧ text = render v := by
  unfold write
  constructor
  · intro h
    cases hWalk : walk false [] v with
    | error e => simp [hWalk, Except.map] at h
    | ok n =>
      have := length_walk_le v hWalk
      simp only [hWalk, Except.map, Except.ok.injEq] at h
      cases hv : isWritable false v <;> simp_all
  · rintro ⟨h, rfl⟩
    rw [walk_of_isWritable [] v h]
    rfl

end KubeCompose.Yaml
