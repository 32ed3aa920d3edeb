/-!
# Maps from names

A finite map from names to values, listed in strictly increasing code-point order of the names, so
that equal maps are equal lists.
-/

namespace Bytecode

structure NameMap (α : Type) where
  entries : List (String × α)
  sorted : entries.Pairwise fun a b => a.1 < b.1 := by exact List.Pairwise.nil
  deriving DecidableEq, Repr

namespace NameMap

variable {α β : Type}

def empty : NameMap α := { entries := [] }

instance : Inhabited (NameMap α) := ⟨empty⟩

/-- An entry put into a sorted list; the value of an equal name is replaced. -/
def insertEntry (name : String) (value : α) : List (String × α) → List (String × α)
  | [] => [(name, value)]
  | entry :: rest =>
      if name < entry.1 then (name, value) :: entry :: rest
      else if name = entry.1 then (name, value) :: rest
      else entry :: insertEntry name value rest

theorem mem_insertEntry {name : String} {value : α} {entries : List (String × α)}
    {entry : String × α} (h : entry ∈ insertEntry name value entries) :
    entry = (name, value) ∨ entry ∈ entries := by
  induction entries with
  | nil => simpa [insertEntry] using h
  | cons head rest ih =>
      unfold insertEntry at h
      split at h
      · simpa using h
      · split at h
        · rcases List.mem_cons.1 h with rfl | h
          · exact .inl rfl
          · exact .inr (List.mem_cons_of_mem _ h)
        · rcases List.mem_cons.1 h with rfl | h
          · exact .inr List.mem_cons_self
          · exact (ih h).imp id (List.mem_cons_of_mem _)

theorem pairwise_insertEntry {name : String} {value : α} {entries : List (String × α)}
    (h : entries.Pairwise fun a b => a.1 < b.1) :
    (insertEntry name value entries).Pairwise fun a b => a.1 < b.1 := by
  induction entries with
  | nil => simp [insertEntry]
  | cons head rest ih =>
      obtain ⟨hhead, hrest⟩ := List.pairwise_cons.1 h
      unfold insertEntry
      split
      · next hlt =>
          refine List.pairwise_cons.2 ⟨fun entry he => ?_, h⟩
          rcases List.mem_cons.1 he with rfl | he
          · exact hlt
          · exact String.lt_trans hlt (hhead entry he)
      · next hlt =>
          split
          · next heq =>
              refine List.pairwise_cons.2 ⟨fun entry he => ?_, hrest⟩
              simpa [heq] using hhead entry he
          · next hne =>
              refine List.pairwise_cons.2 ⟨fun entry he => ?_, ih hrest⟩
              rcases mem_insertEntry he with rfl | he
              · exact Std.lt_of_le_of_ne (String.not_lt.1 hlt) (Ne.symm hne)
              · exact hhead entry he

def insert (map : NameMap α) (name : String) (value : α) : NameMap α :=
  { entries := insertEntry name value map.entries, sorted := pairwise_insertEntry map.sorted }

/-- The map of a list of entries; of two with one name the later counts. -/
def ofList (entries : List (String × α)) : NameMap α :=
  entries.foldl (fun map entry => map.insert entry.1 entry.2) empty

def find? (name : String) : List (String × α) → Option α
  | [] => none
  | entry :: rest => if entry.1 = name then some entry.2 else find? name rest

def get? (map : NameMap α) (name : String) : Option α := find? name map.entries

def contains (map : NameMap α) (name : String) : Bool := (map.get? name).isSome

def names (map : NameMap α) : List String := map.entries.map Prod.fst

def size (map : NameMap α) : Nat := map.entries.length

def isEmpty (map : NameMap α) : Bool := map.entries.isEmpty

theorem find?_insertEntry (name other : String) (value : α) (entries : List (String × α)) :
    find? other (insertEntry name value entries) =
      if name = other then some value else find? other entries := by
  induction entries with
  | nil => simp [insertEntry, find?]
  | cons head rest ih =>
      unfold insertEntry
      split
      · simp [find?]
      · split
        · next heq => by_cases h : name = other <;> simp [find?, h, ← heq]
        · next hne =>
            by_cases hhead : head.1 = other
            · have h : ¬ name = other := fun e => hne (e.trans hhead.symm)
              simp [find?, hhead, h]
            · simp [find?, hhead, ih]

theorem get?_insert (map : NameMap α) (name other : String) (value : α) :
    (map.insert name value).get? other = if name = other then some value else map.get? other :=
  find?_insertEntry name other value map.entries

theorem find?_eq_some_iff {entries : List (String × α)} {name : String} {value : α}
    (h : entries.Pairwise fun a b => a.1 < b.1) :
    find? name entries = some value ↔ (name, value) ∈ entries := by
  induction entries with
  | nil => simp [find?]
  | cons head rest ih =>
      obtain ⟨hhead, hrest⟩ := List.pairwise_cons.1 h
      rw [find?, List.mem_cons]
      split
      · next heq =>
          have hnot : (name, value) ∉ rest := fun hmem =>
            String.lt_irrefl name (by simpa [heq] using hhead _ hmem)
          constructor
          · intro h
            exact .inl (Prod.ext heq.symm (Option.some.inj h).symm)
          · rintro (h | h)
            · rw [← h]
            · exact absurd h hnot
      · next hne =>
          have hnot : (name, value) ≠ head := fun heq => hne (by rw [← heq])
          simp [hnot, ih hrest]

theorem get?_eq_some_iff {map : NameMap α} {name : String} {value : α} :
    map.get? name = some value ↔ (name, value) ∈ map.entries :=
  find?_eq_some_iff map.sorted

theorem mem_names_iff {map : NameMap α} {name : String} :
    name ∈ map.names ↔ ∃ value, map.get? name = some value := by
  simp [names, get?_eq_some_iff]

theorem nodup_names (map : NameMap α) : map.names.Nodup :=
  List.pairwise_map.2 (map.sorted.imp fun h => String.ne_of_lt h)

theorem get?_empty (name : String) : (empty : NameMap α).get? name = none := rfl

end NameMap

end Bytecode
