import ChunkStore.Json.Record
import Mathlib.Data.List.Nodup

/-!
# Members of records

A record is read from an object by its names, none of which may stand in it twice, or from an
array by position. Either way each member is the one value that the document gives for it.
-/

namespace ChunkStore.Json

variable {key : String}

/-! ## Values under keys -/

theorem lookup_map {α β : Type} (f : α → β) (l : List (String × α)) :
    (l.map fun member => (member.1, f member.2)).lookup key = (l.lookup key).map f := by
  induction l with
  | nil => rfl
  | cons member l ih =>
    rw [List.map_cons, List.lookup_cons, List.lookup_cons, ih]
    cases key == member.1 <;> rfl

theorem mem_of_lookup_eq_some {α : Type} {l : List (String × α)} {a : α}
    (h : l.lookup key = some a) : (key, a) ∈ l := by
  obtain ⟨before, after, rfl, -⟩ := List.lookup_eq_some_iff.1 h
  exact List.mem_append_right _ (List.mem_cons_self ..)

theorem lookup_eq_some_iff_mem {α : Type} {l : List (String × α)} {a : α}
    (once : l.countP (·.1 == key) ≤ 1) : l.lookup key = some a ↔ (key, a) ∈ l := by
  constructor
  · exact mem_of_lookup_eq_some
  · intro mem
    obtain ⟨before, after, rfl⟩ := List.append_of_mem mem
    have none : before.countP (·.1 == key) = 0 := by
      simp only [List.countP_append, List.countP_cons, beq_self_eq_true, if_true] at once
      omega
    rw [List.lookup_eq_some_iff]
    refine ⟨before, after, rfl, fun member earlier => bne_iff_ne.2 ?_⟩
    rintro rfl
    exact List.countP_eq_zero.1 none member earlier (beq_self_eq_true _)

theorem countP_le_one_of_nodup {α : Type} {l : List (String × α)}
    (distinct : (l.map Prod.fst).Nodup) (key : String) : l.countP (·.1 == key) ≤ 1 := by
  have counted := List.nodup_iff_count_le_one.1 distinct key
  rwa [List.count, List.countP_map] at counted

theorem lookup_eq_some_of_mem {α : Type} {l : List (String × α)} {a : α}
    (distinct : (l.map Prod.fst).Nodup) (mem : (key, a) ∈ l) : l.lookup key = some a :=
  (lookup_eq_some_iff_mem (countP_le_one_of_nodup distinct key)).2 mem

/-! ## Records -/

def membersOf (named : List (String × Document)) : List (Option String × Document) :=
  named.map fun member => (some member.1, member.2)

variable {names : List String} {named : List (String × Document)}
  {members : List (Option String × Document)} {items : List Document}
  {values : List (Option Document)}

theorem mapM_membersOf (named : List (String × Document)) :
    (membersOf named).mapM
      (fun (member : Option String × Document) => member.1.map fun key => (key, member.2)) =
      some named := by
  rw [membersOf, List.mapM_map]
  exact (List.mapM_pure (m := Option)).trans (congrArg some named.map_id)

theorem eq_membersOf
    (h : members.mapM
      (fun (member : Option String × Document) => member.1.map fun key => (key, member.2)) =
        some named) : members = membersOf named := by
  induction members generalizing named with
  | nil =>
    cases h
    rfl
  | cons member members ih =>
    rw [List.mapM_cons] at h
    simp only [Option.bind_eq_bind, Option.bind_eq_some_iff, Option.pure_def, Option.some.injEq]
      at h
    obtain ⟨first, text, later, rest, rfl⟩ := h
    obtain ⟨key, known, rfl⟩ := Option.map_eq_some_iff.1 text
    rw [ih rest]
    exact congrArg (· :: membersOf later) (Prod.ext known rfl)

/-- What is read of an object as a record: its members under the names, if all its keys are
texts and no name is there twice. -/
theorem record?_object_iff :
    record? names (.object members) = some values ↔
      ∃ named, members = membersOf named ∧
        (∀ name ∈ names, named.countP (·.1 == name) ≤ 1) ∧
        values = names.map fun name => named.lookup name := by
  constructor
  · intro h
    rw [record?, Option.bind_eq_bind, Option.bind_eq_some_iff] at h
    obtain ⟨named, texts, h⟩ := h
    split at h
    · rename_i once
      cases h
      refine ⟨named, eq_membersOf texts, ?_, rfl⟩
      simpa using once
    · cases h
  · intro h
    obtain ⟨named, rfl, once, rfl⟩ := h
    simpa [record?, mapM_membersOf] using once

theorem record?_membersOf (names : List String) (distinct : (named.map Prod.fst).Nodup) :
    record? names (.object (membersOf named)) =
      some (names.map fun name => named.lookup name) :=
  record?_object_iff.2 ⟨named, rfl, fun name _ => countP_le_one_of_nodup distinct name, rfl⟩

/-- The document gives the value for the member with this position and name. -/
inductive Gives (position : Nat) (name : String) : Document → Document → Prop
  | item {items : List Document} {value : Document} (h : items[position]? = some value) :
      Gives position name (.array items) value
  | member {members : List (Option String × Document)} {value : Document}
      (mem : (some name, value) ∈ members) : Gives position name (.object members) value

theorem mem_membersOf {value : Document} :
    (some key, value) ∈ membersOf named ↔ (key, value) ∈ named := by
  simp [membersOf]

/-- A member of a record is what the document gives for it. -/
theorem getElem?_record? {d : Document} (h : record? names d = some values) {position : Nat}
    {name : String} (known : names[position]? = some name) (value : Document) :
    values[position]? = some (some value) ↔ Gives position name d value := by
  cases d with
  | array items =>
    have member : values[position]? = some (some value) ↔ items[position]? = some value := by
      rw [record?] at h
      split at h
      · cases h
        rw [List.getElem?_append]
        split
        · rw [List.getElem?_map, Option.map_eq_some_iff]
          simp
        · rename_i beyond
          rw [List.length_map, Nat.not_lt] at beyond
          rw [List.getElem?_eq_none beyond, List.getElem?_replicate]
          simp
      · cases h
    rw [member]
    constructor
    · exact .item
    · intro given
      cases given with
      | item h => exact h
  | object members =>
    obtain ⟨named, rfl, once, rfl⟩ := record?_object_iff.1 h
    have mem : name ∈ names := List.mem_of_getElem? known
    rw [List.getElem?_map, known, Option.map_some, Option.some.injEq,
      lookup_eq_some_iff_mem (once name mem), ← mem_membersOf]
    constructor
    · exact .member
    · intro given
      cases given with
      | member mem => exact mem
  | _ => cases h

end ChunkStore.Json
