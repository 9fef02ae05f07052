import Mathlib.Data.List.Nodup
import NodeFactory.Property.Basic

/-!
# Lists of properties

Where lists of properties are joined, the first property of a name stays, at its place, and names
are never repeated (`merge_eq`, `nodup_merge`). What all parts of a union have is part of what the
first has.
-/

namespace NodeFactory.Property

/-- The first property of each name. -/
def firsts : List Property → List Property
  | [] => []
  | property :: properties =>
    property :: (firsts properties).filter fun later => later.name ≠ property.name

/-- The properties of a list whose names another does not have. -/
def absentFrom (listed more : List Property) : List Property :=
  more.filter fun property => property.name ∉ names listed

/-- The properties of the first list that every other list has too, with no owner. -/
def sharedByAll : List (List Property) → List Property
  | [] => []
  | first :: others =>
    (first.filter fun property => ∀ other ∈ others, property.name ∈ names other).map
      fun property => { property with owner := none }

theorem names_append (properties more : List Property) :
    names (properties ++ more) = names properties ++ names more :=
  List.map_append

theorem names_filter_subset (p : Property → Bool) (properties : List Property) :
    (names (properties.filter p)).Sublist (names properties) :=
  List.filter_sublist.map _

section Merge

theorem addNew_of_mem {properties : List Property} {property : Property}
    (h : property.name ∈ names properties) : addNew properties property = properties := by
  rw [addNew, if_pos (List.contains_iff_mem.2 h)]

theorem addNew_of_notMem {properties : List Property} {property : Property}
    (h : property.name ∉ names properties) :
    addNew properties property = properties ++ [property] := by
  rw [addNew, if_neg (fun hmem => h (List.contains_iff_mem.1 hmem))]

/-- Merging adds the first property of each name that is not there yet. -/
theorem merge_eq : ∀ (listed more : List Property),
    merge listed more = listed ++ absentFrom listed (firsts more)
  | listed, [] => by simp [merge, firsts, absentFrom]
  | listed, property :: more => by
    have ih := merge_eq (addNew listed property) more
    change merge (addNew listed property) more = _
    rw [ih]
    by_cases h : property.name ∈ names listed
    · rw [addNew_of_mem h]
      simp only [firsts, absentFrom, List.filter_cons, List.filter_filter]
      rw [if_neg (by simpa using h)]
      congr 1
      refine List.filter_congr fun later _ => ?_
      by_cases hlater : later.name ∈ names listed
      · simp [hlater]
      · have : later.name ≠ property.name := fun heq => hlater (heq ▸ h)
        simp [hlater, this]
    · rw [addNew_of_notMem h]
      simp only [firsts, absentFrom, List.filter_cons, List.filter_filter]
      rw [if_pos (by simpa using h), List.append_assoc, List.singleton_append]
      congr 2
      refine List.filter_congr fun later _ => ?_
      have hmem : later.name ∈ names (listed ++ [property])
          ↔ later.name ∈ names listed ∨ later.name = property.name := by
        rw [names_append]
        simp [names]
      by_cases hlater : later.name ∈ names listed <;> simp [hmem, hlater]

theorem merge_nil_left (more : List Property) : merge [] more = firsts more := by
  rw [merge_eq, List.nil_append, absentFrom, List.filter_eq_self]
  simp [names]

theorem foldl_merge (lists : List (List Property)) (listed : List Property) :
    lists.foldl merge listed = merge listed lists.flatten := by
  unfold merge
  rw [List.foldl_flatten]

theorem nodup_addNew {properties : List Property} (h : (names properties).Nodup)
    (property : Property) : (names (addNew properties property)).Nodup := by
  by_cases hmem : property.name ∈ names properties
  · rwa [addNew_of_mem hmem]
  · rw [addNew_of_notMem hmem, names_append]
    refine h.append (List.nodup_singleton _) ?_
    simpa [names] using hmem

theorem nodup_merge : ∀ {listed : List Property} (more : List Property), (names listed).Nodup →
    (names (merge listed more)).Nodup
  | _, [], h => h
  | _, property :: more, h => nodup_merge more (nodup_addNew h property)

theorem nodup_firsts (properties : List Property) : (names (firsts properties)).Nodup := by
  rw [← merge_nil_left]
  exact nodup_merge properties List.nodup_nil

theorem firsts_of_nodup : ∀ {properties : List Property}, (names properties).Nodup →
    firsts properties = properties
  | [], _ => rfl
  | property :: properties, h => by
    obtain ⟨hnot, h⟩ := List.nodup_cons.1 h
    rw [firsts, firsts_of_nodup h, List.filter_eq_self.2]
    intro later hlater
    simp only [ne_eq, decide_not, Bool.not_eq_eq_eq_not, Bool.not_true, decide_eq_false_iff_not]
    exact fun heq => hnot (heq ▸ List.mem_map_of_mem hlater)

theorem merge_of_nodup {more : List Property} (listed : List Property) (h : (names more).Nodup) :
    merge listed more = listed ++ absentFrom listed more := by
  rw [merge_eq, firsts_of_nodup h]

end Merge

section Common

theorem common_eq (lists : List (List Property)) : common lists = sharedByAll lists := by
  cases lists with
  | nil => rfl
  | cons first others =>
    simp only [common, sharedByAll]
    congr 1
    refine List.filter_congr fun property _ => ?_
    simp only [List.all_eq, List.contains_iff_mem]

theorem nodup_sharedByAll {lists : List (List Property)}
    (h : ∀ list ∈ lists, (names list).Nodup) : (names (sharedByAll lists)).Nodup := by
  cases lists with
  | nil => exact List.nodup_nil
  | cons first others =>
    unfold sharedByAll names
    rw [List.map_map]
    exact (names_filter_subset _ first).nodup (h first List.mem_cons_self)

end Common

end NodeFactory.Property
