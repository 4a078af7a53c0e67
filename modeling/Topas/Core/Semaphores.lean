import Mathlib.Data.List.Nodup

/-!
# Keys and identifiers

System V semaphore sets, as far as the names go: a set is found by its key, and used and removed by
its identifier. No two sets have a key in common, and an identifier is never given out twice.
-/
namespace Topas

structure SemSet where
  id : Nat
  key : Nat
  deriving DecidableEq, Repr

/-- The sets that there are. -/
structure SemTable where
  sets : List SemSet
  nextId : Nat
  keys_nodup : (sets.map (·.key)).Nodup
  ids_nodup : (sets.map (·.id)).Nodup
  ids_lt : ∀ set ∈ sets, set.id < nextId
  deriving DecidableEq

namespace SemTable

def empty : SemTable := ⟨[], 0, List.nodup_nil, List.nodup_nil, fun _ h => nomatch h⟩

def keys (t : SemTable) : List Nat := t.sets.map (·.key)

def Exists (t : SemTable) (id : Nat) : Prop := ∃ set ∈ t.sets, set.id = id

instance (t : SemTable) (id : Nat) : Decidable (t.Exists id) :=
  inferInstanceAs (Decidable (∃ set ∈ t.sets, set.id = id))

/-! ## The calls -/

/-- A new set. -/
def create (t : SemTable) (key : Nat) (h : key ∉ t.keys) : SemTable where
  sets := ⟨t.nextId, key⟩ :: t.sets
  nextId := t.nextId + 1
  keys_nodup := List.nodup_cons.mpr ⟨h, t.keys_nodup⟩
  ids_nodup := by
    refine List.nodup_cons.mpr ⟨fun hmem => ?_, t.ids_nodup⟩
    obtain ⟨set, hset, heq⟩ := List.mem_map.mp hmem
    exact Nat.ne_of_lt (t.ids_lt set hset) heq
  ids_lt := List.forall_mem_cons.mpr
    ⟨Nat.lt_succ_self _, fun set hset => Nat.lt_succ_of_lt (t.ids_lt set hset)⟩

/-- The set with this identifier is removed, if there is one. -/
def rmid (t : SemTable) (id : Nat) : SemTable where
  sets := t.sets.filter (·.id ≠ id)
  nextId := t.nextId
  keys_nodup := t.keys_nodup.sublist (List.filter_sublist.map _)
  ids_nodup := t.ids_nodup.sublist (List.filter_sublist.map _)
  ids_lt set hset := t.ids_lt set (List.mem_of_mem_filter hset)

/-- The identifier of the set with this key. -/
def lookup (t : SemTable) (key : Nat) : Option Nat := (t.sets.find? (·.key = key)).map (·.id)

variable {t : SemTable} {key id : Nat} {h : key ∉ t.keys}

theorem mem_create {set : SemSet} : set ∈ (t.create key h).sets ↔ set = ⟨t.nextId, key⟩ ∨
    set ∈ t.sets :=
  List.mem_cons

theorem mem_rmid {set : SemSet} : set ∈ (t.rmid id).sets ↔ set ∈ t.sets ∧ set.id ≠ id := by
  simp [rmid]

theorem lookup_mem (hl : t.lookup key = some id) : ⟨id, key⟩ ∈ t.sets := by
  obtain ⟨set, hset, rfl⟩ := Option.map_eq_some_iff.mp hl
  have hkey : set.key = key := by simpa using List.find?_some hset
  exact hkey ▸ List.mem_of_find?_eq_some hset

/-- The set with the key is the only one. -/
theorem eq_of_key {a b : SemSet} (ha : a ∈ t.sets) (hb : b ∈ t.sets) (hkey : a.key = b.key) :
    a = b :=
  List.inj_on_of_nodup_map t.keys_nodup ha hb hkey

end SemTable

end Topas
