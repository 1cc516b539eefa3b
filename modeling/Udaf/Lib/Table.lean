import Mathlib.Data.Finset.Card
import Mathlib.Data.List.AList

/-! Tables with one value a key, and the part of a table whose entries are kept. -/

abbrev Table (κ ν : Type) := AList fun _ : κ => ν

namespace Table

variable {κ ν : Type} [DecidableEq κ]

def size (table : Table κ ν) : Nat := table.entries.length

def values (table : Table κ ν) : List ν := table.entries.map Sigma.snd

def keep (table : Table κ ν) (kept : κ → ν → Bool) : Table κ ν :=
  ⟨table.entries.filter fun entry => kept entry.1 entry.2,
    table.nodupKeys.sublist List.filter_sublist⟩

def ofKeys (keys : List κ) : Table κ Unit := keys.foldl (fun table key => table.insert key ()) ∅

theorem lookup_eq_some {table : Table κ ν} {key : κ} {value : ν} :
    table.lookup key = some value ↔ ⟨key, value⟩ ∈ table.entries :=
  AList.mem_lookup_iff

theorem lookup_keep (table : Table κ ν) (kept : κ → ν → Bool) (key : κ) :
    (table.keep kept).lookup key = (table.lookup key).filter (kept key) := by
  apply Option.ext
  intro value
  rw [lookup_eq_some, Option.filter_eq_some_iff, lookup_eq_some]
  exact List.mem_filter

theorem lookup_set (table : Table κ ν) (key other : κ) (value : ν) :
    (table.insert key value).lookup other = if other = key then some value else table.lookup other := by
  by_cases same : other = key
  · rw [same, if_pos rfl]
    exact AList.lookup_insert table
  · rw [if_neg same]
    exact AList.lookup_insert_ne same

theorem lookup_remove (table : Table κ ν) (key other : κ) :
    (table.erase key).lookup other = if other = key then none else table.lookup other := by
  by_cases same : other = key
  · rw [same, if_pos rfl]
    exact AList.lookup_erase key table
  · rw [if_neg same]
    exact AList.lookup_erase_ne same

theorem mem_ofKeys {keys : List κ} {key : κ} : key ∈ ofKeys keys ↔ key ∈ keys := by
  induction keys using List.reverseRecOn with
  | nil => simp [ofKeys]
  | append_singleton keys last ih =>
      rw [ofKeys, List.foldl_append, List.foldl_cons, List.foldl_nil, AList.mem_insert, ← ofKeys, ih,
        List.mem_append, List.mem_singleton, or_comm]

theorem mem_keep {table : Table κ Unit} {kept : κ → Unit → Bool} {key : κ} :
    key ∈ table.keep kept ↔ key ∈ table ∧ kept key () = true := by
  rw [← AList.lookup_isSome, ← AList.lookup_isSome, lookup_keep]
  cases table.lookup key with
  | none => simp
  | some value => simp [Option.filter]

theorem mem_values {table : Table κ ν} {value : ν} :
    value ∈ table.values ↔ ∃ key, table.lookup key = some value := by
  constructor
  · intro member
    obtain ⟨entry, inside, rfl⟩ := List.mem_map.mp member
    exact ⟨entry.1, lookup_eq_some.mpr inside⟩
  · rintro ⟨key, found⟩
    exact List.mem_map.mpr ⟨⟨key, value⟩, lookup_eq_some.mp found, rfl⟩

theorem size_eq_keys (table : Table κ ν) : table.size = table.keys.toFinset.card := by
  rw [List.toFinset_card_of_nodup table.keys_nodup]
  exact (List.length_map _).symm

theorem size_set {table : Table κ ν} {key : κ} (fresh : key ∉ table) (value : ν) :
    size (table.insert key value) = table.size + 1 := by
  rw [size, AList.entries_insert_of_notMem fresh]
  rfl

end Table
