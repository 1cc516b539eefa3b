import Udaf.Core.ErrorCode
import Udaf.Lib.Bytes
import Udaf.Lib.Table

/-!
`ability_a/trust/peer_whitelist.cpp`: the entries of the trusted nodes. A whitelist carries
the fact that an entry stands under its own id and passed the check of `add`.
-/

namespace Udaf

open ByteString

structure WhitelistEntry where
  nodeId : Bytes
  fingerprintSha256 : Bytes
  allowedCapabilities : Table Bytes Unit := ∅

def WhitelistEntry.Valid (entry : WhitelistEntry) : Prop :=
  ¬ (entry.nodeId = [] ∨ entry.fingerprintSha256.length ≠ 32)

structure PeerWhitelist where
  entries : Table Bytes WhitelistEntry
  keyed : ∀ nodeId entry, entries.lookup nodeId = some entry →
    entry.nodeId = nodeId ∧ entry.Valid

namespace PeerWhitelist

def empty : PeerWhitelist where
  entries := ∅
  keyed := by
    intro nodeId entry found
    rw [AList.lookup_empty] at found
    cases found

def put (whitelist : PeerWhitelist) (entry : WhitelistEntry) (valid : entry.Valid) :
    PeerWhitelist where
  entries := whitelist.entries.insert entry.nodeId entry
  keyed := by
    intro nodeId other found
    rw [Table.lookup_set] at found
    by_cases same : nodeId = entry.nodeId
    · rw [if_pos same] at found
      cases found
      exact ⟨same.symm, valid⟩
    · rw [if_neg same] at found
      exact whitelist.keyed nodeId other found

def erase (whitelist : PeerWhitelist) (nodeId : Bytes) : PeerWhitelist where
  entries := whitelist.entries.erase nodeId
  keyed := by
    intro other entry found
    rw [Table.lookup_remove] at found
    split_ifs at found
    exact whitelist.keyed other entry found

def add (whitelist : PeerWhitelist) (entry : WhitelistEntry) :
    Except ErrorCode Bool × PeerWhitelist :=
  if invalid : entry.nodeId = [] ∨ entry.fingerprintSha256.length ≠ 32 then
    (.error .invalidArg, whitelist)
  else
    let isNew := (whitelist.entries.lookup entry.nodeId).isNone
    (.ok isNew, whitelist.put entry invalid)

def remove (whitelist : PeerWhitelist) (nodeId : Bytes) : Except ErrorCode Bool × PeerWhitelist :=
  let removed := (whitelist.entries.lookup nodeId).isSome
  (.ok removed, whitelist.erase nodeId)

def contains (whitelist : PeerWhitelist) (nodeId : Bytes) (capability : Bytes := []) : Bool :=
  match whitelist.entries.lookup nodeId with
  | none => false
  | some entry =>
      if capability.isEmpty then true else (entry.allowedCapabilities.lookup capability).isSome

def get (whitelist : PeerWhitelist) (nodeId : Bytes) : Except ErrorCode WhitelistEntry :=
  match whitelist.entries.lookup nodeId with
  | none => .error .bizNodeNotRegistered
  | some entry => .ok entry

def snapshot (whitelist : PeerWhitelist) : List WhitelistEntry := whitelist.entries.values

variable {whitelist : PeerWhitelist} {nodeId : Bytes}

theorem add_valid {entry : WhitelistEntry} (valid : entry.Valid) :
    whitelist.add entry =
      (.ok (whitelist.entries.lookup entry.nodeId).isNone, whitelist.put entry valid) := by
  rw [add, dif_neg valid]

theorem add_invalid {entry : WhitelistEntry} (invalid : ¬ entry.Valid) :
    whitelist.add entry = (.error .invalidArg, whitelist) := by
  rw [add, dif_pos (not_not.mp invalid)]

theorem contains_iff : whitelist.contains nodeId = true ↔
    ∃ entry, whitelist.entries.lookup nodeId = some entry := by
  rw [contains]
  cases whitelist.entries.lookup nodeId with
  | none => simp
  | some entry => simp

theorem erase_absent (absent : whitelist.entries.lookup nodeId = none) :
    whitelist.erase nodeId = whitelist := by
  have missing : nodeId ∉ whitelist.entries.keys := by
    rw [← AList.mem_keys, ← AList.lookup_isSome, absent]
    simp
  have entries : whitelist.entries.erase nodeId = whitelist.entries :=
    AList.ext (List.kerase_of_notMem_keys missing)
  simp only [erase, entries]

theorem mem_snapshot {entry : WhitelistEntry} :
    entry ∈ whitelist.snapshot ↔ whitelist.entries.lookup entry.nodeId = some entry := by
  rw [snapshot, Table.mem_values]
  constructor
  · rintro ⟨key, found⟩
    rw [(whitelist.keyed key entry found).1]
    exact found
  · intro found
    exact ⟨entry.nodeId, found⟩

theorem snapshot_nodeIds :
    whitelist.snapshot.map WhitelistEntry.nodeId = whitelist.entries.keys := by
  rw [snapshot, Table.values, List.map_map, AList.keys, List.keys]
  apply List.map_congr_left
  intro entry member
  exact (whitelist.keyed entry.1 entry.2 (Table.lookup_eq_some.mpr member)).1

end PeerWhitelist

end Udaf
