import Mathlib.Data.List.TakeWhile
import Udaf.Sdk.Client

/-!
`udaf_client_trust_list` of `sdk/udaf_c.cpp`: the texts of the list are copied into vectors of
strings, and the C caller gets pointers into their storage. A `std::string` is four machine
words: the pointer to its text, its size, and the sixteen bytes of its buffer.
-/

namespace Udaf

open ByteString Hex

/-- A `std::vector<std::string>`; its storage is another one after each reallocation. -/
structure StringVector where
  storage : Nat := 0
  capacity : Nat := 0
  strings : List Bytes := []

namespace StringVector

def clear (vector : StringVector) : StringVector := { vector with strings := [] }

def reserve (vector : StringVector) (count : Nat) : StringVector :=
  if vector.capacity < count then { vector with storage := vector.storage + 1, capacity := count }
  else vector

def pushBack (vector : StringVector) (string : Bytes) : StringVector :=
  if vector.strings.length < vector.capacity then
    { vector with strings := vector.strings ++ [string] }
  else
    { storage := vector.storage + 1
      capacity := max 1 (2 * vector.capacity)
      strings := vector.strings ++ [string] }

end StringVector

/-- The text of a string in a storage of `str_buf`, or of one of the vectors in `trust_caps_buf`. -/
inductive TextPointer where
  | strBuf (storage index : Nat)
  | trustCaps (entry index : Nat)
  deriving DecidableEq

/-- A machine word, told by where it comes from. -/
inductive Word where
  | pointer (text : TextPointer)
  | number (value : Nat)
  deriving DecidableEq

/-- `capabilities` is the place of the vector in `trust_caps_buf` whose data it points to. -/
structure CTrustEntry where
  nodeId : TextPointer
  fingerprintHex : TextPointer
  capabilityCount : UInt32
  capabilities : Option Nat

structure ClientRep where
  strBuf : StringVector := {}
  trustEntries : List CTrustEntry := []
  trustCapsBuf : List (List Bytes) := []

namespace ClientRep

def addEntry (rep : ClientRep) (t : TrustEntry) : ClientRep :=
  let withNodeId := rep.strBuf.pushBack t.nodeId
  let withFingerprint := withNodeId.pushBack t.fingerprintSha256Hex
  let entry := rep.trustCapsBuf.length
  { strBuf := withFingerprint
    trustCapsBuf := rep.trustCapsBuf ++ [t.capabilities]
    trustEntries := rep.trustEntries ++ [{
      nodeId := .strBuf withNodeId.storage (withNodeId.strings.length - 1)
      fingerprintHex := .strBuf withFingerprint.storage (withFingerprint.strings.length - 1)
      capabilityCount := UInt32.ofNat t.capabilities.length
      capabilities := if t.capabilities.isEmpty then none else some entry }] }

/-- The entries that are there afterwards, and their count as it is returned. -/
def trustList (rep : ClientRep) (site : ClientSite) : UInt32 × ClientRep :=
  let list := site.trustList
  let cleared : ClientRep := { strBuf := rep.strBuf.clear.reserve (list.length * 2) }
  let after := list.foldl addEntry cleared
  (UInt32.ofNat after.trustEntries.length, after)

/-- The NUL-terminated text at a pointer, while its storage is there. -/
def text (rep : ClientRep) : TextPointer → Option Bytes
  | .strBuf storage index =>
      if storage = rep.strBuf.storage then
        rep.strBuf.strings[index]?.map fun string => string.takeWhile (· ≠ 0)
      else none
  | .trustCaps entry index =>
      (rep.trustCapsBuf[entry]?.bind (·[index]?)).map fun string => string.takeWhile (· ≠ 0)

/-- The words of one string; `buffer` is what stands in its buffer. -/
def stringWords (buffer : Bytes → Nat × Nat) (pointer : TextPointer) (string : Bytes) : List Word :=
  [.pointer pointer, .number string.length, .number (buffer string).1, .number (buffer string).2]

/-- `capabilities[i]`: the word at this place of the storage, whatever it is. -/
def capabilityWord (rep : ClientRep) (buffer : Bytes → Nat × Nat) (capabilities : Option Nat)
    (index : Nat) : Option Word :=
  capabilities.bind fun entry =>
    rep.trustCapsBuf[entry]?.bind fun strings =>
      strings[index / 4]?.bind fun string =>
        (stringWords buffer (.trustCaps entry (index / 4)) string)[index % 4]?

structure Shows (rep : ClientRep) (buffer : Bytes → Nat × Nat) (entry : CTrustEntry)
    (t : TrustEntry) : Prop where
  nodeId : rep.text entry.nodeId = some t.nodeId
  fingerprint : rep.text entry.fingerprintHex = some t.fingerprintSha256Hex
  capabilities : ∀ index, index < entry.capabilityCount.toNat → ∃ capability pointer,
    t.capabilities[index]? = some capability ∧
      rep.capabilityWord buffer entry.capabilities index = some (.pointer pointer) ∧
        rep.text pointer = some capability

/-- One entry for each element of the list, in its order. -/
structure ShowsList (buffer : Bytes → Nat × Nat) (shown : UInt32 × ClientRep)
    (list : List TrustEntry) : Prop where
  count : shown.1.toNat = list.length
  entries : ∀ (place : Nat) t, list[place]? = some t →
    ∃ entry, shown.2.trustEntries[place]? = some entry ∧ Shows shown.2 buffer entry t

def entryOf (storage place : Nat) (t : TrustEntry) : CTrustEntry where
  nodeId := .strBuf storage (2 * place)
  fingerprintHex := .strBuf storage (2 * place + 1)
  capabilityCount := UInt32.ofNat t.capabilities.length
  capabilities := if t.capabilities.isEmpty then none else some place

def filled (vector : StringVector) (list : List TrustEntry) : ClientRep where
  strBuf := { vector with strings := list.flatMap fun t => [t.nodeId, t.fingerprintSha256Hex] }
  trustCapsBuf := list.map TrustEntry.capabilities
  trustEntries := list.mapIdx (entryOf vector.storage)

theorem texts_length (list : List TrustEntry) :
    (list.flatMap fun t => [t.nodeId, t.fingerprintSha256Hex]).length = 2 * list.length := by
  simp [List.length_flatMap, Nat.mul_comm]

theorem addEntry_filled {vector : StringVector} {list : List TrustEntry}
    (room : 2 * (list.length + 1) ≤ vector.capacity) (t : TrustEntry) :
    addEntry (filled vector list) t = filled vector (list ++ [t]) := by
  have size := texts_length list
  have first : (filled vector list).strBuf.pushBack t.nodeId = { vector with
      strings := (list.flatMap fun t => [t.nodeId, t.fingerprintSha256Hex]) ++ [t.nodeId] } := by
    refine if_pos ?_
    change (list.flatMap fun t => [t.nodeId, t.fingerprintSha256Hex]).length < vector.capacity
    omega
  have second : StringVector.pushBack { vector with
      strings := (list.flatMap fun t => [t.nodeId, t.fingerprintSha256Hex]) ++ [t.nodeId] }
      t.fingerprintSha256Hex = { vector with strings :=
        (list.flatMap fun t => [t.nodeId, t.fingerprintSha256Hex]) ++ [t.nodeId] ++
          [t.fingerprintSha256Hex] } := by
    refine if_pos ?_
    change ((list.flatMap fun t => [t.nodeId, t.fingerprintSha256Hex]) ++ [t.nodeId]).length <
      vector.capacity
    rw [List.length_append, size, List.length_singleton]
    omega
  simp only [addEntry, first, second, List.length_append, List.length_singleton, size]
  simp [filled, entryOf, List.mapIdx_concat]

theorem foldl_addEntry {vector : StringVector} (empty : vector.strings = []) {list : List TrustEntry}
    (room : 2 * list.length ≤ vector.capacity) :
    list.foldl addEntry { strBuf := vector } = filled vector list := by
  induction list using List.reverseRecOn with
  | nil =>
      obtain ⟨storage, capacity, strings⟩ := vector
      cases empty
      rfl
  | append_singleton list t ih =>
      rw [List.length_append, List.length_singleton] at room
      rw [List.foldl_append, ih (by omega), List.foldl_cons, List.foldl_nil, addEntry_filled room]

theorem trustList_filled (rep : ClientRep) (site : ClientSite) :
    rep.trustList site = (UInt32.ofNat site.trustList.length,
      filled (rep.strBuf.clear.reserve (site.trustList.length * 2)) site.trustList) := by
  have room : 2 * site.trustList.length ≤
      (rep.strBuf.clear.reserve (site.trustList.length * 2)).capacity := by
    rw [StringVector.reserve]
    split
    · exact (Nat.mul_comm _ _).le
    · omega
  have empty : (rep.strBuf.clear.reserve (site.trustList.length * 2)).strings = [] := by
    rw [StringVector.reserve]
    split <;> rfl
  simp only [trustList, foldl_addEntry empty room]
  simp [filled]

theorem texts_getElem? {list : List TrustEntry} {place : Nat} {t : TrustEntry}
    (found : list[place]? = some t) :
    (list.flatMap fun t => [t.nodeId, t.fingerprintSha256Hex])[2 * place]? = some t.nodeId ∧
      (list.flatMap fun t => [t.nodeId, t.fingerprintSha256Hex])[2 * place + 1]? =
        some t.fingerprintSha256Hex := by
  induction list generalizing place with
  | nil => cases found
  | cons head list ih =>
      cases place with
      | zero =>
          cases found
          exact ⟨rfl, rfl⟩
      | succ place => exact ih found

theorem whole_iff {string : Bytes} : string.takeWhile (· ≠ 0) = string ↔ 0 ∉ string := by
  rw [List.takeWhile_eq_self_iff]
  constructor
  · intro whole zero
    exact absurd (whole 0 zero) (by simp)
  · intro clean byte member
    exact decide_eq_true fun zero => clean (zero ▸ member)

theorem capabilities_shown_iff {vector : StringVector} {list : List TrustEntry} {place : Nat}
    {t : TrustEntry} (found : list[place]? = some t) (clean : ∀ capability ∈ t.capabilities, 0 ∉ capability)
    (buffer : Bytes → Nat × Nat) :
    (∀ index, index < (entryOf vector.storage place t).capabilityCount.toNat →
      ∃ capability pointer, t.capabilities[index]? = some capability ∧
        (filled vector list).capabilityWord buffer (entryOf vector.storage place t).capabilities
          index = some (.pointer pointer) ∧
        (filled vector list).text pointer = some capability) ↔
      t.capabilities.length % 2 ^ 32 ≤ 1 := by
  have stored : (filled vector list).trustCapsBuf[place]? = some t.capabilities := by
    rw [filled, List.getElem?_map, found, Option.map_some]
  have count : (entryOf vector.storage place t).capabilityCount.toNat =
      t.capabilities.length % 2 ^ 32 := UInt32.toNat_ofNat'
  rw [count]
  cases capabilities : t.capabilities with
  | nil => simp
  | cons first rest =>
      rw [capabilities] at stored
      have word (index : Nat) : (filled vector list).capabilityWord buffer
          (entryOf vector.storage place t).capabilities index =
            ((first :: rest)[index / 4]?.bind fun string =>
              (stringWords buffer (.trustCaps place (index / 4)) string)[index % 4]?) := by
        simp [capabilityWord, entryOf, capabilities, stored]
      constructor
      · intro shown
        by_contra many
        obtain ⟨capability, pointer, _, read, _⟩ := shown 1 (by omega)
        rw [word] at read
        cases read
      · intro few index below
        obtain rfl : index = 0 := by omega
        have whole : first.takeWhile (· ≠ 0) = first :=
          whole_iff.mpr (clean first (capabilities ▸ List.mem_cons_self))
        refine ⟨first, .trustCaps place 0, rfl, ?_, ?_⟩
        · rw [word]
          rfl
        · rw [text, stored]
          exact congrArg some whole

theorem shows_iff {vector : StringVector} {list : List TrustEntry} {place : Nat} {t : TrustEntry}
    (found : list[place]? = some t) (clean : ∀ capability ∈ t.capabilities, 0 ∉ capability)
    (buffer : Bytes → Nat × Nat) :
    Shows (filled vector list) buffer (entryOf vector.storage place t) t ↔
      0 ∉ t.nodeId ∧ 0 ∉ t.fingerprintSha256Hex ∧ t.capabilities.length % 2 ^ 32 ≤ 1 := by
  obtain ⟨nodeId, fingerprint⟩ := texts_getElem? found
  have nodeIdText : (filled vector list).text (entryOf vector.storage place t).nodeId =
      some (t.nodeId.takeWhile (· ≠ 0)) := by
    refine (if_pos rfl).trans ?_
    exact congrArg (Option.map _) nodeId
  have fingerprintText : (filled vector list).text (entryOf vector.storage place t).fingerprintHex =
      some (t.fingerprintSha256Hex.takeWhile (· ≠ 0)) := by
    refine (if_pos rfl).trans ?_
    exact congrArg (Option.map _) fingerprint
  have capabilities := @capabilities_shown_iff vector list place t found clean buffer
  constructor
  · intro shown
    refine ⟨?_, ?_, capabilities.mp shown.capabilities⟩
    · exact whole_iff.mp (Option.some.inj (nodeIdText.symm.trans shown.nodeId))
    · exact whole_iff.mp (Option.some.inj (fingerprintText.symm.trans shown.fingerprint))
  · rintro ⟨wholeId, wholeFingerprint, few⟩
    refine ⟨?_, ?_, capabilities.mpr few⟩
    · rw [nodeIdText, whole_iff.mpr wholeId]
    · rw [fingerprintText, whole_iff.mpr wholeFingerprint]

theorem filled_entry (vector : StringVector) {list : List TrustEntry} {place : Nat} {t : TrustEntry}
    (found : list[place]? = some t) :
    (filled vector list).trustEntries[place]? = some (entryOf vector.storage place t) := by
  rw [filled, List.getElem?_mapIdx, found, Option.map_some]

theorem fingerprint_whole {site : ClientSite} {t : TrustEntry} (member : t ∈ site.trustList) :
    0 ∉ t.fingerprintSha256Hex := by
  obtain ⟨entry, _, rfl⟩ := List.mem_map.mp member
  intro zero
  exact absurd (hexOf_range zero).1 (by decide)

theorem shown_fine {rep : ClientRep} {site : ClientSite} {buffer : Bytes → Nat × Nat}
    (shown : ShowsList buffer (rep.trustList site) site.trustList) {t : TrustEntry}
    (member : t ∈ site.trustList) (clean : ∀ capability ∈ t.capabilities, 0 ∉ capability) :
    0 ∉ t.nodeId ∧ t.capabilities.length % 2 ^ 32 ≤ 1 := by
  rw [trustList_filled] at shown
  obtain ⟨place, found⟩ := List.mem_iff_getElem?.mp member
  obtain ⟨entry, stored, shows⟩ := shown.entries place t found
  cases (filled_entry _ found).symm.trans stored
  obtain ⟨wholeId, _, few⟩ := (shows_iff found clean buffer).mp shows
  exact ⟨wholeId, few⟩

/-- C sees the list as it is exactly when no entry has a second capability or a NUL in its id. -/
theorem showsList_iff (rep : ClientRep) (site : ClientSite) (buffer : Bytes → Nat × Nat)
    (clean : ∀ t ∈ site.trustList, ∀ capability ∈ t.capabilities, 0 ∉ capability) :
    ShowsList buffer (rep.trustList site) site.trustList ↔ site.trustList.length < 2 ^ 32 ∧
      ∀ t ∈ site.trustList, 0 ∉ t.nodeId ∧ t.capabilities.length % 2 ^ 32 ≤ 1 := by
  have count : (rep.trustList site).1.toNat = site.trustList.length % 2 ^ 32 := by
    rw [trustList_filled]
    exact UInt32.toNat_ofNat'
  constructor
  · intro shown
    have whole := shown.count
    refine ⟨by omega, ?_⟩
    intro t member
    exact shown_fine shown member (clean t member)
  · rintro ⟨small, fine⟩
    refine ⟨count.trans (Nat.mod_eq_of_lt small), ?_⟩
    rw [trustList_filled]
    intro place t found
    have member := List.mem_of_getElem? found
    refine ⟨_, filled_entry _ found, (shows_iff found (clean t member) buffer).mpr ?_⟩
    exact ⟨(fine t member).1, fingerprint_whole member, (fine t member).2⟩

def trusting (capabilities : List Bytes) : ClientSite where
  client := {
    cfg := { nodeId := ascii "self" }
    whitelist := (PeerWhitelist.empty.add {
      nodeId := ascii "peer"
      fingerprintSha256 := List.replicate 32 0
      allowedCapabilities := Table.ofKeys capabilities }).2 }
  file := none

theorem trusting_list (capabilities : List Bytes) : (trusting capabilities).trustList = [{
    nodeId := ascii "peer"
    fingerprintSha256Hex := hexOf (List.replicate 32 0)
    capabilities := (Table.ofKeys capabilities).keys }] := by
  rw [trusting, PeerWhitelist.add_valid (by simp [WhitelistEntry.Valid, ascii])]
  rfl

theorem showsList_iff_single :
    ShowsList (fun _ => (0, 0)) (trustList {} (trusting [ascii "exec"]))
      (trusting [ascii "exec"]).trustList := by
  have clean : ∀ t ∈ (trusting [ascii "exec"]).trustList,
      ∀ capability ∈ t.capabilities, 0 ∉ capability := by
    rw [trusting_list]
    decide
  refine (showsList_iff {} (trusting [ascii "exec"]) (fun _ => (0, 0)) clean).mpr ?_
  rw [trusting_list]
  decide

/-- `capabilities[1]` is the size of the first text. -/
theorem second_capability_size :
    (∀ t ∈ (trusting [ascii "exec", ascii "file"]).trustList,
      ∀ capability ∈ t.capabilities, 0 ∉ capability) ∧
    ¬ ShowsList (fun _ => (0, 0)) (trustList {} (trusting [ascii "exec", ascii "file"]))
      (trusting [ascii "exec", ascii "file"]).trustList := by
  have clean : ∀ t ∈ (trusting [ascii "exec", ascii "file"]).trustList,
      ∀ capability ∈ t.capabilities, 0 ∉ capability := by
    rw [trusting_list]
    decide
  refine ⟨clean, fun shown => ?_⟩
  have member : _ ∈ (trusting [ascii "exec", ascii "file"]).trustList :=
    trusting_list _ ▸ List.mem_cons_self
  exact absurd (shown_fine shown member (clean _ member)).2 (by decide)

end ClientRep

end Udaf
