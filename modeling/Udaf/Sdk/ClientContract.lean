import Udaf.Audit.Integrity
import Udaf.Sdk.ClientRuns

/-!
What a client keeps over every run: it acts only for nodes whose trust was last added, a
failed call changes nothing, its records are numbered upwards, and the trust list is what
the successful changes to it make of it.
-/

namespace Udaf

open ByteString Hex OutStream Runs

/-- The last successful change to the trust in the node adds it with these arguments. -/
def LastAdded (calls : List ClientCall) (nodeId fingerprintHex : Bytes)
    (capabilities : List Bytes) : Prop :=
  ∃ past call later, calls = past ++ call :: later ∧
    call.op = .trustAdd nodeId fingerprintHex capabilities ∧ call.reply.isOk = true ∧
      ∀ other ∈ later, ¬ other.Adds nodeId ∧ ¬ other.Removes nodeId

def sequencesOf (calls : List ClientCall) : List UInt64 :=
  calls.filterMap fun call => call.reply.sequence

/-- `site` is reached from `start` by `calls`; the steps are those that may come next. -/
structure ClientContract (sha512 : Bytes → Bytes) (start : ClientSite) (calls : List ClientCall)
    (site : ClientSite) : Prop where
  authorised : ∀ call next nodeId, ClientStep sha512 site call next → call.op.peer = some nodeId →
    call.reply.isOk = true →
      ∃ fingerprintHex capabilities, LastAdded calls nodeId fingerprintHex capabilities
  refused : ∀ call next, ClientStep sha512 site call next → call.reply.isOk = false →
    next.trustList = site.trustList ∧ next.client.registry = site.client.registry ∧
      next.sequence = site.sequence
  current : ∀ call next sequence, ClientStep sha512 site call next →
    call.reply.sequence = some sequence → next.sequence = sequence
  increasing : start.sequence.toNat + calls.countP ClientCall.records < 2 ^ 64 →
    (sequencesOf calls).Pairwise (· < ·)
  once : (site.trustList.map TrustEntry.nodeId).Nodup
  listed : ∀ nodeId fingerprintHex capabilities, LastAdded calls nodeId fingerprintHex capabilities →
    nodeId ∈ site.trustList.map TrustEntry.nodeId
  entries : ∀ entry ∈ site.trustList, ∃ fingerprintHex capabilities,
    LastAdded calls entry.nodeId fingerprintHex capabilities ∧
      entry.fingerprintSha256Hex = fingerprintHex.map lower ∧ entry.capabilities.Nodup ∧
        ∀ capability, capability ∈ entry.capabilities ↔ capability ∈ capabilities

structure Grant where
  fingerprintHex : Bytes
  capabilities : List Bytes

def ClientCall.sets (nodeId : Bytes) (call : ClientCall) : Option (Option Grant) :=
  match call.op with
  | .trustAdd added fingerprintHex capabilities =>
      if call.reply.isOk ∧ added = nodeId then some (some ⟨fingerprintHex, capabilities⟩) else none
  | .trustRemove removed => if call.reply.isOk ∧ removed = nodeId then some none else none
  | _ => none

structure Grant.Holds (grant : Grant) (entry : WhitelistEntry) : Prop where
  fingerprint : hexOf entry.fingerprintSha256 = grant.fingerprintHex.map lower
  capabilities : ∀ capability,
    capability ∈ entry.allowedCapabilities ↔ capability ∈ grant.capabilities

def Represented (calls : List ClientCall) (site : ClientSite) : Prop :=
  ∀ nodeId, Option.Rel Grant.Holds (latest (ClientCall.sets nodeId) calls)
    (site.client.whitelist.entries.lookup nodeId)

theorem sets_none {call : ClientCall} {nodeId : Bytes} :
    call.sets nodeId = none ↔ ¬ call.Adds nodeId ∧ ¬ call.Removes nodeId := by
  obtain ⟨op, occasion, reply⟩ := call
  cases op with
  | trustAdd added fingerprintHex capabilities =>
      simp [ClientCall.sets, ClientCall.Adds, ClientCall.Removes]
      grind
  | trustRemove removed =>
      simp [ClientCall.sets, ClientCall.Adds, ClientCall.Removes]
      grind
  | _ => simp [ClientCall.sets, ClientCall.Adds, ClientCall.Removes]

theorem sets_some {call : ClientCall} {nodeId fingerprintHex : Bytes} {capabilities : List Bytes} :
    call.sets nodeId = some (some ⟨fingerprintHex, capabilities⟩) ↔
      call.op = .trustAdd nodeId fingerprintHex capabilities ∧ call.reply.isOk = true := by
  obtain ⟨op, occasion, reply⟩ := call
  cases op with
  | trustAdd added fingerprint given =>
      simp [ClientCall.sets]
      grind
  | _ => simp [ClientCall.sets]

theorem lastAdded_iff {calls : List ClientCall} {nodeId fingerprintHex : Bytes}
    {capabilities : List Bytes} :
    latest (ClientCall.sets nodeId) calls = some ⟨fingerprintHex, capabilities⟩ ↔
      LastAdded calls nodeId fingerprintHex capabilities := by
  simp only [latest_eq_some, sets_some, sets_none, LastAdded, and_assoc]

section Represented

variable {sha512 : Bytes → Bytes} {past : List ClientCall} {site next : ClientSite}
  {call : ClientCall}

theorem Represented.kept (represented : Represented past site)
    (unset : ∀ nodeId, call.sets nodeId = none)
    (same : next.client.whitelist = site.client.whitelist) : Represented (past ++ [call]) next := by
  intro nodeId
  rw [latest_concat, unset, same]
  exact represented nodeId

theorem Represented.step (represented : Represented past site)
    (step : ClientStep sha512 site call next) : Represented (past ++ [call]) next := by
  have effect := step.effect
  obtain ⟨op, occasion, reply⟩ := call
  cases effect with
  | refused failed same sequence =>
      refine represented.kept ?_ same.1
      intro nodeId
      rw [sets_none]
      simp [ClientCall.Adds, ClientCall.Removes, failed]
  | recorded noAdd noRemove trusted same following current =>
      refine represented.kept ?_ same.1
      intro nodeId
      rw [sets_none]
      simp [ClientCall.Adds, ClientCall.Removes, noAdd, noRemove]
  | @added nodeId fingerprintHex fingerprintSha256 capabilities isNew _ printed entries =>
      intro other
      rw [latest_concat, entries]
      by_cases here : other = nodeId
      · have set : ClientCall.sets other ⟨.trustAdd nodeId fingerprintHex capabilities, occasion,
            .changed (.ok isNew)⟩ = some (some ⟨fingerprintHex, capabilities⟩) :=
          sets_some.mpr ⟨by rw [here], rfl⟩
        rw [set, if_pos here]
        exact .some ⟨printed, fun capability => Table.mem_ofKeys⟩
      · rw [sets_none.mpr (by simp [ClientCall.Adds, ClientCall.Removes, Ne.symm here]), if_neg here]
        exact represented other
  | @removed nodeId _ entries =>
      intro other
      rw [latest_concat, entries]
      by_cases here : other = nodeId
      · have set : ClientCall.sets other ⟨.trustRemove nodeId, occasion, .changed (.ok true)⟩ =
            some none := by simp [ClientCall.sets, ClientReply.isOk, Except.isOk, Except.toBool, here]
        rw [set, if_pos here]
        exact .none
      · rw [sets_none.mpr (by simp [ClientCall.Adds, ClientCall.Removes, Ne.symm here]), if_neg here]
        exact represented other
  | registered same sequence =>
      refine represented.kept ?_ same
      intro nodeId
      rfl
  | unregistered same sequence =>
      refine represented.kept ?_ same
      intro nodeId
      rfl

theorem represented_opened (cfg : ClientConfig) (file : Option Bytes) (genesis : Genesis) :
    Represented [] (ClientSite.opened sha512 cfg file genesis) := by
  have empty : (ClientSite.opened sha512 cfg file genesis).client.whitelist = .empty := by
    rw [ClientSite.opened]
    split_ifs <;> rfl
  intro nodeId
  rw [empty]
  exact .none

end Represented

structure NumberedTo (bound : Nat) (sequences : List UInt64) (last : UInt64) : Prop where
  below : last.toNat ≤ bound
  told : ∀ sequence ∈ sequences, sequence ≤ last
  increasing : sequences.Pairwise (· < ·)

/-- The records so far are numbered upwards from the start, if there is room for them. -/
def NumberedSince (start : ClientSite) (calls : List ClientCall) (site : ClientSite) : Prop :=
  start.sequence.toNat + calls.countP ClientCall.records < 2 ^ 64 →
    NumberedTo (start.sequence.toNat + calls.countP ClientCall.records) (sequencesOf calls)
      site.sequence

section NumberedSince

variable {sha512 : Bytes → Bytes} {start site next : ClientSite} {past : List ClientCall}
  {call : ClientCall} {bound : Nat} {sequences : List UInt64} {last : UInt64}

theorem next_toNat (room : last.toNat + 1 < 2 ^ 64) : (last + 1).toNat = last.toNat + 1 := by
  rw [UInt64.toNat_add]
  exact Nat.mod_eq_of_lt room

theorem NumberedTo.skip (numbered : NumberedTo bound sequences last) (room : bound + 1 < 2 ^ 64) :
    NumberedTo (bound + 1) sequences (last + 1) := by
  have below := numbered.below
  have following := @next_toNat last (by omega)
  refine ⟨by omega, ?_, numbered.increasing⟩
  intro sequence member
  have earlier := UInt64.le_iff_toNat_le.mp (numbered.told sequence member)
  exact UInt64.le_iff_toNat_le.mpr (by omega)

theorem NumberedTo.tell (numbered : NumberedTo bound sequences last) (room : bound + 1 < 2 ^ 64) :
    NumberedTo (bound + 1) (sequences ++ [last + 1]) (last + 1) := by
  have below := numbered.below
  have following := @next_toNat last (by omega)
  have skipped := numbered.skip room
  refine ⟨skipped.below, ?_, List.pairwise_append.mpr ⟨numbered.increasing, by simp, ?_⟩⟩
  · intro sequence member
    rcases List.mem_append.mp member with earlier | new
    · exact skipped.told sequence earlier
    · rw [List.mem_singleton.mp new]
      exact UInt64.le_iff_toNat_le.mpr (Nat.le_refl _)
  · intro sequence member other new
    rw [List.mem_singleton.mp new]
    have earlier := UInt64.le_iff_toNat_le.mp (numbered.told sequence member)
    exact UInt64.lt_iff_toNat_lt.mpr (by omega)

theorem NumberedTo.weaken (numbered : NumberedTo bound sequences last) :
    NumberedTo (bound + 1) sequences last :=
  ⟨Nat.le_succ_of_le numbered.below, numbered.told, numbered.increasing⟩

theorem sequencesOf_concat (calls : List ClientCall) (call : ClientCall) :
    sequencesOf (calls ++ [call]) = sequencesOf calls ++ call.reply.sequence.toList := by
  rw [sequencesOf, List.filterMap_append, ← sequencesOf]
  cases told : call.reply.sequence with
  | none => simp [told]
  | some sequence => simp [told]

theorem NumberedSince.still (numbered : NumberedSince start past site) (silent : call.reply.sequence = none)
    (unrecorded : call.records = false) (same : next.sequence = site.sequence) :
    NumberedSince start (past ++ [call]) next := by
  have count : (past ++ [call]).countP ClientCall.records = past.countP ClientCall.records := by
    simp [unrecorded]
  rw [NumberedSince, count, sequencesOf_concat, silent, same, Option.toList_none, List.append_nil]
  exact numbered

theorem NumberedSince.skip (numbered : NumberedSince start past site) (silent : call.reply.sequence = none)
    (recorded : call.records = true) (advanced : site.Advanced next) :
    NumberedSince start (past ++ [call]) next := by
  have count : (past ++ [call]).countP ClientCall.records = past.countP ClientCall.records + 1 := by
    simp [recorded]
  intro room
  rw [count, ← Nat.add_assoc] at room
  rw [count, sequencesOf_concat, silent, Option.toList_none, List.append_nil, ← Nat.add_assoc]
  have earlier := numbered (by omega)
  rcases advanced with same | following
  · rw [same]
    exact earlier.weaken
  · rw [following]
    exact earlier.skip room

theorem NumberedSince.tell (numbered : NumberedSince start past site)
    (told : call.reply.sequence = some next.sequence) (recorded : call.records = true)
    (following : next.sequence = site.sequence + 1) : NumberedSince start (past ++ [call]) next := by
  have count : (past ++ [call]).countP ClientCall.records = past.countP ClientCall.records + 1 := by
    simp [recorded]
  intro room
  rw [count, ← Nat.add_assoc] at room
  rw [count, sequencesOf_concat, told, Option.toList_some, following, ← Nat.add_assoc]
  exact (numbered (by omega)).tell room

theorem failed_silent {reply : ClientReply} (failed : reply.isOk = false) : reply.sequence = none := by
  cases reply with
  | changed result => rfl
  | audited result =>
      cases result with
      | error code => rfl
      | ok sequence => cases failed

theorem failed_unrecorded (failed : call.reply.isOk = false) : call.records = false := by
  obtain ⟨op, occasion, reply⟩ := call
  cases reply with
  | audited result => exact failed
  | changed result => cases op <;> first | exact failed | rfl

theorem NumberedSince.step (numbered : NumberedSince start past site)
    (step : ClientStep sha512 site call next) : NumberedSince start (past ++ [call]) next := by
  have effect := step.effect
  obtain ⟨op, occasion, reply⟩ := call
  cases effect with
  | refused failed same sequence =>
      exact numbered.still (failed_silent failed) (failed_unrecorded failed) sequence
  | recorded noAdd noRemove trusted same following current =>
      subst current
      exact numbered.tell rfl (by cases op <;> rfl) following
  | added printed entries same advanced => exact numbered.skip rfl rfl advanced
  | removed entries same advanced => exact numbered.skip rfl rfl advanced
  | registered same sequence => exact numbered.still rfl rfl sequence
  | unregistered same sequence => exact numbered.still rfl rfl sequence

theorem numbered_start (start : ClientSite) : NumberedSince start [] start := by
  intro room
  exact ⟨Nat.le_refl _, by simp [sequencesOf], .nil⟩

end NumberedSince

section Contract

variable {sha512 : Bytes → Bytes} {calls : List ClientCall} {site next : ClientSite}
  {call : ClientCall} {nodeId : Bytes}

theorem trustList_nodeIds (site : ClientSite) :
    site.trustList.map TrustEntry.nodeId = site.client.whitelist.entries.keys := by
  rw [← PeerWhitelist.snapshot_nodeIds, ClientSite.trustList, List.map_map]
  rfl

theorem Represented.trusted (represented : Represented calls site) {entry : WhitelistEntry}
    (found : site.client.whitelist.entries.lookup nodeId = some entry) :
    ∃ fingerprintHex capabilities, LastAdded calls nodeId fingerprintHex capabilities ∧
      Grant.Holds ⟨fingerprintHex, capabilities⟩ entry := by
  have related := represented nodeId
  rw [found] at related
  generalize granted : latest (ClientCall.sets nodeId) calls = grant at related
  cases related with
  | some holds => exact ⟨_, _, lastAdded_iff.mp granted, holds⟩

theorem Represented.listed (represented : Represented calls site) {fingerprintHex : Bytes}
    {capabilities : List Bytes} (added : LastAdded calls nodeId fingerprintHex capabilities) :
    nodeId ∈ site.trustList.map TrustEntry.nodeId := by
  have related := represented nodeId
  rw [lastAdded_iff.mpr added] at related
  rw [trustList_nodeIds, ← AList.mem_keys, ← AList.lookup_isSome]
  generalize site.client.whitelist.entries.lookup nodeId = found at related ⊢
  cases related with
  | some holds => rfl

theorem Represented.entry (represented : Represented calls site) {entry : TrustEntry}
    (member : entry ∈ site.trustList) : ∃ fingerprintHex capabilities,
      LastAdded calls entry.nodeId fingerprintHex capabilities ∧
        entry.fingerprintSha256Hex = fingerprintHex.map lower ∧ entry.capabilities.Nodup ∧
          ∀ capability, capability ∈ entry.capabilities ↔ capability ∈ capabilities := by
  obtain ⟨stored, inside, rfl⟩ := List.mem_map.mp member
  obtain ⟨fingerprintHex, capabilities, added, holds⟩ :=
    represented.trusted (PeerWhitelist.mem_snapshot.mp inside)
  exact ⟨fingerprintHex, capabilities, added, holds.fingerprint,
    stored.allowedCapabilities.keys_nodup, holds.capabilities⟩

theorem ClientStep.authorised (step : ClientStep sha512 site call next)
    (needed : call.op.peer = some nodeId) (ok : call.reply.isOk = true) :
    site.client.whitelist.contains nodeId = true := by
  have effect := step.effect
  obtain ⟨op, occasion, reply⟩ := call
  cases effect with
  | refused failed same sequence =>
      rw [failed] at ok
      cases ok
  | recorded noAdd noRemove trusted same following current => exact trusted nodeId needed
  | added printed entries same advanced => cases needed
  | removed entries same advanced => cases needed
  | registered same sequence => cases needed
  | unregistered same sequence => cases needed

theorem ClientStep.refused (step : ClientStep sha512 site call next)
    (failed : call.reply.isOk = false) :
    next.trustList = site.trustList ∧ next.client.registry = site.client.registry ∧
      next.sequence = site.sequence := by
  have effect := step.effect
  obtain ⟨op, occasion, reply⟩ := call
  cases effect with
  | refused failed same sequence =>
      rw [ClientSite.trustList, same.1]
      exact ⟨rfl, same.2, sequence⟩
  | recorded noAdd noRemove trusted same following current => cases failed
  | added printed entries same advanced => cases failed
  | removed entries same advanced => cases failed
  | registered same sequence => cases failed
  | unregistered same sequence => cases failed

theorem ClientStep.current (step : ClientStep sha512 site call next) {sequence : UInt64}
    (told : call.reply.sequence = some sequence) : next.sequence = sequence := by
  have effect := step.effect
  obtain ⟨op, occasion, reply⟩ := call
  cases effect with
  | refused failed same unchanged =>
      rw [failed_silent failed] at told
      cases told
  | recorded noAdd noRemove trusted same following current =>
      cases told
      exact current
  | added printed entries same advanced => cases told
  | removed entries same advanced => cases told
  | registered same sequence => cases told
  | unregistered same sequence => cases told

/-- The contract is kept over any calls, and on any log that was there before. -/
theorem client_contract {cfg : ClientConfig} {file : Option Bytes} {genesis : Genesis}
    (run : Run (ClientStep sha512) (ClientSite.opened sha512 cfg file genesis) calls site) :
    ClientContract sha512 (ClientSite.opened sha512 cfg file genesis) calls site := by
  have represented : Represented calls site :=
    run.history (fun step before => Represented.step before step)
      (represented_opened cfg file genesis)
  have numbered : NumberedSince (ClientSite.opened sha512 cfg file genesis) calls site :=
    run.history (fun step before => NumberedSince.step before step) (numbered_start _)
  constructor
  · intro call next nodeId step needed ok
    obtain ⟨entry, found⟩ := PeerWhitelist.contains_iff.mp (step.authorised needed ok)
    obtain ⟨fingerprintHex, capabilities, added, -⟩ := represented.trusted found
    exact ⟨fingerprintHex, capabilities, added⟩
  · intro call next step failed
    exact step.refused failed
  · intro call next sequence step told
    exact step.current told
  · intro room
    exact (numbered room).increasing
  · rw [trustList_nodeIds]
    exact site.client.whitelist.entries.keys_nodup
  · intro nodeId fingerprintHex capabilities added
    exact represented.listed added
  · intro entry member
    exact represented.entry member

end Contract

def ClientSite.execAll (sha512 : Bytes → Bytes) :
    List (ClientOp × Occasion) → ClientSite → List ClientCall × ClientSite
  | [], site => ([], site)
  | (op, occasion) :: rest, site =>
      let (reply, next) := site.exec sha512 occasion op
      let (calls, final) := ClientSite.execAll sha512 rest next
      (⟨op, occasion, reply⟩ :: calls, final)

theorem client_execAll_run (sha512 : Bytes → Bytes) (requests : List (ClientOp × Occasion))
    (site : ClientSite) :
    Run (ClientStep sha512) site (ClientSite.execAll sha512 requests site).1
      (ClientSite.execAll sha512 requests site).2 := by
  induction requests generalizing site with
  | nil => exact .nil
  | cons request rest ih => exact .cons rfl (ih _)

def sampleConfig : ClientConfig := { nodeId := ascii "host", auditPath := ascii "audit.log" }

def sampleFingerprint : Bytes := List.replicate 64 70

def sampleRequests : List (ClientOp × Occasion) :=
  let push := .pushFile (ascii "a") (ascii "node-1") (ascii "b")
  [(push, {}), (.trustAdd (ascii "node-1") sampleFingerprint [ascii "exec", ascii "exec"], {}),
    (push, {}), (.trustRemove (ascii "node-1"), {}), (push, {})]

@[irreducible] def sampleClientRun : List ClientCall × ClientSite :=
  ClientSite.execAll sampleSha512 sampleRequests
    (ClientSite.opened sampleSha512 sampleConfig none sampleGenesis)

theorem sampleClientRun_run : Run (ClientStep sampleSha512)
    (ClientSite.opened sampleSha512 sampleConfig none sampleGenesis) sampleClientRun.1
    sampleClientRun.2 := by
  rw [sampleClientRun]
  exact client_execAll_run _ _ _

theorem client_contract_push :
    sampleClientRun.1.map (fun call => call.reply.isOk) = [false, true, true, true, false] ∧
      sequencesOf sampleClientRun.1 = [2] ∧
      ClientContract sampleSha512 (ClientSite.opened sampleSha512 sampleConfig none sampleGenesis)
        sampleClientRun.1 sampleClientRun.2 := by
  refine ⟨by decide +kernel, by decide +kernel, ?_⟩
  exact client_contract sampleClientRun_run

def fullLog : Bytes :=
  let head := sampleGenesis.hash sampleSha512
  auditText head
    (chainEvents sampleSha512 { seq := 18446744073709551613, prevHash := head } [aliceRequest])

@[irreducible] def fullRun : List ClientCall × ClientSite :=
  let audit := .audit .configChange (ascii "x") sampleJson
  ClientSite.execAll sampleSha512 [(audit, {}), (audit, {})]
    (ClientSite.opened sampleSha512 sampleConfig (some fullLog) sampleGenesis)

theorem client_sequence_wraps :
    AuditLogger.verifyChain sampleSha512 (some fullLog) = .ok true ∧
      Run (ClientStep sampleSha512)
        (ClientSite.opened sampleSha512 sampleConfig (some fullLog) sampleGenesis) fullRun.1
        fullRun.2 ∧
      (∀ call ∈ fullRun.1, call.occasion.attempt.Succeeds) ∧
      sequencesOf fullRun.1 = [18446744073709551615, 0] ∧ ¬ (sequencesOf fullRun.1).Pairwise (· < ·) := by
  have told : sequencesOf fullRun.1 = [18446744073709551615, 0] := by decide +kernel
  refine ⟨by decide +kernel, ?_, by decide +kernel, told, ?_⟩
  · rw [fullRun]
    exact client_execAll_run _ _ _
  · rw [told]
    decide

end Udaf
