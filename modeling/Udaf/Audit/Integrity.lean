import Udaf.Audit.Chain
import Udaf.Lib.Run

/-!
Runs of audit loggers on one path in which every file operation succeeds. A
site, the logger and the file together, stays the one that the abstract chain
of the appended requests fixes.
-/

namespace Udaf

open ByteString Decimal Hex HashChain OutStream Runs Text

structure AuditSite where
  logger : AuditLogger
  file : Option Bytes
  deriving DecidableEq, Repr

inductive AuditOp where
  | append (request : AuditRequest) (attempt : Attempt)
  | reopen (genesis : Genesis)
  deriving DecidableEq, Repr

inductive AuditReply where
  | appended (result : Except ErrorCode UInt64)
  | reopened

structure AuditCall where
  op : AuditOp
  reply : AuditReply

def AuditOp.Succeeds : AuditOp → Prop
  | .append _ attempt => attempt.Succeeds
  | .reopen genesis => genesis.attempt.Succeeds

instance : DecidablePred AuditOp.Succeeds
  | .append _ attempt => inferInstanceAs (Decidable attempt.Succeeds)
  | .reopen genesis => inferInstanceAs (Decidable genesis.attempt.Succeeds)

def AuditOp.Clean : AuditOp → Prop
  | .append request _ => request.Clean
  | .reopen _ => True

instance : DecidablePred AuditOp.Clean
  | .append request _ => inferInstanceAs (Decidable request.Clean)
  | .reopen _ => inferInstanceAs (Decidable True)

def requestsOf (calls : List AuditCall) : List AuditRequest :=
  calls.filterMap fun call =>
    match call.op with
    | .append request _ => some request
    | .reopen _ => none

section Digest

variable (sha512 : Bytes → Bytes)

def AuditSite.exec (site : AuditSite) : AuditOp → AuditReply × AuditSite
  | .append request attempt =>
      let (result, logger, file) := site.logger.append sha512 site.file request.action request.actor
        request.target request.paramsJson request.now attempt
      (.appended result, ⟨logger, file⟩)
  | .reopen genesis =>
      let (logger, file) := AuditLogger.construct sha512 site.file genesis
      (.reopened, ⟨logger, file⟩)

def AuditSite.execAll : List AuditOp → AuditSite → List AuditCall × AuditSite
  | [], site => ([], site)
  | op :: ops, site =>
      let (reply, next) := site.exec sha512 op
      let (calls, final) := AuditSite.execAll ops next
      (⟨op, reply⟩ :: calls, final)

def AuditSite.opened (file : Option Bytes) (genesis : Genesis) : AuditSite :=
  let (logger, file) := AuditLogger.construct sha512 file genesis
  ⟨logger, file⟩

structure AuditStep (site : AuditSite) (call : AuditCall) (next : AuditSite) : Prop where
  effect : site.exec sha512 call.op = (call.reply, next)
  succeeds : call.op.Succeeds

def chainSite (head : Bytes) (requests : List AuditRequest) : AuditSite where
  logger := loggerAfter sha512 { prevHash := head } requests
  file := some (auditText head (chainEvents sha512 { prevHash := head } requests))

end Digest

variable {sha512 : Bytes → Bytes}

theorem audit_execAll_run {ops : List AuditOp} (succeed : ∀ op ∈ ops, op.Succeeds)
    (site : AuditSite) :
    Run (AuditStep sha512) site (AuditSite.execAll sha512 ops site).1
      (AuditSite.execAll sha512 ops site).2 := by
  induction ops generalizing site with
  | nil => exact .nil
  | cons op ops ih =>
      exact .cons ⟨rfl, succeed op (by simp)⟩
        (ih (fun other member => succeed other (by simp [member])) _)

theorem fresh_site {genesis : Genesis} (succeeds : genesis.attempt.Succeeds) :
    AuditSite.opened sha512 none genesis = chainSite sha512 (genesis.hash sha512) [] := by
  have opens := succeeds.1
  simp only [AuditSite.opened, AuditLogger.construct, Option.getD_none, lines_nil,
    AuditLogger.fresh, opens, if_true, print_succeeds succeeds]
  simp [chainSite, loggerAfter, chainEvents, auditText]

theorem exec_append {attempt : Attempt} (succeeds : attempt.Succeeds) (logger : AuditLogger)
    (content : Bytes) (request : AuditRequest) :
    AuditSite.exec sha512 ⟨logger, some content⟩ (.append request attempt) =
      (.appended (.ok (logger.eventFor sha512 request).sequence),
        ⟨logger.advanced sha512 request,
          some (content ++ ((logger.eventFor sha512 request).line ++ [newline]))⟩) := by
  have opens := succeeds.1
  simp only [AuditSite.exec, AuditLogger.append, opens, if_true, print_succeeds succeeds,
    AuditEvent.pieces_flatten, Option.getD_some]
  rfl

theorem append_site {attempt : Attempt} (succeeds : attempt.Succeeds) (head : Bytes)
    (requests : List AuditRequest) (request : AuditRequest) :
    (chainSite sha512 head requests).exec sha512 (.append request attempt) =
      (.appended (.ok (UInt64.ofNat (requests.length + 1))),
        chainSite sha512 head (requests ++ [request])) := by
  have seq := @loggerAfter_seq sha512 { prevHash := head } requests
  have number : ((loggerAfter sha512 { prevHash := head } requests).eventFor sha512 request).sequence =
      UInt64.ofNat (requests.length + 1) := by
    rw [← ofNat_next, ← UInt64.zero_add (UInt64.ofNat requests.length)]
    exact congrArg (· + 1) seq
  rw [chainSite, exec_append succeeds, number, chainSite, chainEvents_concat, auditText_append,
    loggerAfter_append, List.map_singleton, unlines_cons, unlines_nil]
  rfl

theorem construct_chain {head : Bytes} (plain : Plain head) {requests : List AuditRequest}
    (clean : ∀ request ∈ requests, request.Clean) (genesis : Genesis) :
    AuditSite.opened sha512 (chainSite sha512 head requests).file genesis =
      chainSite sha512 head requests := by
  have legible := @chainEvents_legible sha512 { prevHash := head } requests plain clean
  have content := lines_auditText plain legible []
  have replay := @replayLines_chain sha512 { prevHash := head } requests plain clean []
  rw [List.append_nil, lines_nil, List.append_nil] at content
  rw [List.append_nil] at replay
  simp only [AuditSite.opened, AuditLogger.construct, chainSite, Option.getD_some, content,
    genesis_line, if_true, replay]
  rfl

theorem verify_chain {head : Bytes} (plain : Plain head) {requests : List AuditRequest}
    (clean : ∀ request ∈ requests, request.Clean) :
    AuditLogger.verifyChain sha512 (chainSite sha512 head requests).file = .ok true := by
  have legible := @chainEvents_legible sha512 { prevHash := head } requests plain clean
  have content := lines_auditText plain legible []
  have verified := @verifyLines_chain sha512 { prevHash := head } requests plain clean []
  rw [List.append_nil, lines_nil, List.append_nil] at content
  rw [List.append_nil] at verified
  simp only [AuditLogger.verifyChain, chainSite, content, genesis_line, verified]
  rfl

/-- No logger is constructed on a file that a request could have broken. -/
def ReopensClean : List AuditRequest → List AuditCall → Prop
  | _, [] => True
  | requests, ⟨.append request _, _⟩ :: calls => ReopensClean (requests ++ [request]) calls
  | requests, ⟨.reopen _, _⟩ :: calls =>
      (∀ request ∈ requests, request.Clean) ∧ ReopensClean requests calls

theorem reopensClean_of_clean {requests : List AuditRequest} {calls : List AuditCall}
    (before : ∀ request ∈ requests, request.Clean) (clean : ∀ call ∈ calls, call.op.Clean) :
    ReopensClean requests calls := by
  induction calls generalizing requests with
  | nil => trivial
  | cons call calls ih =>
      have rest : ∀ other ∈ calls, other.op.Clean := fun other member => clean other (by simp [member])
      obtain ⟨op, reply⟩ := call
      cases op with
      | append request attempt =>
          apply ih _ rest
          intro other member
          rcases List.mem_append.mp member with early | last
          · exact before other early
          · rw [List.mem_singleton.mp last]
            exact clean ⟨.append request attempt, reply⟩ (by simp)
      | reopen genesis => exact ⟨before, ih before rest⟩

theorem step_chain {head : Bytes} {requests : List AuditRequest} (plain : Plain head)
    {call : AuditCall} {next : AuditSite} {calls : List AuditCall}
    (step : AuditStep sha512 (chainSite sha512 head requests) call next)
    (reopens : ReopensClean requests (call :: calls)) :
    next = chainSite sha512 head (requests ++ requestsOf [call]) ∧
      ReopensClean (requests ++ requestsOf [call]) calls := by
  obtain ⟨op, reply⟩ := call
  obtain ⟨effect, succeeds⟩ := step
  cases op with
  | append request attempt =>
      rw [append_site succeeds] at effect
      exact ⟨(Prod.mk.inj effect).2.symm, reopens⟩
  | reopen genesis =>
      have same := @construct_chain sha512 head plain requests reopens.1 genesis
      have added : requests ++ requestsOf [⟨.reopen genesis, reply⟩] = requests := by
        simp [requestsOf]
      rw [added]
      exact ⟨(Prod.mk.inj effect).2.symm.trans same, reopens.2⟩

theorem run_chain {head : Bytes} {requests : List AuditRequest} (plain : Plain head)
    {calls : List AuditCall} {site : AuditSite}
    (run : Run (AuditStep sha512) (chainSite sha512 head requests) calls site)
    (reopens : ReopensClean requests calls) :
    site = chainSite sha512 head (requests ++ requestsOf calls) := by
  induction calls generalizing requests with
  | nil =>
      cases run
      simp [requestsOf]
  | cons call calls ih =>
      cases run with
      | cons step rest =>
          obtain ⟨here, later⟩ := step_chain plain step reopens
          rw [here] at rest
          have split : requestsOf (call :: calls) = requestsOf [call] ++ requestsOf calls := by
            rw [requestsOf, ← List.singleton_append, List.filterMap_append]
            rfl
          rw [ih rest later, split, List.append_assoc]

theorem unlines_length (content : List Bytes) : content.length ≤ (unlines content).length := by
  induction content with
  | nil => simp
  | cons line content ih =>
      simp only [unlines_cons, List.length_append, List.length_cons]
      omega

theorem chainSite_length {head : Bytes} {requests : List AuditRequest}
    (offsets : ∀ content ∈ (chainSite sha512 head requests).file, content.length < 2 ^ 63) :
    requests.length < 2 ^ 63 := by
  have bound := offsets _ rfl
  have count := unlines_length ((genesisTag ++ head) ::
    (chainEvents sha512 { prevHash := head } requests).map AuditEvent.line)
  rw [auditText] at bound
  simp only [List.length_cons, List.length_map, chainEvents_length] at count
  omega

def numberedRecord (line : Bytes) : Option (Nat × AuditRequest) :=
  (parseEventLine line).map fun (event, jsonTail) =>
    (event.sequence.toNat, { event with paramsJson := jsonTail }.request)

/-- A log in order: it verifies, and the records behind its first line are the requests,
numbered from one on. -/
structure AuditIntact (sha512 : Bytes → Bytes) (site : AuditSite) (requests : List AuditRequest) :
    Prop where
  verified : AuditLogger.verifyChain sha512 site.file = .ok true
  sequence : site.logger.sequence.toNat = requests.length
  records : ∃ content, site.file = some content ∧
    (lines content).tail.map numberedRecord =
      (requests.zipIdx 1).map fun (request, number) => some (number, request)

theorem chainEvents_records {head : Bytes} {requests : List AuditRequest} (plain : Plain head)
    (clean : ∀ request ∈ requests, request.Clean) (bound : requests.length < 2 ^ 63) :
    ((chainEvents sha512 { prevHash := head } requests).map AuditEvent.line).map numberedRecord =
      (requests.zipIdx 1).map fun (request, number) => some (number, request) := by
  have legible := @chainEvents_legible sha512 { prevHash := head } requests plain clean
  have numbered := @chainEvents_numbered sha512 { prevHash := head } 0 rfl requests
  have parsed : ((chainEvents sha512 { prevHash := head } requests).map AuditEvent.line).map
      numberedRecord = ((chainEvents sha512 { prevHash := head } requests).map
        fun event => (event.sequence, event.request)).map
          fun (sequence, request) => some (sequence.toNat, request) := by
    rw [List.map_map, List.map_map]
    apply List.map_congr_left
    intro event member
    simp only [Function.comp_apply, numberedRecord, (legible event member).parse_line]
    rfl
  rw [parsed, numbered, List.map_map]
  apply List.map_congr_left
  intro pair member
  have place := List.mem_zipIdx member
  simp only [Function.comp_apply, UInt64.toNat_ofNat']
  rw [Nat.mod_eq_of_lt (by omega)]

theorem chainSite_intact {head : Bytes} {requests : List AuditRequest} (plain : Plain head)
    (clean : ∀ request ∈ requests, request.Clean) (bound : requests.length < 2 ^ 63) :
    AuditIntact sha512 (chainSite sha512 head requests) requests where
  verified := verify_chain plain clean
  sequence := by
    have seq := @loggerAfter_seq sha512 { prevHash := head } requests
    rw [AuditLogger.sequence, chainSite, seq, UInt64.toNat_add, UInt64.toNat_ofNat']
    simp only [UInt64.toNat_zero]
    omega
  records := by
    have legible := @chainEvents_legible sha512 { prevHash := head } requests plain clean
    have content := lines_auditText plain legible []
    rw [List.append_nil, lines_nil, List.append_nil] at content
    refine ⟨_, rfl, ?_⟩
    rw [content]
    exact chainEvents_records plain clean bound

theorem clean_requests {calls : List AuditCall} (clean : ∀ call ∈ calls, call.op.Clean) :
    ∀ request ∈ requestsOf calls, request.Clean := by
  intro request member
  obtain ⟨⟨op, reply⟩, inside, found⟩ := List.mem_filterMap.mp member
  have allowed := clean ⟨op, reply⟩ inside
  cases op with
  | append other attempt =>
      cases found
      exact allowed
  | reopen genesis => cases found

/-- Over any appends and reconstructions that write in full, the log verifies and numbers its records
from one on. -/
theorem audit_integrity {genesis : Genesis} (succeeds : genesis.attempt.Succeeds)
    {calls : List AuditCall} {site : AuditSite}
    (run : Run (AuditStep sha512) (AuditSite.opened sha512 none genesis) calls site)
    (clean : ∀ call ∈ calls, call.op.Clean)
    (offsets : ∀ content ∈ site.file, content.length < 2 ^ 63) :
    AuditIntact sha512 site (requestsOf calls) ∧
      ∀ front request attempt reply back, calls = front ++ ⟨.append request attempt, reply⟩ :: back →
        ∃ sequence, reply = .appended (.ok sequence) ∧
          sequence.toNat = (requestsOf front).length + 1 := by
  have plain : Plain (genesis.hash sha512) := sha512Hex_plain _
  rw [fresh_site succeeds] at run
  have final := run_chain plain run (reopensClean_of_clean (by simp) clean)
  rw [List.nil_append] at final
  rw [final] at offsets
  have bound := chainSite_length offsets
  constructor
  · rw [final]
    exact chainSite_intact plain (clean_requests clean) bound
  · rintro front request attempt reply back rfl
    obtain ⟨middle, before, after⟩ := run.split
    have reached := run_chain plain before
      (reopensClean_of_clean (by simp) fun call member => clean call (by simp [member]))
    rw [List.nil_append] at reached
    cases after with
    | cons step rest =>
        obtain ⟨effect, allowed⟩ := step
        rw [reached, append_site allowed] at effect
        refine ⟨_, (Prod.mk.inj effect).1.symm, ?_⟩
        simp only [requestsOf, List.filterMap_append, List.length_append, List.filterMap_cons,
          List.length_cons] at bound
        rw [UInt64.toNat_ofNat', Nat.mod_eq_of_lt (by simp only [requestsOf]; omega)]

/-! A small log, and a digest that agrees with SHA-512 on what its chain is made from. -/

def sampleGenesis : Genesis := { random := List.replicate 16 7, clock := 0 }

def sampleJson : Bytes := ascii "\x7b\"k\":\"v\"\x7d"

def forgedJson : Bytes := ascii "\x7b\"k\":\"w\"\x7d"

def aliceRequest : AuditRequest where
  action := .authSuccess
  actor := ascii "alice"
  target := ascii "node-1"
  paramsJson := sampleJson
  now := 1

def bobRequest : AuditRequest where
  action := .authSuccess
  actor := ascii "bob"
  target := ascii "node-2"
  paramsJson := sampleJson
  now := 2

def digestBytes (digest : Nat) : Bytes := (leBytes 64 digest).reverse

def sampleDigests : List (Bytes × Nat) :=
  let genesis := 0xb1d5b7daa6204dd40661362508ef7e449b98b1c000e5c8102eb5e154ef84c85364ef4db9061b0b59d5a4f3670e87e99977b58ce27c367c4f9e72a1efa9f0f4f7
  let params := 0xe72ff2eaefaba84a7e59e39f97301023f4f1c30ea9fc44d8557c2c62637dcdd783ffff37f8a93e1f0fc57ddf6d317b59a03133accd9b9457ebce0449b5a5bdd4
  let forged := 0xaa691f0e6cff04f27194b30d029906699f0765a89b5aebfca98da09755ec672588042e0e9687dd6457ce92aa2ad63b9bf0fa7e4e9b78a8f35d88f08eb108e5f4
  let first := 0x3d215c7a5dd8f7650363ca0d44a50471ef972f80262b5422680483ed9ddf5d3c1125c8c3a70e0d56a2f760aae3de748d464d8e9676a05087d1439042a45e172f
  let firstForged := 0xca87de6486293e675c4b5bd1357e8b63d82407b6be316dc4b1611696a4ddc65479dc2fac816203bcc5325ce3861e1d2deeae290d360adcc4e4dcb5c7865abbd2
  let second := 0xd05e1acdc5322421e276b209931c0e03e7014d165205b263ca74c6bfa9d5104e14ddcc1f0aa591e375cf3293305a571cc59a9712c03074e19aa5f95871240db3
  let secondForged := 0x940426e43c6c505614982d6419aba2afe54c7e6ea60fd91e1712975dc2fa0009471b1158db1a23e5c0b2fea89149dfc5f39f8364763d7c9461ec6542d982c2dd
  let linked := fun head paramsHash sequence =>
    linkInput (hexOf (digestBytes head)) (hexOf (digestBytes paramsHash)) sequence .authSuccess
  [(sampleGenesis.seed, genesis), (sampleJson, params), (forgedJson, forged),
    (linked genesis params 1, first), (linked genesis forged 1, firstForged),
    (linked first params 2, second), (linked firstForged params 2, secondForged)]

def sampleSha512 (data : Bytes) : Bytes :=
  match sampleDigests.lookup data with
  | some digest => digestBytes digest
  | none => List.replicate 65 0 ++ data

@[irreducible] def sampleRun : List AuditCall × AuditSite :=
  AuditSite.execAll sampleSha512
    [.append aliceRequest {}, .reopen sampleGenesis, .append bobRequest {}]
    (AuditSite.opened sampleSha512 none sampleGenesis)

def sampleText : Bytes := sampleRun.2.file.getD []

theorem sampleRun_file : sampleRun.2.file = some sampleText := by decide +kernel

theorem sampleRun_run : Run (AuditStep sampleSha512)
    (AuditSite.opened sampleSha512 none sampleGenesis) sampleRun.1 sampleRun.2 := by
  rw [sampleRun]
  exact audit_execAll_run (by decide) _

theorem audit_integrity_restart :
    AuditIntact sampleSha512 sampleRun.2 [aliceRequest, bobRequest] := by
  have requests : requestsOf sampleRun.1 = [aliceRequest, bobRequest] := by decide +kernel
  rw [← requests]
  exact (audit_integrity (by decide) sampleRun_run (by decide +kernel) (by decide +kernel)).1

end Udaf
