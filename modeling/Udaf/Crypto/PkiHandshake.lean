import Udaf.Crypto.Core
import Udaf.Lib.DuplexStream

/-!
`PkiHandshake` of `crypto/pki.cpp`: a handshake that is stepped to its end, and the calls on the
finished connection. What OpenSSL answers is an argument, and what it promises of its answers is
stated apart; a connection is a pair of ordered streams, as TLS keeps them.
-/

namespace Udaf

open ByteString DuplexStream Runs

inductive TlsMode where
  | serverPsk
  | clientPsk
  | serverPki
  | clientPki
  deriving DecidableEq, Repr

structure TlsContext where
  mode : TlsMode
  valid : Bool := true
  deriving DecidableEq, Repr

inductive PkiHandshakeStage where
  | init
  | wantsRead
  | wantsWrite
  | done
  | failed
  deriving DecidableEq, Repr

inductive SslCall where
  | accept
  | connect
  deriving DecidableEq, Repr

inductive SslOutcome where
  | finished
  | wantRead
  | wantWrite
  | other
  deriving DecidableEq, Repr

/-- What `SSL_write` makes of some bytes and their number: its result, and the bytes on their way. -/
abbrev SslWrite := Bytes → Int → Int × Bytes

inductive SslRead where
  | bytes (chunk : Bytes)
  | failed
  deriving DecidableEq, Repr

structure PkiHandshake where
  ctx : TlsContext
  fd : Int
  state : SslCall
  stage : PkiHandshakeStage := .init
  deriving DecidableEq, Repr

namespace PkiHandshake

def create (ctx : Option TlsContext) (fd : Int) (sslNew : Bool) : Option PkiHandshake :=
  match ctx with
  | none => none
  | some ctx =>
      if !ctx.valid || fd < 0 then none
      else if !sslNew then none
      else some {
        ctx := ctx
        fd := fd
        state := if ctx.mode = .serverPki then .accept else .connect }

def step (handshake : PkiHandshake) (ssl : SslCall → SslOutcome) : PkiHandshakeStage × PkiHandshake :=
  if handshake.stage = .done || handshake.stage = .failed then (handshake.stage, handshake)
  else
    let stage :=
      match ssl (if handshake.ctx.mode = .serverPki then .accept else .connect) with
      | .finished => .done
      | .wantRead => .wantsRead
      | .wantWrite => .wantsWrite
      | .other => .failed
    (stage, { handshake with stage := stage })

/-- `peer` is the digest of the certificate of the peer, if there is one and it can be computed. -/
def peerFingerprint (handshake : PkiHandshake) (peer : Option (Option Bytes)) : Except ErrorCode Bytes :=
  if handshake.stage ≠ .done then .error .notImplemented
  else
    match peer with
    | none => .error .bizFileNotFound
    | some none => .error .internal
    | some (some digest) => .ok digest

def encrypt (handshake : PkiHandshake) (plaintext : Bytes) (write : SslWrite) :
    Except ErrorCode Bytes × Bytes :=
  if handshake.stage ≠ .done then (.error .notImplemented, [])
  else
    let out := List.replicate (plaintext.length + 32) 0
    let (n, sent) := write plaintext (cInt plaintext.length)
    if n ≤ 0 then (.error .internal, sent)
    -- the buffer was never handed to OpenSSL
    else (.ok (resize out n.toNat), sent)

def decrypt (handshake : PkiHandshake) (ciphertext : Bytes) (write : SslWrite) (read : SslRead) :
    Except ErrorCode Bytes × Bytes × Bytes :=
  if handshake.stage ≠ .done then (.error .notImplemented, [], [])
  else
    let (n, sent) := write ciphertext (cInt ciphertext.length)
    if n ≤ 0 then (.error .internal, sent, [])
    else
      match read with
      | .failed => (.error .internal, sent, [])
      | .bytes chunk => (.ok chunk, sent, chunk)

end PkiHandshake

inductive PkiOp where
  | step (ssl : SslCall → SslOutcome)
  | peerFingerprint (peer : Option (Option Bytes))
  | encrypt (plaintext : Bytes) (write : SslWrite)
  | decrypt (ciphertext : Bytes) (write : SslWrite) (read : SslRead)

inductive PkiReply where
  | stage (stage : PkiHandshakeStage)
  | bytes (result : Except ErrorCode Bytes)

namespace PkiOp

def written : PkiOp → Option (Int × Bytes)
  | .encrypt plaintext write => some (write plaintext (cInt plaintext.length))
  | .decrypt ciphertext write _ => some (write ciphertext (cInt ciphertext.length))
  | _ => none

def given : PkiOp → Bytes
  | .encrypt plaintext _ => plaintext
  | .decrypt ciphertext _ _ => ciphertext
  | _ => []

/-- Without partial writes a write sends all that it was given, or fails behind a part of it. -/
structure Lawful (op : PkiOp) : Prop where
  whole : ∀ n sent, op.written = some (n, sent) → 0 < n →
    n = cInt op.given.length ∧ sent = op.given.take n.toNat
  part : ∀ n sent, op.written = some (n, sent) → n ≤ 0 → sent <+: op.given

end PkiOp

structure PkiCall where
  who : Bool
  op : PkiOp
  reply : PkiReply

/-- The reply of a call, what it puts on the connection and takes from it, and the end after it. -/
def PkiHandshake.exec (handshake : PkiHandshake) : PkiOp → PkiReply × Bytes × Bytes × PkiHandshake
  | .step ssl =>
      let (stage, next) := handshake.step ssl
      (.stage stage, [], [], next)
  | .peerFingerprint peer => (.bytes (handshake.peerFingerprint peer), [], [], handshake)
  | .encrypt plaintext write =>
      let (result, sent) := handshake.encrypt plaintext write
      (.bytes result, sent, [], handshake)
  | .decrypt ciphertext write read =>
      let (result, sent, taken) := handshake.decrypt ciphertext write read
      (.bytes result, sent, taken, handshake)

structure PkiLink where
  ends : Bool → PkiHandshake
  wire : Wire UInt8

namespace PkiLink

structure Opened (link : PkiLink) : Prop where
  created : ∀ who, ∃ ctx fd, PkiHandshake.create (some ctx) fd true = some (link.ends who)
  wire : link.wire = .empty

inductive Step : PkiLink → PkiCall → PkiLink → Prop where
  | call {link : PkiLink} {who : Bool} {op : PkiOp} {reply : PkiReply} {out into : Bytes}
      {next : PkiHandshake} (effect : (link.ends who).exec op = (reply, out, into, next))
      (fits : into.length ≤ 4096) (offered : (link.wire.put who out).Offers who into) :
      Step link ⟨who, op, reply⟩
        ⟨Function.update link.ends who next, (link.wire.put who out).take who into⟩

end PkiLink

namespace PkiCall

def decrypted (call : PkiCall) : Bytes :=
  match call.op, call.reply with
  | .decrypt _ _ _, .bytes (.ok plaintext) => plaintext
  | _, _ => []

def Puts (call : PkiCall) (out : Bytes) : Prop :=
  match call.op, call.reply with
  | .encrypt plaintext _, .bytes (.ok ciphertext) =>
      out = plaintext.take out.length ∧ ciphertext = List.replicate out.length 0 ∧
        (out.length : Int) = cInt plaintext.length
  | .decrypt ciphertext _ _, .bytes (.ok _) =>
      out = ciphertext.take out.length ∧ (out.length : Int) = cInt ciphertext.length
  | .encrypt data _, .bytes (.error code) | .decrypt data _ _, .bytes (.error code) =>
      out <+: data ∧ (code = .notImplemented → out = [])
  | _, _ => out = []

def Finishes (call : PkiCall) : Prop := call.reply = .stage .done

def Refused (call : PkiCall) : Prop := call.reply = .bytes (.error .notImplemented)

def WriteFailed (call : PkiCall) : Prop :=
  ¬ call.Refused ∧ ∃ n sent, call.op.written = some (n, sent) ∧ n ≤ 0

end PkiCall

theorem cInt_le (size : Nat) : cInt size ≤ size := by
  have wraps : cInt size = (size : Int).bmod (2 ^ 32) := Int32.toInt_ofNat' ..
  rw [wraps, Int.bmod_def]
  split <;> omega

theorem PkiOp.Lawful.sends {op : PkiOp} (lawful : op.Lawful) {n : Int} {sent : Bytes}
    (wrote : op.written = some (n, sent)) (positive : 0 < n) :
    n = cInt op.given.length ∧ sent = op.given.take sent.length ∧ (sent.length : Int) = n := by
  obtain ⟨size, text⟩ := lawful.whole n sent wrote positive
  have most := cInt_le op.given.length
  have length : sent.length = n.toNat := by
    rw [text, List.length_take]
    omega
  exact ⟨size, by rw [length]; exact text, by omega⟩

theorem PkiOp.Lawful.sends_part {op : PkiOp} (lawful : op.Lawful) {n : Int} {sent : Bytes}
    (wrote : op.written = some (n, sent)) : sent <+: op.given := by
  by_cases positive : 0 < n
  · rw [(lawful.whole n sent wrote positive).2]
    exact List.take_prefix _ _
  · exact lawful.part n sent wrote (by omega)

namespace PkiHandshake

variable {handshake next : PkiHandshake} {op : PkiOp} {reply : PkiReply} {out into : Bytes}

theorem encrypt_puts {plaintext : Bytes} {write : SslWrite}
    (lawful : (PkiOp.encrypt plaintext write).Lawful) (who : Bool) :
    PkiCall.Puts ⟨who, .encrypt plaintext write, .bytes (handshake.encrypt plaintext write).1⟩
      (handshake.encrypt plaintext write).2 := by
  rw [encrypt]
  split
  · exact ⟨List.nil_prefix, fun _ => rfl⟩
  · cases wrote : write plaintext (cInt plaintext.length) with
    | mk n sent =>
        have answer := congrArg some wrote
        simp only
        split
        · exact ⟨lawful.sends_part answer, fun same => by cases same⟩
        · rename_i positive
          obtain ⟨size, text, length⟩ := lawful.sends answer (by omega)
          have most := cInt_le plaintext.length
          rw [PkiOp.given] at size text
          refine ⟨text, ?_, by rw [length, size]⟩
          rw [← length, Int.toNat_natCast, resize, List.take_replicate, List.length_replicate]
          rw [Nat.min_eq_left (by omega), Nat.sub_eq_zero_of_le (by omega)]
          simp

theorem decrypt_puts {ciphertext : Bytes} {write : SslWrite} {read : SslRead}
    (lawful : (PkiOp.decrypt ciphertext write read).Lawful) (who : Bool) :
    PkiCall.Puts ⟨who, .decrypt ciphertext write read,
        .bytes (handshake.decrypt ciphertext write read).1⟩
      (handshake.decrypt ciphertext write read).2.1 := by
  rw [decrypt]
  split
  · exact ⟨List.nil_prefix, fun _ => rfl⟩
  · cases wrote : write ciphertext (cInt ciphertext.length) with
    | mk n sent =>
        have answer := congrArg some wrote
        have part := lawful.sends_part answer
        simp only
        split
        · exact ⟨part, fun same => by cases same⟩
        · rename_i positive
          obtain ⟨size, text, length⟩ := lawful.sends answer (by omega)
          cases read with
          | failed => exact ⟨part, fun same => by cases same⟩
          | bytes chunk => exact ⟨text, by rw [length, size]; rfl⟩

theorem decrypt_takes (ciphertext : Bytes) (write : SslWrite) (read : SslRead) (who : Bool) :
    (handshake.decrypt ciphertext write read).2.2 = PkiCall.decrypted ⟨who,
      .decrypt ciphertext write read, .bytes (handshake.decrypt ciphertext write read).1⟩ := by
  rw [decrypt]
  split
  · rfl
  · cases wrote : write ciphertext (cInt ciphertext.length) with
    | mk n sent =>
        simp only
        split
        · rfl
        · cases read <;> rfl

theorem exec_shows (effect : handshake.exec op = (reply, out, into, next)) (who : Bool) :
    (op.Lawful → PkiCall.Puts ⟨who, op, reply⟩ out) ∧ into = PkiCall.decrypted ⟨who, op, reply⟩ := by
  cases op with
  | step ssl => cases effect; exact ⟨fun _ => rfl, rfl⟩
  | peerFingerprint peer => cases effect; exact ⟨fun _ => rfl, rfl⟩
  | encrypt plaintext write => cases effect; exact ⟨fun lawful => encrypt_puts lawful who, rfl⟩
  | decrypt ciphertext write read =>
      cases effect
      exact ⟨fun lawful => decrypt_puts lawful who, decrypt_takes ciphertext write read who⟩

theorem step_stage (ssl : SslCall → SslOutcome) :
    (handshake.step ssl).2.stage = (handshake.step ssl).1 ∧
      (handshake.stage = .done ∨ handshake.stage = .failed →
        (handshake.step ssl).1 = handshake.stage) := by
  rw [step]
  split
  · exact ⟨rfl, fun _ => rfl⟩
  · rename_i open_
    exact ⟨rfl, fun settled => absurd (by simpa using settled) open_⟩

theorem exec_stage (effect : handshake.exec op = (reply, out, into, next)) :
    (next.stage = handshake.stage ∧ ∀ stage, reply ≠ .stage stage) ∨ reply = .stage next.stage := by
  cases op with
  | step ssl =>
      obtain ⟨rfl, -, -, rfl⟩ := by simpa only [exec, Prod.mk.injEq] using effect
      exact Or.inr (congrArg PkiReply.stage (step_stage ssl).1.symm)
  | peerFingerprint peer => cases effect; exact Or.inl ⟨rfl, fun _ same => by cases same⟩
  | encrypt plaintext write => cases effect; exact Or.inl ⟨rfl, fun _ same => by cases same⟩
  | decrypt ciphertext write read => cases effect; exact Or.inl ⟨rfl, fun _ same => by cases same⟩

theorem exec_final (effect : handshake.exec op = (reply, out, into, next))
    (final : handshake.stage = .done ∨ handshake.stage = .failed) : next.stage = handshake.stage := by
  cases op with
  | step ssl =>
      obtain ⟨rfl, -, -, rfl⟩ := by simpa only [exec, Prod.mk.injEq] using effect
      exact (step_stage ssl).1.trans ((step_stage ssl).2 final)
  | peerFingerprint peer => cases effect; rfl
  | encrypt plaintext write => cases effect; rfl
  | decrypt ciphertext write read => cases effect; rfl

theorem exec_done (effect : handshake.exec op = (reply, out, into, next)) (who : Bool) :
    next.stage = .done ↔ handshake.stage = .done ∨ PkiCall.Finishes ⟨who, op, reply⟩ := by
  have keeps := exec_final effect
  constructor
  · intro settled
    rcases exec_stage effect with ⟨same, -⟩ | told
    · exact Or.inl (same.symm.trans settled)
    · exact Or.inr (told.trans (congrArg PkiReply.stage settled))
  · rintro (settled | finish)
    · exact (keeps (Or.inl settled)).trans settled
    · rcases exec_stage effect with ⟨-, other⟩ | told
      · exact absurd finish (other .done)
      · exact PkiReply.stage.inj (told.symm.trans finish)

end PkiHandshake

namespace PkiLink

variable {start link next final : PkiLink} {calls past : List PkiCall} {call : PkiCall}

/-- OpenSSL keeps its promise on each end until a write of that end fails; after that the same write
would have to be repeated. -/
def Documented (calls : List PkiCall) : Prop :=
  ∀ front call back, calls = front ++ call :: back →
    (∀ earlier ∈ front, earlier.who = call.who → ¬ earlier.WriteFailed) → call.op.Lawful

/-- The end writes nothing more once one of its writes has failed. -/
def Orderly (calls : List PkiCall) (who : Bool) : Prop :=
  ∀ front call back, calls = front ++ call :: back → call.who = who → call.op.written ≠ none →
    ∀ earlier ∈ front, earlier.who = who → ¬ earlier.WriteFailed

theorem Documented.lawful (documented : Documented calls) (member : call ∈ calls)
    (orderly : Orderly calls call.who) : call.op.Lawful := by
  obtain ⟨front, back, shape⟩ := List.append_of_mem member
  by_cases writes : call.op.written = none
  · constructor
    · intro n sent wrote
      rw [writes] at wrote
      cases wrote
    · intro n sent wrote
      rw [writes] at wrote
      cases wrote
  · exact documented front call back shape (orderly front call back shape rfl writes)

def Shows (orderly : Bool → Prop) (call : PkiCall) (exchange : Exchange UInt8) : Prop :=
  exchange.who = call.who ∧ (orderly call.who → call.Puts exchange.out) ∧
    exchange.into = call.decrypted

theorem Step.wire {orderly : Bool → Prop} (step : Step link call next)
    (lawful : orderly call.who → call.op.Lawful) :
    ∃ exchange, Shows orderly call exchange ∧ DuplexStream.Step link.wire exchange next.wire := by
  cases step with
  | call effect fits offered =>
      rename_i who op reply out into after
      obtain ⟨puts, takes⟩ := PkiHandshake.exec_shows effect who
      exact ⟨⟨who, out, into⟩, ⟨rfl, fun well => puts (lawful well), takes⟩, .exchange offered⟩

theorem run_wire {orderly : Bool → Prop} (run : Run Step start calls final)
    (lawful : ∀ call ∈ calls, orderly call.who → call.op.Lawful) : ∃ exchanges,
    List.Forall₂ (Shows orderly) calls exchanges ∧
      Run DuplexStream.Step start.wire exchanges final.wire := by
  induction run with
  | nil => exact ⟨[], .nil, .nil⟩
  | cons step _ ih =>
      obtain ⟨exchange, shows, first⟩ := step.wire (lawful _ List.mem_cons_self)
      obtain ⟨exchanges, rest, run⟩ := ih fun call member => lawful call (List.mem_cons_of_mem _ member)
      exact ⟨exchange :: exchanges, .cons shows rest, .cons first run⟩

structure Told (past : List PkiCall) (link : PkiLink) : Prop where
  done : ∀ who, (link.ends who).stage = .done ↔
    ∃ call ∈ past, call.who = who ∧ call.Finishes
  final : ∀ call ∈ past, ∀ stage, stage = .done ∨ stage = .failed → call.reply = .stage stage →
    (link.ends call.who).stage = stage

theorem Told.step (told : Told past link) (step : Step link call next) : Told (past ++ [call]) next := by
  cases step with
  | call effect fits offered =>
      rename_i who op reply out into after
      have replies := PkiHandshake.exec_stage effect
      have keeps := PkiHandshake.exec_final effect
      have finishes := PkiHandshake.exec_done effect who
      constructor
      · intro other
        by_cases same : other = who
        · subst same
          simp only [Function.update_self, finishes, told.done]
          constructor
          · rintro (⟨call, member, mine, settled⟩ | finish)
            · exact ⟨call, by simp [member], mine, settled⟩
            · exact ⟨_, List.mem_append_right past List.mem_cons_self, rfl, finish⟩
          · rintro ⟨call, member, mine, settled⟩
            rcases List.mem_append.mp member with before | last
            · exact Or.inl ⟨call, before, mine, settled⟩
            · rw [List.mem_singleton.mp last] at settled
              exact Or.inr settled
        · simp only [Function.update_of_ne same, told.done]
          constructor
          · rintro ⟨call, member, mine, settled⟩
            exact ⟨call, by simp [member], mine, settled⟩
          · rintro ⟨call, member, mine, settled⟩
            rcases List.mem_append.mp member with before | last
            · exact ⟨call, before, mine, settled⟩
            · rw [List.mem_singleton.mp last] at mine
              exact absurd mine.symm same
      · intro call member stage settled answer
        rcases List.mem_append.mp member with before | last
        · have stood := told.final call before stage settled answer
          by_cases same : call.who = who
          · rw [same] at stood ⊢
            simp only [Function.update_self]
            exact (keeps (stood ▸ settled)).trans stood
          · simp only [Function.update_of_ne same]
            exact stood
        · rw [List.mem_singleton.mp last] at answer ⊢
          simp only [Function.update_self]
          rcases replies with ⟨-, other⟩ | told
          · exact absurd answer (other stage)
          · exact PkiReply.stage.inj (told.symm.trans answer)

def writesAll : SslWrite := fun data num => (num, data.take num.toNat)

def sampleCalls : List PkiCall :=
  [⟨true, .step fun _ => .finished, .stage .done⟩, ⟨false, .step fun _ => .finished, .stage .done⟩,
    ⟨true, .encrypt [1, 2] writesAll, .bytes (.ok [0, 0])⟩,
    ⟨false, .decrypt [0, 0] writesAll (.bytes [1, 2]), .bytes (.ok [1, 2])⟩,
    ⟨true, .decrypt [9] writesAll (.bytes [0, 0]), .bytes (.ok [0, 0])⟩]

end PkiLink

end Udaf
