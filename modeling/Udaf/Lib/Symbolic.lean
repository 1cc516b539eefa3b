import Mathlib.Data.List.Basic

/-!
Symbolic bytes: public constants, fresh random draws, bytes of a long-term secret,
and the bytes of derived keys, tags and sealed texts, each standing for the term it
is a byte of. `Knows` is what an attacker gathers who hears all traffic and applies
every operation, `Exposed` a closed set that bounds it: what is exposed under a
guarded key was issued by a holder of that key.
-/

namespace Symbolic

inductive Label where
  | byte (value : UInt8)
  | random (draw index : Nat)
  | noise (draw index : Nat)
  | secret (index : Nat)
  deriving DecidableEq, Repr

inductive Sym where
  | name (label : Label)
  | kdf (salt ikm : List Sym) (info : String) (index : Nat)
  | mac (key message : List Sym) (index : Nat)
  | aead (key nonce aad plain : List Sym) (index : Nat)
  deriving Repr

namespace Sym

mutual

def decEq : (first second : Sym) → Decidable (first = second)
  | .name label, .name other => decidable_of_iff (label = other) (by simp)
  | .kdf salt ikm info index, .kdf salt' ikm' info' index' =>
      have := listDecEq salt salt'
      have := listDecEq ikm ikm'
      decidable_of_iff (salt = salt' ∧ ikm = ikm' ∧ info = info' ∧ index = index') (by simp)
  | .mac key message index, .mac key' message' index' =>
      have := listDecEq key key'
      have := listDecEq message message'
      decidable_of_iff (key = key' ∧ message = message' ∧ index = index') (by simp)
  | .aead key nonce aad plain index, .aead key' nonce' aad' plain' index' =>
      have := listDecEq key key'
      have := listDecEq nonce nonce'
      have := listDecEq aad aad'
      have := listDecEq plain plain'
      decidable_of_iff
        (key = key' ∧ nonce = nonce' ∧ aad = aad' ∧ plain = plain' ∧ index = index') (by simp)
  | .name .., .kdf .. | .name .., .mac .. | .name .., .aead .. => isFalse nofun
  | .kdf .., .name .. | .kdf .., .mac .. | .kdf .., .aead .. => isFalse nofun
  | .mac .., .name .. | .mac .., .kdf .. | .mac .., .aead .. => isFalse nofun
  | .aead .., .name .. | .aead .., .kdf .. | .aead .., .mac .. => isFalse nofun

def listDecEq : (first second : List Sym) → Decidable (first = second)
  | [], [] => isTrue rfl
  | [], _ :: _ => isFalse nofun
  | _ :: _, [] => isFalse nofun
  | first :: rest, second :: others =>
      have := decEq first second
      have := listDecEq rest others
      decidable_of_iff (first = second ∧ rest = others) (by simp)

end

instance : DecidableEq Sym := decEq

end Sym

def randomBytes (draw length : Nat) : List Sym :=
  (List.range length).map fun index => .name (.random draw index)

def noiseBytes (draw length : Nat) : List Sym :=
  (List.range length).map fun index => .name (.noise draw index)

def secretBytes (length : Nat) : List Sym :=
  (List.range length).map fun index => .name (.secret index)

def kdfBytes (salt ikm : List Sym) (info : String) (length : Nat) : List Sym :=
  (List.range length).map (Sym.kdf salt ikm info)

def macBytes (key message : List Sym) (length : Nat) : List Sym :=
  (List.range length).map (Sym.mac key message)

def aeadBytes (key nonce aad plain : List Sym) (length : Nat) : List Sym :=
  (List.range length).map (Sym.aead key nonce aad plain)

@[simp] theorem randomBytes_length (draw length : Nat) : (randomBytes draw length).length = length := by
  simp [randomBytes]

@[simp] theorem noiseBytes_length (draw length : Nat) : (noiseBytes draw length).length = length := by
  simp [noiseBytes]

@[simp] theorem secretBytes_length (length : Nat) : (secretBytes length).length = length := by
  simp [secretBytes]

@[simp] theorem kdfBytes_length (salt ikm : List Sym) (info : String) (length : Nat) :
    (kdfBytes salt ikm info length).length = length := by
  simp [kdfBytes]

@[simp] theorem macBytes_length (key message : List Sym) (length : Nat) :
    (macBytes key message length).length = length := by
  simp [macBytes]

@[simp] theorem aeadBytes_length (key nonce aad plain : List Sym) (length : Nat) :
    (aeadBytes key nonce aad plain length).length = length := by
  simp [aeadBytes]

theorem map_range_head {form other : Nat → Sym} {length : Nat} (positive : 0 < length)
    (same : (List.range length).map form = (List.range length).map other) : form 0 = other 0 := by
  have heads := congrArg (fun symbols : List Sym => symbols[0]?) same
  simpa [List.getElem?_range, positive] using heads

theorem kdfBytes_injective {salt ikm salt' ikm' : List Sym} {info info' : String} {length : Nat}
    (positive : 0 < length) (same : kdfBytes salt ikm info length = kdfBytes salt' ikm' info' length) :
    salt = salt' ∧ ikm = ikm' ∧ info = info' := by
  have heads := map_range_head positive same
  simp only [Sym.kdf.injEq, and_true] at heads
  exact heads

/-- The text under a sealed one, if it was sealed with these inputs and is whole. -/
def openAead (key nonce aad text : List Sym) (tagLength : Nat) : Option (List Sym) :=
  match text with
  | .aead _ _ _ plain _ :: _ =>
      if text = aeadBytes key nonce aad plain (plain.length + tagLength) then some plain else none
  | _ => none

theorem openAead_some {key nonce aad text plain : List Sym} {tagLength : Nat}
    (opened : openAead key nonce aad text tagLength = some plain) :
    text = aeadBytes key nonce aad plain (plain.length + tagLength) := by
  unfold openAead at opened
  split at opened
  · split at opened
    · rename_i whole
      cases opened
      exact whole
    · cases opened
  · cases opened

theorem openAead_aeadBytes (key nonce aad plain : List Sym) {tagLength : Nat}
    (positive : 0 < tagLength) :
    openAead key nonce aad (aeadBytes key nonce aad plain (plain.length + tagLength)) tagLength =
      some plain := by
  obtain ⟨length, total⟩ := Nat.exists_eq_succ_of_ne_zero (n := plain.length + tagLength) (by omega)
  have shape : aeadBytes key nonce aad plain (plain.length + tagLength) =
      .aead key nonce aad plain 0 ::
        (List.range length).map fun index => .aead key nonce aad plain (index + 1) := by
    rw [aeadBytes, total, List.range_succ_eq_map, List.map_cons, List.map_map]
    rfl
  unfold openAead
  rw [shape]
  simp only
  rw [if_pos shape.symm]

/-- What an attacker gathers who hears `traffic`. -/
inductive Knows (traffic : List (List Sym)) : Sym → Prop where
  | heard {message : List Sym} {symbol : Sym} :
      message ∈ traffic → symbol ∈ message → Knows traffic symbol
  | byte {value : UInt8} : Knows traffic (.name (.byte value))
  | noise {draw index : Nat} : Knows traffic (.name (.noise draw index))
  | kdf {salt ikm : List Sym} {info : String} {index : Nat} :
      (∀ symbol ∈ salt, Knows traffic symbol) → (∀ symbol ∈ ikm, Knows traffic symbol) →
      Knows traffic (.kdf salt ikm info index)
  | mac {key message : List Sym} {index : Nat} :
      (∀ symbol ∈ key, Knows traffic symbol) → (∀ symbol ∈ message, Knows traffic symbol) →
      Knows traffic (.mac key message index)
  | aead {key nonce aad plain : List Sym} {index : Nat} :
      (∀ symbol ∈ key, Knows traffic symbol) → (∀ symbol ∈ nonce, Knows traffic symbol) →
      (∀ symbol ∈ aad, Knows traffic symbol) → (∀ symbol ∈ plain, Knows traffic symbol) →
      Knows traffic (.aead key nonce aad plain index)
  | opened {key nonce aad plain : List Sym} {index : Nat} {symbol : Sym} :
      (∀ symbol ∈ key, Knows traffic symbol) → Knows traffic (.aead key nonce aad plain index) →
      symbol ∈ plain → Knows traffic symbol

section Exposure

variable (macs : List Sym → List Sym → Prop)
variable (seals : List Sym → List Sym → List Sym → List Sym → Prop)

/-- Everything but the secret, what is derived from it, and what its holders did not issue. -/
inductive Exposed : Sym → Prop where
  | byte {value : UInt8} : Exposed (.name (.byte value))
  | random {draw index : Nat} : Exposed (.name (.random draw index))
  | noise {draw index : Nat} : Exposed (.name (.noise draw index))
  | kdf {salt ikm : List Sym} {info : String} {index : Nat} :
      (∀ symbol ∈ ikm, Exposed symbol) → Exposed (.kdf salt ikm info index)
  | mac {key message : List Sym} {index : Nat} :
      (∀ symbol ∈ key, Exposed symbol) → Exposed (.mac key message index)
  | issuedMac {key message : List Sym} {index : Nat} :
      macs key message → Exposed (.mac key message index)
  | aead {key nonce aad plain : List Sym} {index : Nat} :
      (∀ symbol ∈ key, Exposed symbol) → (∀ symbol ∈ plain, Exposed symbol) →
      Exposed (.aead key nonce aad plain index)
  | issuedAead {key nonce aad plain : List Sym} {index : Nat} :
      seals key nonce aad plain → Exposed (.aead key nonce aad plain index)

def Guarded (key : List Sym) : Prop := ¬ ∀ symbol ∈ key, Exposed macs seals symbol

variable {macs seals}

theorem Exposed.mono {macs' : List Sym → List Sym → Prop}
    {seals' : List Sym → List Sym → List Sym → List Sym → Prop}
    (moreMacs : ∀ {key message}, macs key message → macs' key message)
    (moreSeals : ∀ {key nonce aad plain}, seals key nonce aad plain → seals' key nonce aad plain)
    {symbol : Sym} (exposed : Exposed macs seals symbol) : Exposed macs' seals' symbol := by
  induction exposed with
  | byte => exact .byte
  | random => exact .random
  | noise => exact .noise
  | kdf _ ikm => exact .kdf ikm
  | mac _ key => exact .mac key
  | issuedMac issued => exact .issuedMac (moreMacs issued)
  | aead _ _ key plain => exact .aead key plain
  | issuedAead issued => exact .issuedAead (moreSeals issued)

theorem secret_guarded {length : Nat} (positive : 0 < length) :
    Guarded macs seals (secretBytes length) := by
  intro all
  have first := all (.name (.secret 0)) (by simpa [secretBytes] using positive)
  cases first

theorem kdf_guarded {salt ikm : List Sym} {info : String} {length : Nat} (positive : 0 < length)
    (guarded : Guarded macs seals ikm) : Guarded macs seals (kdfBytes salt ikm info length) := by
  intro all
  have first := all (.kdf salt ikm info 0) (by simpa [kdfBytes] using positive)
  cases first with
  | kdf exposed => exact guarded exposed

theorem kdf_hidden {salt ikm : List Sym} {info : String} {length : Nat} {symbol : Sym}
    (guarded : Guarded macs seals ikm) (member : symbol ∈ kdfBytes salt ikm info length) :
    ¬ Exposed macs seals symbol := by
  rw [kdfBytes, List.mem_map] at member
  obtain ⟨index, -, rfl⟩ := member
  intro exposed
  cases exposed with
  | kdf ikm => exact guarded ikm

/-- The closed set bounds the attacker, as long as what holders issue is under guarded keys. -/
theorem Knows.exposed {traffic : List (List Sym)}
    (heard : ∀ message ∈ traffic, ∀ symbol ∈ message, Exposed macs seals symbol)
    (guarded : ∀ {key nonce aad plain}, seals key nonce aad plain → Guarded macs seals key)
    {symbol : Sym} (known : Knows traffic symbol) : Exposed macs seals symbol := by
  induction known with
  | heard member inside => exact heard _ member _ inside
  | byte => exact .byte
  | noise => exact .noise
  | kdf _ _ _ ikm => exact .kdf ikm
  | mac _ _ key _ => exact .mac key
  | aead _ _ _ _ key _ _ plain => exact .aead key plain
  | opened _ _ inside key sealed =>
      cases sealed with
      | aead _ plain => exact plain _ inside
      | issuedAead issued => exact absurd key (guarded issued)

theorem mac_issued {key message : List Sym} {length : Nat} (positive : 0 < length)
    (guarded : Guarded macs seals key)
    (exposed : ∀ symbol ∈ macBytes key message length, Exposed macs seals symbol) :
    macs key message := by
  have first := exposed (.mac key message 0) (by simpa [macBytes] using positive)
  cases first with
  | mac known => exact absurd known guarded
  | issuedMac issued => exact issued

theorem aead_issued {key nonce aad plain : List Sym} {length : Nat} (positive : 0 < length)
    (guarded : Guarded macs seals key)
    (exposed : ∀ symbol ∈ aeadBytes key nonce aad plain length, Exposed macs seals symbol) :
    seals key nonce aad plain := by
  have first := exposed (.aead key nonce aad plain 0) (by simpa [aeadBytes] using positive)
  cases first with
  | aead known _ => exact absurd known guarded
  | issuedAead issued => exact issued

end Exposure

end Symbolic
