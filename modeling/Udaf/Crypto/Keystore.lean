import Udaf.Core.ErrorCode
import Udaf.Lib.FileNames
import Udaf.Lib.OutStream
import Mathlib.Logic.Function.Basic

/-!
`crypto/keystore.cpp`: the file of the PSK, which is written beside the old one and then renamed
over it. The magic number stands in the file as the bytes of a little-endian machine.
-/

namespace Udaf

open ByteString FileNames OutStream

namespace Keystore

def pskFileMagic : Nat := 0x50534B01

def pskLen : Nat := 32

/-- A number that is cut short keeps the zeros it was set to. -/
def loadPskFromFile (files : Files) (path : Bytes) : Except ErrorCode Bytes :=
  match files (cString path) with
  | none => .error .bizFileNotFound
  | some content =>
      if leNat (content.take 4) ≠ pskFileMagic then .error .serializeVersionMismatch
      else
        let k := (content.drop 4).take pskLen
        if k.length ≠ pskLen then .error .protocolTruncatedBuffer else .ok k

structure SaveOutcome where
  createDirectories : Bool := true
  stream : Attempt := {}
  chmod : Bool := true
  rename : Bool := true

def tmpOf (path : Bytes) : Bytes := path ++ ascii ".tmp"

def pieces (psk : Bytes) : List Bytes := [leBytes 4 pskFileMagic, psk]

/-- The directories and the mode are not asked for their outcome. -/
def savePskToFile (files : Files) (path psk : Bytes) (outcome : SaveOutcome) :
    Except ErrorCode Unit × Files :=
  if psk.length ≠ pskLen then (.error .invalidArg, files)
  else if outcome.stream.opens = false then (.error .bizFileNotFound, files)
  else
    let (good, content) := print [] (pieces psk) outcome.stream
    let written := Function.update files (cString (tmpOf path)) (some content)
    if good = false then (.error .internal, written)
    else if outcome.rename = false then (.error .internal, written)
    else (.ok (), Function.update (Function.update written (cString (tmpOf path)) none) (cString path)
      (some content))

theorem path_ne_tmp {path : Bytes} (named : 0 ∉ path) : cString path ≠ cString (tmpOf path) := by
  intro same
  have plain : (0 : UInt8) ∉ ascii ".tmp" := by decide
  rw [tmpOf, cString_append named, cString_eq plain, cString_eq named] at same
  have length := congrArg List.length same
  rw [List.length_append] at length
  exact absurd length (by simp [ascii])

theorem load_eq {files others : Files} {path : Bytes}
    (same : files (cString path) = others (cString path)) :
    loadPskFromFile files path = loadPskFromFile others path := by
  rw [loadPskFromFile, loadPskFromFile, same]

theorem load_ok_iff {files : Files} {path psk : Bytes} :
    loadPskFromFile files path = .ok psk ↔
      psk.length = pskLen ∧
        ∃ rest, files (cString path) = some ((pieces psk).flatten ++ rest) := by
  unfold loadPskFromFile
  cases files (cString path) with
  | none => simp
  | some content =>
      constructor
      · intro loaded
        by_cases other : leNat (content.take 4) ≠ pskFileMagic
        · simp only [if_pos other, reduceCtorEq] at loaded
        · by_cases short : ((content.drop 4).take pskLen).length ≠ pskLen
          · simp only [if_neg other, if_pos short, reduceCtorEq] at loaded
          · simp only [if_neg other, if_neg short] at loaded
            cases loaded
            have long := not_not.mp short
            rw [List.length_take, List.length_drop, pskLen] at long
            have magic : content.take 4 = leBytes 4 pskFileMagic := by
              apply leNat_inj
              · rw [leBytes_length, List.length_take]
                omega
              · rw [leNat_leBytes 4 pskFileMagic (by decide)]
                exact not_not.mp other
            refine ⟨not_not.mp short, (content.drop 4).drop pskLen, ?_⟩
            rw [pieces, List.flatten_cons, List.flatten_singleton, List.append_assoc,
              List.take_append_drop, ← magic, List.take_append_drop]
      · rintro ⟨size, rest, shape⟩
        cases shape
        have magic := leNat_leBytes 4 pskFileMagic (by decide)
        have front := leBytes_length 4 pskFileMagic
        rw [pieces, List.flatten_cons, List.flatten_singleton, List.append_assoc]
        simp only [List.take_left' front, List.drop_left' front, List.take_left' size, magic, size, ne_eq,
          not_true_eq_false, if_false]

/-- The new key can be read after a success, and what was there before after a failure. -/
def Atomic (files : Files) (path psk : Bytes) (outcome : SaveOutcome) : Prop :=
  ((savePskToFile files path psk outcome).1 = .ok () →
      loadPskFromFile (savePskToFile files path psk outcome).2 path = .ok psk) ∧
    ∀ code, (savePskToFile files path psk outcome).1 = .error code →
      loadPskFromFile (savePskToFile files path psk outcome).2 path = loadPskFromFile files path

theorem save_fails (files : Files) {path : Bytes} (named : 0 ∉ path) (psk : Bytes)
    (outcome : SaveOutcome) {code : ErrorCode}
    (failed : (savePskToFile files path psk outcome).1 = .error code) :
    (savePskToFile files path psk outcome).2 (cString path) = files (cString path) := by
  have apart := path_ne_tmp named
  unfold savePskToFile at failed ⊢
  split
  · rfl
  · split
    · rfl
    · rename_i size opens
      rw [if_neg size, if_neg opens] at failed
      simp only at failed ⊢
      split
      · exact Function.update_of_ne apart _ _
      · split
        · exact Function.update_of_ne apart _ _
        · rename_i good renames
          rw [if_neg good, if_neg renames] at failed
          cases failed

def SaveOutcome.Accepted (outcome : SaveOutcome) (psk : Bytes) : Prop :=
  outcome.stream.opens = true ∧ Inserts (pieces psk) outcome.stream.insertions ∧
    outcome.rename = true

theorem save_ok {files : Files} {path psk : Bytes} {outcome : SaveOutcome}
    (size : psk.length = pskLen) (accepted : outcome.Accepted psk) :
    savePskToFile files path psk outcome = (.ok (), Function.update
      (Function.update (Function.update files (cString (tmpOf path))
          (some (print [] (pieces psk) outcome.stream).2)) (cString (tmpOf path)) none) (cString path)
      (some (print [] (pieces psk) outcome.stream).2)) := by
  obtain ⟨opens, inserts, renames⟩ := accepted
  have good := (print_good [] (pieces psk) outcome.stream).mpr inserts
  rw [savePskToFile, if_neg (not_not.mpr size), if_neg (by rw [opens]; decide)]
  simp only [good, renames, Bool.true_eq_false, if_false]

theorem save_ok_iff {files : Files} {path psk : Bytes} {outcome : SaveOutcome}
    (size : psk.length = pskLen) :
    (savePskToFile files path psk outcome).1 = .ok () ↔ outcome.Accepted psk := by
  constructor
  · intro saved
    unfold savePskToFile at saved
    rw [if_neg (not_not.mpr size)] at saved
    by_cases opens : outcome.stream.opens = false
    · rw [if_pos opens] at saved
      cases saved
    · rw [if_neg opens] at saved
      simp only at saved
      by_cases bad : (print [] (pieces psk) outcome.stream).1 = false
      · rw [if_pos bad] at saved
        cases saved
      · rw [if_neg bad] at saved
        by_cases stays : outcome.rename = false
        · rw [if_pos stays] at saved
          cases saved
        · exact ⟨Bool.of_not_eq_false opens, (print_good [] _ _).mp (Bool.of_not_eq_false bad),
            Bool.of_not_eq_false stays⟩
  · intro accepted
    rw [save_ok size accepted]

/-- A save is atomic unless the close loses what the insertions left in the buffer, and the rename then
succeeds. -/
theorem atomic_iff {psk : Bytes} (size : psk.length = 32) (files : Files) {path : Bytes}
    (named : 0 ∉ path) (outcome : SaveOutcome) :
    Atomic files path psk outcome ↔
      outcome.stream.opens = false ∨ ¬ Inserts (pieces psk) outcome.stream.insertions ∨
        outcome.rename = false ∨ Flushes (pieces psk) outcome.stream := by
  have loads (accepted : outcome.Accepted psk) :
      loadPskFromFile (savePskToFile files path psk outcome).2 path = .ok psk ↔
        Flushes (pieces psk) outcome.stream := by
    rw [save_ok size accepted, load_ok_iff, and_iff_right (show psk.length = pskLen from size),
      ← @print_covers [] _ _ accepted.2.1, List.nil_append, List.IsPrefix]
    simp only [Function.update_self, Option.some.injEq, eq_comm]
  constructor
  · rintro ⟨saved, _⟩
    by_cases accepted : outcome.Accepted psk
    · exact .inr (.inr (.inr ((loads accepted).mp (saved ((save_ok_iff size).mpr accepted)))))
    · rw [SaveOutcome.Accepted, not_and_or, not_and_or, Bool.not_eq_true, Bool.not_eq_true] at accepted
      exact accepted.imp_right (.imp_right .inl)
  · intro condition
    refine ⟨?_, fun code failed => load_eq (save_fails files named psk outcome failed)⟩
    intro saved
    have accepted := (save_ok_iff size).mp saved
    refine (loads accepted).mpr ?_
    obtain ⟨opens, inserts, renames⟩ := accepted
    rcases condition with closed | fails | stays | flushes
    · rw [opens] at closed
      cases closed
    · exact absurd inserts fails
    · rw [renames] at stays
      cases stays
    · exact flushes

/-- Both insertions stay in the buffer, and the close brings nothing of it to the file. -/
theorem key_lost :
    ¬ ∀ (files : Files) (path psk : Bytes) (outcome : SaveOutcome), 0 ∉ path → psk.length = 32 →
      Atomic files path psk outcome := by
  intro claimed
  have saved := (claimed (fun _ => none) (ascii "psk.bin") (List.replicate 32 1)
    { stream := { flushed := some 0 } } (by decide) (by decide)).1 (by decide)
  exact absurd saved (by decide)

theorem atomic_iff_rename :
    Atomic (fun _ => none) (ascii "psk.bin") (List.replicate 32 1)
      { stream := { flushed := some 0 }, rename := false } :=
  (atomic_iff (by decide) _ (by decide) _).mpr (.inr (.inr (.inl rfl)))

end Keystore

end Udaf
