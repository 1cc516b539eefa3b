import Udaf.Wal.Core

/-! What the file wrappers do when every call completes, and what they can do at all. -/

namespace Udaf

open ByteString Posix

@[simp] theorem call_quiet {fd : File} (quiet : fd.faults = []) (wanted : Nat) :
    fd.call wanted = (.ok wanted, fd) := by
  simp [File.call, quiet]

@[simp] theorem lseekCur_quiet {fd : File} (quiet : fd.faults = []) :
    fd.lseekCur = (some fd.pos, fd) := by
  simp [File.lseekCur, quiet]

@[simp] theorem lseekSet_quiet {fd : File} (quiet : fd.faults = []) (offset : Nat) :
    fd.lseekSet offset = (some offset, { fd with pos := offset }) := by
  simp [File.lseekSet, quiet]

@[simp] theorem seekSet_quiet {fd : File} (quiet : fd.faults = []) (offset : Nat) :
    seekSet fd offset = (some offset, { fd with pos := offset }) := by
  simp [seekSet, quiet]

@[simp] theorem seekEnd_quiet {fd : File} (quiet : fd.faults = []) :
    seekEnd fd = (some fd.bytes.length, { fd with pos := fd.bytes.length }) := by
  simp [seekEnd, File.lseekEnd, quiet]

@[simp] theorem fstat_quiet {fd : File} (quiet : fd.faults = []) :
    fd.fstat = (some fd.bytes.length, fd) := by
  simp [File.fstat, quiet]

@[simp] theorem fsync_quiet {fd : File} (quiet : fd.faults = []) : fd.fsync = (.ok (), fd) := by
  simp [File.fsync, quiet]

@[simp] theorem ftruncateWrapped_quiet {fd : File} (quiet : fd.faults = []) (length : Nat) :
    ftruncateWrapped fd length = (some (), { fd with bytes := resize fd.bytes length }) := by
  simp [ftruncateWrapped, ftruncateLoop, File.ftruncate, quiet]

@[simp] theorem readAt_quiet {fd : File} (quiet : fd.faults = []) (count offset : Nat) :
    readAt fd count offset = (some ((fd.bytes.drop offset).take count), fd) := by
  by_cases zero : count = 0
  · simp [readAt, readAtLoop, zero]
  · cases chunk : (fd.bytes.drop offset).take count with
    | nil => simp [readAt, readAtLoop, zero, File.pread, quiet, chunk]
    | cons byte rest =>
        -- one `pread` delivers all there is; the next one only finds the end of the file
        have lengths : (byte :: rest).length = min count (fd.bytes.length - offset) := by
          rw [← chunk, List.length_take, List.length_drop]
        by_cases whole : count - (byte :: rest).length = 0
        · simp only [readAt, readAtLoop, zero, File.pread, quiet, chunk, whole, if_false, if_true,
            call_quiet, List.nil_append]
        · have past : fd.bytes.drop (offset + (byte :: rest).length) = [] :=
            List.drop_eq_nil_of_le (by omega)
          simp only [readAt, readAtLoop, zero, File.pread, quiet, chunk, whole, past,
            if_false, call_quiet, List.nil_append, List.take_nil]

theorem writeAt_quiet {fd : File} {offset : Nat} (quiet : fd.faults = []) (data : Bytes)
    (atEnd : offset = fd.bytes.length) :
    writeAt fd data offset = (some data.length, { fd with bytes := fd.bytes ++ data }) := by
  subst atEnd
  cases data with
  | nil => simp [writeAt, writeAtLoop]
  | cons byte rest => simp [writeAt, writeAtLoop, File.pwrite, quiet]

theorem writeField_quiet {fd : File} {offset : Nat} (quiet : fd.faults = []) (data : Bytes)
    (atEnd : offset = fd.bytes.length) :
    writeField fd data offset = (some data.length, { fd with bytes := fd.bytes ++ data }) := by
  cases data with
  | nil => simp [writeField]
  | cons byte rest => simp [writeField, writeAt_quiet quiet _ atEnd]

theorem readExact_quiet {fd : File} (quiet : fd.faults = []) (size offset : Nat) :
    readExact fd size offset =
      (if ((fd.bytes.drop offset).take size).length = size then
        some ((fd.bytes.drop offset).take size) else none, fd) := by
  by_cases zero : size = 0
  · simp [readExact, zero]
  · simp [readExact, zero, quiet]

end Udaf
