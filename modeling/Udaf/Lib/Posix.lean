import Udaf.Lib.Bytes

/-!
One file behind one open descriptor. Every system call consumes one outcome from
a list of pending outcomes; a call made when the list is empty completes.
-/

namespace Posix

open ByteString

/-- What the kernel does with one system call. `short` matters to transfers only. -/
inductive Outcome where
  | done
  | short (count : Nat)
  | eintr
  | fail
  deriving DecidableEq, Repr

inductive Errno where
  | eintr
  | other
  deriving DecidableEq, Repr

def Outcome.transfer (wanted : Nat) : Outcome → Except Errno Nat
  | .done => .ok wanted
  | .short count => .ok (min count wanted)
  | .eintr => .error .eintr
  | .fail => .error .other

/-- An open descriptor. With `appendMode` a `pwrite` on an `O_APPEND` descriptor goes to the
end of the file whatever its offset, as on Linux; without it the offset counts, as in POSIX. -/
structure File where
  bytes : Bytes
  pos : Nat
  appendMode : Bool
  faults : List Outcome
  deriving DecidableEq, Repr

structure Disk where
  bytes : Option Bytes
  appendMode : Bool
  faults : List Outcome
  deriving DecidableEq, Repr

def File.disk (file : File) : Disk :=
  { bytes := some file.bytes, appendMode := file.appendMode, faults := file.faults }

def File.call (file : File) (wanted : Nat) : Except Errno Nat × File :=
  match file.faults with
  | [] => (.ok wanted, file)
  | outcome :: rest => (outcome.transfer wanted, { file with faults := rest })

def File.lseekSet (file : File) (offset : Nat) : Option Nat × File :=
  match file.call 0 with
  | (.ok _, file) => (some offset, { file with pos := offset })
  | (.error _, file) => (none, file)

def File.lseekCur (file : File) : Option Nat × File :=
  match file.call 0 with
  | (.ok _, file) => (some file.pos, file)
  | (.error _, file) => (none, file)

def File.lseekEnd (file : File) : Option Nat × File :=
  match file.call 0 with
  | (.ok _, file) => (some file.bytes.length, { file with pos := file.bytes.length })
  | (.error _, file) => (none, file)

def File.fstat (file : File) : Option Nat × File :=
  match file.call 0 with
  | (.ok _, file) => (some file.bytes.length, file)
  | (.error _, file) => (none, file)

def File.ftruncate (file : File) (length : Nat) : Except Errno Unit × File :=
  match file.call 0 with
  | (.ok _, file) => (.ok (), { file with bytes := resize file.bytes length })
  | (.error errno, file) => (.error errno, file)

def File.fsync (file : File) : Except Errno Unit × File :=
  match file.call 0 with
  | (.ok _, file) => (.ok (), file)
  | (.error errno, file) => (.error errno, file)

def File.pread (file : File) (count offset : Nat) : Except Errno Bytes × File :=
  match file.call count with
  | (.ok moved, file) => (.ok ((file.bytes.drop offset).take moved), file)
  | (.error errno, file) => (.error errno, file)

def File.pwrite (file : File) (data : Bytes) (offset : Nat) : Except Errno Nat × File :=
  match file.call data.length with
  | (.ok moved, file) =>
      let start := if file.appendMode then file.bytes.length else offset
      (.ok moved, { file with bytes := splice file.bytes start (data.take moved) })
  | (.error errno, file) => (.error errno, file)

/-- `open` with `O_RDWR | O_APPEND`, and `O_CREAT` when `create` is set. -/
def Disk.openFile (disk : Disk) (create : Bool) : Except Errno File × Disk :=
  match disk.faults with
  | (.eintr) :: rest => (.error .eintr, { disk with faults := rest })
  | (.fail) :: rest => (.error .other, { disk with faults := rest })
  | pending =>
      match disk.bytes with
      | none =>
          if create then
            let file : File := ⟨[], 0, disk.appendMode, pending.tail⟩
            (.ok file, file.disk)
          else (.error .other, { disk with faults := pending.tail })
      | some bytes =>
          let file : File := ⟨bytes, 0, disk.appendMode, pending.tail⟩
          (.ok file, file.disk)

end Posix
