import Abslw.Endian

/-!
# The zip reader's errors, constants and byte source

`hazel/zip/zip.cc` reports failure through a `bela::error_code` whose message names the problem.
`ZipError` lists the messages that the code sets, the byte source's short read, and the fault of a
`LittenEndian` read past its view, which the source leaves undefined.

The reader reads its file through `ReadAt`, declared in `hazel/zip.hpp`, which is not among the
sources. `readAt` follows the spec's byte-source contract: `len` bytes from `pos`, or a short read.
The file is the list of its bytes; its size is the list's length.
-/

namespace Abslw.Zip

/-- What a decoder of `zip.cc` reports when it fails. -/
inductive ZipError
  /-- `zip: not a valid zip file` -/
  | notValid
  /-- `zip: invalid comment length` -/
  | invalidCommentLength
  /-- `zip: TOC declares impossible <records> files in <size> byte zip` -/
  | impossibleToc (records size : Nat)
  /-- The byte source delivered fewer bytes than asked. -/
  | io
  /-- A `LittenEndian` read past the end of its view. -/
  | fault
  deriving DecidableEq, Repr

/-- The text of the error code that `zip.cc` sets for each failure it reports itself. -/
def ZipError.message : ZipError → String
  | .notValid => "zip: not a valid zip file"
  | .invalidCommentLength => "zip: invalid comment length"
  | .impossibleToc records size =>
    "zip: TOC declares impossible " ++ toString records ++ " files in " ++ toString size ++
      " byte zip"
  | .io => "short read"
  | .fault => "read past the end of a view"

/-- A cursor operation inside a decoder: its failure is a fault. -/
def orFault {α : Type} : Option α → Except ZipError α
  | some a => .ok a
  | none => .error .fault

@[simp] theorem orFault_some_bind {α β : Type} (a : α) (f : α → Except ZipError β) :
    (orFault (some a) >>= f) = f a := rfl

@[simp] theorem orFault_none_bind {α β : Type} (f : α → Except ZipError β) :
    (orFault none >>= f) = .error .fault := rfl

/-! ## Constants of `zip.cc` -/

/-- `directoryHeaderSignature`, `PK\x01\x02`. -/
def directoryHeaderSignature : Nat := 0x02014b50
/-- `directoryEndSignature`, `PK\x05\x06`. -/
def directoryEndSignature : Nat := 0x06054b50
/-- `directory64LocSignature`, `PK\x06\x07`. -/
def directory64LocSignature : Nat := 0x07064b50
/-- `directory64EndSignature`, `PK\x06\x06`. -/
def directory64EndSignature : Nat := 0x06064b50
/-- `fileHeaderLen`: the least size of a local file header, used to bound the record count. -/
def fileHeaderLen : Nat := 30
/-- `directoryHeaderLen`: the fixed part of a central-directory header. -/
def directoryHeaderLen : Nat := 46
/-- `directoryEndLen`: the fixed part of the end-of-central-directory record. -/
def directoryEndLen : Nat := 22
/-- `directory64LocLen`: the Zip64 end locator. -/
def directory64LocLen : Nat := 20
/-- `directory64EndLen`: the fixed part of the Zip64 end record. -/
def directory64EndLen : Nat := 56

/-! ## The byte source -/

/-- `Reader::ReadAt`: the `len` bytes of the file `f` from `pos`, or a short read. Modelled from
the spec: `hazel/zip.hpp` is not among the sources; §6 asks for exactly `len` bytes or a short
read reported as such. -/
def readAt (f : List UInt8) (pos len : Nat) : Except ZipError (List UInt8) :=
  if pos + len ≤ f.length then .ok ((f.drop pos).take len) else .error .io

/-- A read that ends at the end of the file returns the file's tail. -/
theorem readAt_tail (f : List UInt8) {n : Nat} (h : n ≤ f.length) :
    readAt f (f.length - n) n = .ok (f.drop (f.length - n)) := by
  rw [readAt, if_pos (by omega), List.take_of_length_le (by simp; omega)]

/-- A read within the file returns its bytes. -/
theorem readAt_of_le (f : List UInt8) {pos len : Nat} (h : pos + len ≤ f.length) :
    readAt f pos len = .ok ((f.drop pos).take len) := if_pos h

/-- A read past the end of the file is a short read. -/
theorem readAt_of_lt (f : List UInt8) {pos len : Nat} (h : f.length < pos + len) :
    readAt f pos len = .error .io := if_neg (by omega)

end Abslw.Zip
