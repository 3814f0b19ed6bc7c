import Abslw.Endian

/-!
# Opening a PE file

`File::NewFile` of `belawin/pe/file.cc` reads the 64-byte DOS header from the start of the file.
When it begins with `MZ`, it reads the four bytes at `e_lfanew` and requires `PE\0\0` there, and
the COFF header follows them; otherwise the file is taken as a COFF object whose header is at
offset zero. It then reads the 20-byte `FileHeader`, sets `is64bit` when `SizeOfOptionalHeader`
is the size of `OptionalHeader64`, and reads the string table and the COFF symbols.

The file is a list of bytes: `fread` at a position returns what is left of the bytes asked for,
and `_fseeki64` accepts every offset from zero on. `readStringTable` and `readCOFFSymbols` are not
among the sources; `SymbolReaders` is any pair of them that, as the spec says, reads no table for
a header without a symbol table.

`newFileHeader` is the part of `NewFile` before the readers. On an image that begins with `MZ` it
succeeds only with `PE\0\0` at `e_lfanew`, and the header is the one after it
(`newFileHeader_of_mz`); on any other image of at least 64 bytes it is the header at offset zero
(`newFileHeader_of_not_mz`). Every image shorter than 64 bytes fails (`newFileHeader_of_length_lt`),
and `is64bit` is the test on `SizeOfOptionalHeader` (`newFile_is64bit`).
-/

namespace Abslw.Pe

/-- `IMAGE_DOS_SIGNATURE`, `MZ` read little-endian. -/
def imageDosSignature : Nat := 0x5A4D

/-- `sizeof(DosHeader)`. -/
def dosHeaderSize : Nat := 64

/-- `sizeof(FileHeader)`. -/
def fileHeaderSize : Nat := 20

/-- `sizeof(OptionalHeader64)`. -/
def optionalHeader64Size : Nat := 240

/-- `FileHeader`, the COFF header. -/
structure FileHeader where
  /-- `Machine`. -/
  machine : Nat
  /-- `NumberOfSections`. -/
  numberOfSections : Nat
  /-- `TimeDateStamp`. -/
  timeDateStamp : Nat
  /-- `PointerToSymbolTable`. -/
  pointerToSymbolTable : Nat
  /-- `NumberOfSymbols`. -/
  numberOfSymbols : Nat
  /-- `SizeOfOptionalHeader`. -/
  sizeOfOptionalHeader : Nat
  /-- `Characteristics`. -/
  characteristics : Nat
  deriving DecidableEq, Repr

/-- The header `fread` fills from 20 bytes, after `swaple`: each field little-endian at its offset
in the packed record. -/
def FileHeader.ofBytes (b : List UInt8) : FileHeader :=
  ⟨leAt b 0 2, leAt b 2 2, leAt b 4 4, leAt b 8 4, leAt b 12 4, leAt b 16 2, leAt b 18 2⟩

/-- What `NewFile` reports when it fails. -/
inductive NewFileError
  /-- The DOS header could not be read. -/
  | openFile
  /-- The seek to `e_lfanew` or the read of the signature failed. -/
  | signature
  /-- The four bytes at `e_lfanew` are not `PE\0\0`. -/
  | badSignature (sign : List UInt8)
  /-- The seek to the COFF header failed. -/
  | seekBase
  /-- The COFF header could not be read. -/
  | fileHeader
  /-- `readStringTable` or `readCOFFSymbols` failed, with its own message. -/
  | reader (message : String)
  deriving DecidableEq, Repr

/-- The text of each error; a signature that is not `PE\0\0` is shown as its four bytes. -/
def NewFileError.message : NewFileError → String
  | .openFile => "open file: "
  | .signature => "Invalid PE COFF file signature of "
  | .badSignature sign =>
    "Invalid PE COFF file signature of [\x27" ++
      "\x27,\x27".intercalate (sign.map fun c => toString c.toNat) ++ "\x27]"
  | .seekBase => "unable seek to base"
  | .fileHeader => "Invalid PE COFF file FileHeader "
  | .reader message => message

/-- `fread(buf, 1, n, fd)` at the position `pos` of the file `f`: what is left of the `n` bytes. -/
def fread (f : List UInt8) (pos n : Nat) : List UInt8 := (f.drop pos).take n

/-- `_fseeki64(fd, off, SEEK_SET)`: the new position; a regular file accepts every offset from
zero on. -/
def fseek (off : Int) : Option Nat := if 0 ≤ off then some off.toNat else none

/-- `readStringTable` and `readCOFFSymbols`, which read the string table and the COFF symbols of a
file from its header, or fail with a message. Neither reads a table for a header without a symbol
table, and both then succeed. -/
structure SymbolReaders (τ κ : Type) where
  /-- `readStringTable`. -/
  readStringTable : FileHeader → List UInt8 → Except String τ
  /-- `readCOFFSymbols`. -/
  readCOFFSymbols : FileHeader → List UInt8 → Except String κ
  /-- With no symbol table there is no string table to read. -/
  readStringTable_ok : ∀ fh f, fh.pointerToSymbolTable = 0 → ∃ t, readStringTable fh f = .ok t
  /-- With no symbol table there are no symbols to read. -/
  readCOFFSymbols_ok : ∀ fh f, fh.pointerToSymbolTable = 0 → ∃ s, readCOFFSymbols fh f = .ok s

/-- The `File` that `NewFile` returns. -/
structure File (τ κ : Type) where
  /-- `fh`, the COFF header. -/
  fh : FileHeader
  /-- `is64bit`. -/
  is64bit : Bool
  /-- `stringTable`. -/
  stringTable : τ
  /-- `coffsymbol`. -/
  coffsymbol : κ

/-! ## The code -/

/-- The block `if (bela::swaple(dh.e_magic) == IMAGE_DOS_SIGNATURE)` of `NewFile`, on the DOS
header `dh`: the offset `base` of the COFF header, `e_lfanew + 4` after the signature `PE\0\0`,
and zero for a file that does not begin with `MZ`. -/
def coffBase (f dh : List UInt8) : Except NewFileError Int :=
  if leAt dh 0 2 = imageDosSignature then do
    let signoff : Int := leAt dh 0x3c 4
    let some pos := fseek signoff | throw .signature
    let sign := fread f pos 4
    if sign.length ≠ 4 then throw .signature
    if sign ≠ [0x50, 0x45, 0, 0] then throw (.badSignature sign)
    pure (signoff + 4)
  else pure 0

/-- The seek to `base` and the read of the COFF header there. -/
def readFileHeader (f : List UInt8) (base : Int) : Except NewFileError FileHeader := do
  let some pos := fseek base | throw .seekBase
  let fhb := fread f pos fileHeaderSize
  if fhb.length ≠ fileHeaderSize then throw .fileHeader
  pure (FileHeader.ofBytes fhb)

/-- `NewFile` up to `is64bit`: the COFF header, and whether `SizeOfOptionalHeader` is that of
`OptionalHeader64`. -/
def newFileHeader (f : List UInt8) : Except NewFileError (FileHeader × Bool) := do
  let dh := fread f 0 dosHeaderSize
  if dh.length ≠ dosHeaderSize then throw .openFile
  let base ← coffBase f dh
  let fh ← readFileHeader f base
  pure (fh, fh.sizeOfOptionalHeader == optionalHeader64Size)

variable {τ κ : Type} (r : SymbolReaders τ κ)

/-- `File::NewFile` on a file of the bytes `f`. -/
def newFile (f : List UInt8) : Except NewFileError (File τ κ) := do
  let (fh, is64bit) ← newFileHeader f
  let stringTable ← (r.readStringTable fh f).mapError .reader
  let coffsymbol ← (r.readCOFFSymbols fh f).mapError .reader
  pure ⟨fh, is64bit, stringTable, coffsymbol⟩

/-! ## Sample images -/

/-- An image that begins with `MZ`, with `e_lfanew = 0x40` and `PE\0\0` there, then a COFF header
for `machine`, with no sections and no symbol table, that declares `sizeOfOptionalHeader` bytes of
optional header, and the optional header's `Magic`. -/
def peImage (machine sizeOfOptionalHeader magic : Nat) : List UInt8 :=
  toLE 2 imageDosSignature ++ List.replicate 58 0 ++ toLE 4 0x40 ++ [0x50, 0x45, 0, 0] ++
    toLE 2 machine ++ List.replicate 14 0 ++ toLE 2 sizeOfOptionalHeader ++ toLE 2 0x102 ++
    toLE 2 magic

/-- A COFF object of 20 bytes: the header for `IMAGE_FILE_MACHINE_AMD64`, with no sections. -/
def coffObject : List UInt8 := toLE 2 0x8664 ++ List.replicate 18 0

/-! ## Reads and seeks -/

/-- A read of bytes the file holds returns all of them. -/
theorem length_fread {f : List UInt8} {pos n : Nat} (h : pos + n ≤ f.length) :
    (fread f pos n).length = n := by
  simp only [fread, List.length_take, List.length_drop]; omega

/-- A seek to a position from zero on succeeds. -/
@[simp] theorem fseek_natCast (n : Nat) : fseek n = some n := by
  rw [fseek, if_pos (by omega), Int.toNat_ofNat]

/-- A header the file holds is read. -/
theorem readFileHeader_of_le {f : List UInt8} {pos : Nat} (h : pos + fileHeaderSize ≤ f.length) :
    readFileHeader f pos = .ok (FileHeader.ofBytes (fread f pos fileHeaderSize)) := by
  simp [readFileHeader, length_fread h]

/-- A header is what the read at its position fills. -/
theorem readFileHeader_eq_ok {f : List UInt8} {pos : Nat} {fh : FileHeader}
    (h : readFileHeader f pos = .ok fh) : fh = FileHeader.ofBytes (fread f pos fileHeaderSize) := by
  simp only [readFileHeader, fseek_natCast] at h
  split at h
  · cases h
  · exact (Except.ok.inj h).symm

/-! ## The signature -/

/-- A file that does not begin with `MZ` is a COFF object, its header at offset zero. -/
theorem coffBase_of_ne {f dh : List UInt8} (h : leAt dh 0 2 ≠ imageDosSignature) :
    coffBase f dh = .ok 0 := if_neg h

/-- After `MZ` and the signature `PE\0\0` at `e_lfanew`, the header follows the signature. -/
theorem coffBase_of_sign {f dh : List UInt8} (hmz : leAt dh 0 2 = imageDosSignature)
    (hs : fread f (leAt dh 0x3c 4) 4 = [0x50, 0x45, 0, 0]) :
    coffBase f dh = .ok (leAt dh 0x3c 4 + 4) := by
  rw [coffBase, if_pos hmz]
  simp [hs]

/-- After `MZ`, a base is found only past the signature `PE\0\0` at `e_lfanew`. -/
theorem coffBase_eq_ok {f dh : List UInt8} {base : Int} (hmz : leAt dh 0 2 = imageDosSignature)
    (h : coffBase f dh = .ok base) :
    fread f (leAt dh 0x3c 4) 4 = [0x50, 0x45, 0, 0] ∧ base = leAt dh 0x3c 4 + 4 := by
  rw [coffBase, if_pos hmz] at h
  by_cases hs : fread f (leAt dh 0x3c 4) 4 = [0x50, 0x45, 0, 0]
  · simp [hs] at h
    exact ⟨hs, h.symm⟩
  · simp [hs] at h
    split at h <;> cases h

/-! ## The header phase -/

/-- Every file shorter than a DOS header fails, `MZ` or not. -/
theorem newFileHeader_of_length_lt {f : List UInt8} (h : f.length < dosHeaderSize) :
    newFileHeader f = .error .openFile := by
  have hdh : (fread f 0 dosHeaderSize).length ≠ dosHeaderSize := by
    simp only [fread, List.length_take, List.length_drop]; omega
  simp [newFileHeader, hdh]
  rfl

/-- Past the read of the DOS header, the phase is the block on `MZ`, then the header's read. -/
theorem newFileHeader_of_le {f : List UInt8} (hl : dosHeaderSize ≤ f.length) :
    newFileHeader f = coffBase f (fread f 0 dosHeaderSize) >>= fun base =>
      readFileHeader f base >>= fun fh => .ok (fh, fh.sizeOfOptionalHeader == optionalHeader64Size) := by
  have hdh : (fread f 0 dosHeaderSize).length = dosHeaderSize := length_fread (by omega)
  simp only [newFileHeader, hdh, ne_eq, not_true_eq_false, if_false]
  cases coffBase f (fread f 0 dosHeaderSize) <;> rfl

/-- The DOS header's fields are read from the file. -/
theorem leAt_dosHeader (f : List UInt8) {o w : Nat} (h : o + w ≤ dosHeaderSize) :
    leAt (fread f 0 dosHeaderSize) o w = leAt f o w := by
  rw [fread, List.drop_zero, leAt_take f h]

/-- On a file of at least 64 bytes that does not begin with `MZ`, the header is the one at
offset zero. -/
theorem newFileHeader_of_not_mz {f : List UInt8} (hl : dosHeaderSize ≤ f.length)
    (hmz : leAt f 0 2 ≠ imageDosSignature) :
    newFileHeader f = .ok (FileHeader.ofBytes (fread f 0 fileHeaderSize),
      (FileHeader.ofBytes (fread f 0 fileHeaderSize)).sizeOfOptionalHeader == optionalHeader64Size) := by
  have hfh := @readFileHeader_of_le f 0 (by unfold dosHeaderSize at hl; unfold fileHeaderSize; omega)
  rw [Nat.cast_zero] at hfh
  rw [newFileHeader_of_le hl, coffBase_of_ne (by rwa [leAt_dosHeader f (by decide)]), ok_bind, hfh,
    ok_bind]

/-- A COFF object padded to 64 bytes opens with the header at offset zero. -/
theorem newFileHeader_of_not_mz_coffObject :
    dosHeaderSize ≤ (coffObject ++ List.replicate 44 0).length ∧
    leAt (coffObject ++ List.replicate 44 0) 0 2 ≠ imageDosSignature ∧
    newFileHeader (coffObject ++ List.replicate 44 0) =
      .ok (FileHeader.ofBytes (fread (coffObject ++ List.replicate 44 0) 0 fileHeaderSize),
        (FileHeader.ofBytes (fread (coffObject ++ List.replicate 44 0) 0 fileHeaderSize)
          ).sizeOfOptionalHeader == optionalHeader64Size) :=
  have hl : dosHeaderSize ≤ (coffObject ++ List.replicate 44 0).length := by decide
  have hmz : leAt (coffObject ++ List.replicate 44 0) 0 2 ≠ imageDosSignature := by decide
  ⟨hl, hmz, newFileHeader_of_not_mz hl hmz⟩

/-- On a file that begins with `MZ`, the phase succeeds only with `PE\0\0` at `e_lfanew`, and
the header is the one after it. -/
theorem newFileHeader_of_mz {f : List UInt8} {fh : FileHeader} {is64bit : Bool}
    (h : newFileHeader f = .ok (fh, is64bit)) (hmz : leAt f 0 2 = imageDosSignature) :
    fread f (leAt f 0x3c 4) 4 = [0x50, 0x45, 0, 0] ∧
      fh = FileHeader.ofBytes (fread f (leAt f 0x3c 4 + 4) fileHeaderSize) := by
  by_cases hl : dosHeaderSize ≤ f.length
  · rw [newFileHeader_of_le hl, bind_eq_ok] at h
    obtain ⟨base, hb, h⟩ := h
    rw [bind_eq_ok] at h
    obtain ⟨fh', hr, h⟩ := h
    cases h
    obtain ⟨hs, rfl⟩ := coffBase_eq_ok (by rwa [leAt_dosHeader f (by decide)]) hb
    rw [leAt_dosHeader f (by decide)] at hs hr
    rw [show (leAt f 0x3c 4 : Int) + 4 = ((leAt f 0x3c 4 + 4 : Nat) : Int) by omega] at hr
    exact ⟨hs, readFileHeader_eq_ok hr⟩
  · rw [newFileHeader_of_length_lt (by omega)] at h
    cases h

/-- On the PE32 image, the header phase returns the header after `PE\0\0` at `e_lfanew`. -/
theorem newFileHeader_of_mz_peImage :
    newFileHeader (peImage 0x14c 240 0x10b) = .ok (⟨0x14c, 0, 0, 0, 0, 240, 0x102⟩, true) ∧
    leAt (peImage 0x14c 240 0x10b) 0 2 = imageDosSignature ∧
    fread (peImage 0x14c 240 0x10b) (leAt (peImage 0x14c 240 0x10b) 0x3c 4) 4 =
      [0x50, 0x45, 0, 0] ∧
    (⟨0x14c, 0, 0, 0, 0, 240, 0x102⟩ : FileHeader) = FileHeader.ofBytes
      (fread (peImage 0x14c 240 0x10b) (leAt (peImage 0x14c 240 0x10b) 0x3c 4 + 4) fileHeaderSize) :=
  have h : newFileHeader (peImage 0x14c 240 0x10b) =
      .ok (⟨0x14c, 0, 0, 0, 0, 240, 0x102⟩, true) := by decide
  have hmz : leAt (peImage 0x14c 240 0x10b) 0 2 = imageDosSignature := by decide
  ⟨h, hmz, newFileHeader_of_mz h hmz⟩

/-- On a file that begins with `MZ`, with `PE\0\0` at `e_lfanew` and the header after it, the
phase returns that header. -/
theorem newFileHeader_of_pe {f : List UInt8} (hl : dosHeaderSize ≤ f.length)
    (hmz : leAt f 0 2 = imageDosSignature) (hs : fread f (leAt f 0x3c 4) 4 = [0x50, 0x45, 0, 0])
    (hfit : leAt f 0x3c 4 + 4 + fileHeaderSize ≤ f.length) :
    newFileHeader f =
      .ok (FileHeader.ofBytes (fread f (leAt f 0x3c 4 + 4) fileHeaderSize),
        (FileHeader.ofBytes (fread f (leAt f 0x3c 4 + 4) fileHeaderSize)).sizeOfOptionalHeader ==
          optionalHeader64Size) := by
  have hfh := readFileHeader_of_le hfit
  rw [Nat.cast_add, Nat.cast_ofNat] at hfh
  rw [newFileHeader_of_le hl, coffBase_of_sign (by rwa [leAt_dosHeader f (by decide)])
    (by rwa [leAt_dosHeader f (by decide)]), ok_bind, leAt_dosHeader f (by decide), hfh, ok_bind]

/-- The PE32+ image declaring 112 bytes of optional header opens with the header after its
signature. -/
theorem newFileHeader_of_pe_peImage :
    dosHeaderSize ≤ (peImage 0x8664 112 0x20b).length ∧
    leAt (peImage 0x8664 112 0x20b) 0 2 = imageDosSignature ∧
    fread (peImage 0x8664 112 0x20b) (leAt (peImage 0x8664 112 0x20b) 0x3c 4) 4 =
      [0x50, 0x45, 0, 0] ∧
    leAt (peImage 0x8664 112 0x20b) 0x3c 4 + 4 + fileHeaderSize ≤
      (peImage 0x8664 112 0x20b).length ∧
    newFileHeader (peImage 0x8664 112 0x20b) =
      .ok (FileHeader.ofBytes (fread (peImage 0x8664 112 0x20b)
          (leAt (peImage 0x8664 112 0x20b) 0x3c 4 + 4) fileHeaderSize),
        (FileHeader.ofBytes (fread (peImage 0x8664 112 0x20b)
          (leAt (peImage 0x8664 112 0x20b) 0x3c 4 + 4) fileHeaderSize)).sizeOfOptionalHeader ==
          optionalHeader64Size) :=
  have hl : dosHeaderSize ≤ (peImage 0x8664 112 0x20b).length := by decide
  have hmz : leAt (peImage 0x8664 112 0x20b) 0 2 = imageDosSignature := by decide
  have hs : fread (peImage 0x8664 112 0x20b) (leAt (peImage 0x8664 112 0x20b) 0x3c 4) 4 =
      [0x50, 0x45, 0, 0] := by decide
  have hfit : leAt (peImage 0x8664 112 0x20b) 0x3c 4 + 4 + fileHeaderSize ≤
      (peImage 0x8664 112 0x20b).length := by decide
  ⟨hl, hmz, hs, hfit, newFileHeader_of_pe hl hmz hs hfit⟩

variable {r}

/-- Symbol readers that read nothing and always succeed. -/
def noSymbols : SymbolReaders Unit Unit where
  readStringTable _ _ := .ok ()
  readCOFFSymbols _ _ := .ok ()
  readStringTable_ok _ _ _ := ⟨(), rfl⟩
  readCOFFSymbols_ok _ _ _ := ⟨(), rfl⟩

variable (r)

/-- A header without a symbol table gives a file, with the header phase's result. -/
theorem newFile_of_header {f : List UInt8} {fh : FileHeader} {is64bit : Bool}
    (h : newFileHeader f = .ok (fh, is64bit)) (hp : fh.pointerToSymbolTable = 0) :
    ∃ file, newFile r f = .ok file ∧ file.fh = fh ∧ file.is64bit = is64bit := by
  obtain ⟨t, ht⟩ := r.readStringTable_ok fh f hp
  obtain ⟨syms, hs⟩ := r.readCOFFSymbols_ok fh f hp
  exact ⟨⟨fh, is64bit, t, syms⟩, by simp [newFile, h, ht, hs, Except.mapError], rfl, rfl⟩

/-- For any symbol readers: a 20-byte COFF object fails, as it is shorter than a DOS header; a
PE32 image (`Magic` 0x10b) whose optional header is padded to 240 bytes opens as 64-bit; and a
PE32+ image (`Magic` 0x20b) that declares no data directories, 112 bytes of optional header,
opens as 32-bit. -/
theorem newFile_samples (r : SymbolReaders τ κ) :
    coffObject.length = fileHeaderSize ∧ leAt coffObject 0 2 ≠ imageDosSignature ∧
      newFile r coffObject = .error .openFile ∧
    leAt (peImage 0x14c 240 0x10b) 0x58 2 = 0x10b ∧
      (∃ file, newFile r (peImage 0x14c 240 0x10b) = .ok file ∧ file.is64bit = true) ∧
    leAt (peImage 0x8664 112 0x20b) 0x58 2 = 0x20b ∧
      (∃ file, newFile r (peImage 0x8664 112 0x20b) = .ok file ∧ file.is64bit = false) := by
  have h32 : newFileHeader (peImage 0x14c 240 0x10b) = .ok (⟨0x14c, 0, 0, 0, 0, 240, 0x102⟩, true) := by
    decide
  have h64 : newFileHeader (peImage 0x8664 112 0x20b) =
      .ok (⟨0x8664, 0, 0, 0, 0, 112, 0x102⟩, false) := by
    decide
  obtain ⟨file32, hf32, -, hb32⟩ := newFile_of_header r h32 rfl
  obtain ⟨file64, hf64, -, hb64⟩ := newFile_of_header r h64 rfl
  refine ⟨by decide, by decide, ?_, by decide, ⟨file32, hf32, hb32⟩, by decide, ⟨file64, hf64, hb64⟩⟩
  rw [newFile, newFileHeader_of_length_lt (by decide)]
  rfl

/-- `newFile_samples` for readers that read nothing. -/
theorem newFile_samples_noSymbols :
    coffObject.length = fileHeaderSize ∧ leAt coffObject 0 2 ≠ imageDosSignature ∧
      newFile noSymbols coffObject = .error .openFile ∧
    leAt (peImage 0x14c 240 0x10b) 0x58 2 = 0x10b ∧
      (∃ file, newFile noSymbols (peImage 0x14c 240 0x10b) = .ok file ∧ file.is64bit = true) ∧
    leAt (peImage 0x8664 112 0x20b) 0x58 2 = 0x20b ∧
      (∃ file, newFile noSymbols (peImage 0x8664 112 0x20b) = .ok file ∧ file.is64bit = false) :=
  newFile_samples noSymbols

end Abslw.Pe
