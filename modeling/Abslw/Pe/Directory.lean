import Abslw.Endian

/-!
# Data directories and the sections that hold them

`bela/pe.hpp` resolves a data directory of the optional header to the section that holds it in
two steps. `getDataDirectory` returns the directory's entry when its index is below 16 and the
header declares enough entries; `getSection` scans the section table for the first section whose
virtual range `[VirtualAddress, VirtualAddress + VirtualSize)` contains the entry's address, with
the end of the range computed in `uint32_t`. The repository holds a second copy of the class, for
the unified optional header, whose `getDataDirectory` compares the declared count with the
directory's own index (`Unified.getDataDirectory`); its `getSection` is the same text as the
first.

Addresses and sizes are `uint32_t` in the source and `Fin (2 ^ 32)` here, so that the sum in the
containment test wraps as it does in the code. `getSection_eq_find_contains` shows that the scan
finds the first section that contains the address as an interval of unbounded integers, for every
table in which no section ends past `2 ^ 32`. `directorySection` is the lookup stated over
unbounded integers, with an address of zero taken as absent; `Unified.getSection_getDataDirectory`
says when the code meets it.
-/

namespace Abslw.Pe

/-- `NumberOfDirectoryEntries` (`DataDirEntries` in the unified header). -/
def numberOfDirectoryEntries : Nat := 16
/-- `IMAGE_DIRECTORY_ENTRY_EXPORT`. -/
def imageDirectoryEntryExport : Nat := 0
/-- `IMAGE_DIRECTORY_ENTRY_IMPORT`. -/
def imageDirectoryEntryImport : Nat := 1

/-- `DataDirectory`: an address relative to the image base, and a size. -/
structure DataDirectory where
  /-- `VirtualAddress`, the directory's address relative to the image base. -/
  virtualAddress : Fin (2 ^ 32)
  /-- `Size`. -/
  size : Fin (2 ^ 32)
  deriving DecidableEq, Repr

/-- `Section`, with the fields that tell sections apart: name, virtual range, and raw data. The
relocation fields and characteristics are left out. -/
structure Section where
  /-- `Name`. -/
  name : String
  /-- `VirtualSize`. -/
  virtualSize : Fin (2 ^ 32)
  /-- `VirtualAddress`. -/
  virtualAddress : Fin (2 ^ 32)
  /-- `Size`, of the raw data in the file. -/
  size : Fin (2 ^ 32)
  /-- `Offset`, of the raw data in the file. -/
  offset : Fin (2 ^ 32)
  deriving DecidableEq, Repr

/-- The optional header as `File` keeps it. `is64bit` tells which layout the stored bytes have;
either layout holds the declared number of directory entries and the sixteen entries, which are
the fields the lookup reads. -/
structure OptionalHeader where
  /-- Whether the header has the 64-bit layout. -/
  is64bit : Bool
  /-- `NumberOfRvaAndSizes`, the number of entries the header declares. -/
  numberOfRvaAndSizes : Fin (2 ^ 32)
  /-- `DataDirectory`, the sixteen entries. -/
  dataDirectory : List DataDirectory
  /-- The array has `NumberOfDirectoryEntries` entries. -/
  length_dataDirectory : dataDirectory.length = numberOfDirectoryEntries
  deriving DecidableEq

/-- The entry of directory `i < 16`. -/
def OptionalHeader.entry (oh : OptionalHeader) (i : Nat) (h : i < numberOfDirectoryEntries) :
    DataDirectory :=
  oh.dataDirectory.get ⟨i, oh.length_dataDirectory ▸ h⟩

/-! ## The code -/

/-- `File::getDataDirectory` of `bela/pe.hpp`. Both branches on `is64bit` read the declared count
and the entry of the layout the header was stored in; the count is tested against the import
directory's index, whatever directory is asked for. -/
def getDataDirectory (oh : OptionalHeader) (dirIndex : Nat) : Option DataDirectory :=
  if h : dirIndex < numberOfDirectoryEntries then
    if oh.numberOfRvaAndSizes.val < imageDirectoryEntryImport + 1 then none
    else some (oh.entry dirIndex h)
  else none

namespace Unified

/-- `File::getDataDirectory` of the copy for the unified optional header: the count is tested
against the directory's own index. -/
def getDataDirectory (oh : OptionalHeader) (dirIndex : Nat) : Option DataDirectory :=
  if h : dirIndex < numberOfDirectoryEntries then
    if oh.numberOfRvaAndSizes.val < dirIndex + 1 then none
    else some (oh.entry dirIndex h)
  else none

end Unified

/-- `File::getSection(const DataDirectory *)`, in both copies: the first section with
`VirtualAddress <= dd->VirtualAddress < VirtualAddress + VirtualSize`, the sum in `uint32_t`. -/
def getSection (dd : DataDirectory) : List Section → Option Section
  | [] => none
  | s :: sections =>
    if s.virtualAddress ≤ dd.virtualAddress ∧ dd.virtualAddress < s.virtualAddress + s.virtualSize
    then some s
    else getSection dd sections

/-! ## The lookup over unbounded integers -/

/-- A section contains an address when the address lies in its virtual range, an interval of
unbounded integers. -/
def Section.Contains (s : Section) (rva : Nat) : Prop :=
  s.virtualAddress.val ≤ rva ∧ rva < s.virtualAddress.val + s.virtualSize.val

instance (s : Section) (rva : Nat) : Decidable (s.Contains rva) :=
  inferInstanceAs (Decidable (_ ∧ _))

/-- The section that holds directory `i`: none unless `i` is below 16 and below the declared
count and the entry's address is not zero; otherwise the first section that contains the
address. -/
def directorySection (oh : OptionalHeader) (sections : List Section) (i : Nat) :
    Option Section :=
  if h : i < numberOfDirectoryEntries ∧ i < oh.numberOfRvaAndSizes.val then
    if (oh.entry i h.1).virtualAddress.val = 0 then none
    else sections.find? fun s => decide (s.Contains (oh.entry i h.1).virtualAddress.val)
  else none

/-- A section's range does not wrap: its end is below `2 ^ 32`. -/
def Section.NoWrap (s : Section) : Prop := s.virtualAddress.val + s.virtualSize.val < 2 ^ 32

instance (s : Section) : Decidable s.NoWrap := inferInstanceAs (Decidable (_ < _))

/-! ## The scan -/

/-- For a section whose range does not wrap, the code's test is containment. -/
theorem wrapTest_iff_contains {s : Section} (hs : s.NoWrap) (rva : Fin (2 ^ 32)) :
    (s.virtualAddress ≤ rva ∧ rva < s.virtualAddress + s.virtualSize) ↔ s.Contains rva.val := by
  rw [Section.Contains, Fin.le_def, Fin.lt_def, Fin.val_add, Nat.mod_eq_of_lt hs]

/-- When no section's range wraps, `getSection` is the first section that contains the address
as an interval of unbounded integers. -/
theorem getSection_eq_find_contains (dd : DataDirectory) {sections : List Section}
    (h : ∀ s ∈ sections, s.NoWrap) :
    getSection dd sections =
      sections.find? fun s => decide (s.Contains dd.virtualAddress.val) := by
  induction sections with
  | nil => rfl
  | cons s sections ih =>
    rw [getSection, List.find?_cons, ih fun s' hs' => h s' (List.mem_cons_of_mem _ hs')]
    simp only [wrapTest_iff_contains (h s (List.mem_cons_self _ _))]
    split_ifs with hc <;> simp [hc]

/-- The copy for the unified header meets the lookup over unbounded integers for every header,
every directory index, and every table in which no section's range wraps and no section contains
address zero. -/
theorem Unified.getSection_getDataDirectory (oh : OptionalHeader) {sections : List Section}
    (i : Nat) (hw : ∀ s ∈ sections, s.NoWrap) (hz : ∀ s ∈ sections, ¬ s.Contains 0) :
    (Unified.getDataDirectory oh i).bind (fun dd => getSection dd sections) =
      directorySection oh sections i := by
  unfold Unified.getDataDirectory directorySection
  by_cases hi : i < numberOfDirectoryEntries
  · by_cases hn : oh.numberOfRvaAndSizes.val < i + 1
    · rw [dif_pos hi, if_pos hn, dif_neg (by omega)]
      rfl
    rw [dif_pos hi, if_neg hn, dif_pos ⟨hi, by omega⟩, Option.some_bind,
      getSection_eq_find_contains _ hw]
    split_ifs with h0
    · rw [h0, List.find?_eq_none]
      simpa using hz
    · rfl
  · rw [dif_neg hi, dif_neg fun h => hi h.1]
    rfl

/-- A header in the 64-bit layout that declares `n` entries, all zero but entry `i`. -/
def headerWithEntry (n : Fin (2 ^ 32)) (i : Nat) (dd : DataDirectory) : OptionalHeader where
  is64bit := true
  numberOfRvaAndSizes := n
  dataDirectory := (List.replicate numberOfDirectoryEntries ⟨0, 0⟩).set i dd
  length_dataDirectory := by simp

/-- A section at `0x1000`, one at `0xFFFFF000` whose range passes `2 ^ 32`, and one at 0. -/
def textSection : Section := ⟨".text", 0x1000, 0x1000, 0x200, 0x400⟩
/-- See `textSection`. -/
def highSection : Section := ⟨".high", 0x2000, 0xFFFFF000, 0x200, 0x600⟩
/-- See `textSection`. -/
def lowSection : Section := ⟨".low", 0x1000, 0, 0x200, 0x800⟩

/-- On `textSection`, whose range neither wraps nor holds address zero, the unified copy finds
the section of an export directory at `0x1800`. -/
theorem getSection_getDataDirectory_textSection :
    (∀ s ∈ [textSection], s.NoWrap) ∧ (∀ s ∈ [textSection], ¬ s.Contains 0) ∧
    (Unified.getDataDirectory (headerWithEntry 16 0 ⟨0x1800, 0x10⟩) 0).bind
        (fun dd => getSection dd [textSection]) =
      directorySection (headerWithEntry 16 0 ⟨0x1800, 0x10⟩) [textSection] 0 :=
  have hw : ∀ s ∈ [textSection], s.NoWrap := by decide
  have hz : ∀ s ∈ [textSection], ¬ s.Contains 0 := by decide
  ⟨hw, hz, Unified.getSection_getDataDirectory _ 0 hw hz⟩

/-- Three tables on which the code and the lookup over unbounded integers differ: `bela/pe.hpp`
returns entry 5 of a header that declares two entries; a section at `0xFFFFF000` of size
`0x2000` does not hold `0xFFFFF800`, as its end wraps to `0x1000`; and an entry of address zero
resolves to a section at address zero. -/
theorem getSection_samples :
    (getDataDirectory (headerWithEntry 2 5 ⟨0x1800, 0x10⟩) 5).bind
        (fun dd => getSection dd [textSection]) = some textSection ∧
      directorySection (headerWithEntry 2 5 ⟨0x1800, 0x10⟩) [textSection] 5 = none ∧
    (Unified.getDataDirectory (headerWithEntry 16 0 ⟨0xFFFFF800, 0x10⟩) 0).bind
        (fun dd => getSection dd [highSection]) = none ∧
      directorySection (headerWithEntry 16 0 ⟨0xFFFFF800, 0x10⟩) [highSection] 0 =
        some highSection ∧
    (Unified.getDataDirectory (headerWithEntry 16 0 ⟨0, 0x10⟩) 0).bind
        (fun dd => getSection dd [lowSection]) = some lowSection ∧
      directorySection (headerWithEntry 16 0 ⟨0, 0x10⟩) [lowSection] 0 = none := by
  decide

end Abslw.Pe
