import Mathlib.Data.List.Sort
import Abslw.Endian
import Abslw.Pe.Directory

/-!
# The export table

`File::LookupExports` of `belawin/pe/file.cc` finds the section that holds the export directory,
reads the section's data, and decodes the `IMAGE_EXPORT_DIRECTORY` record at the directory's
offset in it. It then makes one entry per exported name and fills it from three tables, each
read only when its address passes a test against the section's virtual range: the name-ordinal
table (ordinal and hint), the name-pointer table (name) and the function table (address). The
entries are sorted by ordinal.

The section data is `SectionBuffer`, whose `cast_fromle` is not among the sources. As the spec's
`read_at`, a read past the buffer fails, and the model reports it as a fault: a decoder proved
never to fault issues no read outside the section data. `readSectionData` is a parameter. The
arithmetic is the code's: offsets from `uint32_t` differences, the guards in `size_t`, where
`sdata->size() - L` wraps when the table's offset passes the data's end, ordinals in
`unsigned short`, and the function slot's offset `L + (Ordinal - ordinalBase) * 4` in
`uint32_t`. `std::sort` is modelled by an insertion sort on the ordinal. `std::sort` need not keep
entries of equal ordinal in the order it found them, so what is stated of the order holds of every
sort: the entries are a permutation of the list the tables describe, sorted by ordinal.

`exportReference` is the list the tables describe when read at their declared addresses. Each of
the code's three table blocks has a spec lemma for a table that lies in the data, and from them
`lookupExports_eq_reference` shows that the code returns the reference list, sorted by ordinal,
for every directory that `ExportDirectory.Fits`: tables past the section's first byte, within its
range and data, name pointers into the section, and ordinals that neither wrap nor miss the
function guard. `lookupExports_sorted` holds for every run.
-/

namespace Abslw.Pe

/-- What `LookupExports` reports when it fails. -/
inductive PeError
  /-- `readSectionData` failed. -/
  | readSection
  /-- A read of the section data past its end. -/
  | fault
  deriving DecidableEq, Repr

/-! ## The section buffer -/

/-- `SectionBuffer::cast_fromle<T>` for a `w`-byte `T`: the little-endian value at `offset`, or a
fault when the value does not lie within the buffer. -/
def castFromle (sdata : List UInt8) (w offset : Nat) : Except PeError Nat :=
  if offset + w ≤ sdata.length then .ok (leAt sdata offset w) else .error .fault

/-- A value that lies within the buffer is read. -/
theorem castFromle_of_le {sdata : List UInt8} {w offset : Nat} (h : offset + w ≤ sdata.length) :
    castFromle sdata w offset = .ok (leAt sdata offset w) := if_pos h

/-- `SectionBuffer::direct_cast<T>` for a `size`-byte `T`: the bytes at `offset`, or none when they
do not lie within the buffer. -/
def directCast (sdata : List UInt8) (size offset : Nat) : Option (List UInt8) :=
  if offset + size > sdata.length then none else some ((sdata.drop offset).take size)

/-- `SectionBuffer::cstring_view(offset)`: the bytes from `offset` up to the next zero byte, or
nothing when `offset` is past the buffer or no zero byte follows it. -/
def cstringView (sdata : List UInt8) (offset : Nat) : List UInt8 :=
  if offset > sdata.length then []
  else if (0 : UInt8) ∈ sdata.drop offset then (sdata.drop offset).takeWhile (· != 0)
  else []

/-! ## The code -/

/-- `sizeof(IMAGE_EXPORT_DIRECTORY)`. -/
def imageExportDirectorySize : Nat := 40

/-- `IMAGE_EXPORT_DIRECTORY`, with the fields that `LookupExports` reads. -/
structure ExportDirectory where
  /-- `Base`, the first ordinal. -/
  base : Nat
  /-- `NumberOfNames`. -/
  numberOfNames : Nat
  /-- `AddressOfFunctions`, the address of the function table. -/
  addressOfFunctions : Nat
  /-- `AddressOfNames`, the address of the name-pointer table. -/
  addressOfNames : Nat
  /-- `AddressOfNameOrdinals`, the address of the name-ordinal table. -/
  addressOfNameOrdinals : Nat
  deriving DecidableEq, Repr

/-- The record's fields at their offsets 16, 24, 28, 32 and 36. -/
def ExportDirectory.ofBytes (b : List UInt8) : ExportDirectory :=
  ⟨leAt b 16 4, leAt b 24 4, leAt b 28 4, leAt b 32 4, leAt b 36 4⟩

/-- `ExportedSymbol`, with the fields that `LookupExports` sets. -/
structure ExportedSymbol where
  /-- `Name`. -/
  name : List UInt8
  /-- `Address`, `DWORD`. -/
  address : Nat
  /-- `Ordinal`, `unsigned short`. -/
  ordinal : Nat
  /-- `Hint`. -/
  hint : Nat
  deriving DecidableEq, Repr

/-- A value-initialised `ExportedSymbol`: empty name, address 0, ordinal `0xFFFF`, hint 0. -/
def ExportedSymbol.empty : ExportedSymbol := ⟨[], 0, 0xFFFF, 0⟩

/-- The test `a > ds->VirtualAddress && a < ds->VirtualAddress + ds->VirtualSize` that guards
each table, the sum in `uint32_t`, and the table's offset in the section data. -/
def tableOffset (ds : Section) (a : Nat) : Option Nat :=
  if ds.virtualAddress.val < a ∧ a < (ds.virtualAddress + ds.virtualSize).val
  then some (a - ds.virtualAddress.val) else none

/-- For a section whose range does not wrap, the test is the interval test over unbounded
integers. -/
theorem tableOffset_of_lt {ds : Section} (hs : ds.NoWrap) {a : Nat}
    (h : ds.virtualAddress.val < a ∧ a < ds.virtualAddress.val + ds.virtualSize.val) :
    tableOffset ds a = some (a - ds.virtualAddress.val) := by
  rw [tableOffset, if_pos (by rw [Fin.val_add, Nat.mod_eq_of_lt hs]; exact h)]

/-- The guard `sdata->size() - L` in `size_t`. -/
def sizeMinus (sdata : List UInt8) (L : Nat) : Nat := (sdata.length + 2 ^ 64 - L) % 2 ^ 64

/-- The guard does not wrap when the offset lies within the data. -/
theorem sizeMinus_of_le {sdata : List UInt8} {L : Nat} (h : L ≤ sdata.length)
    (hs : sdata.length < 2 ^ 64) : sizeMinus sdata L = sdata.length - L := by
  rw [sizeMinus]
  omega

/-- The name-ordinal loop from entry `i` on: each entry takes the `unsigned short` sum of the
ordinal at `L + 2 i` and the base, and the hint `i`. -/
def readNameOrdinals (sdata : List UInt8) (L ordinalBase : Nat) :
    Nat → List ExportedSymbol → Except PeError (List ExportedSymbol)
  | _, [] => pure []
  | i, e :: es => do
    let o ← castFromle sdata 2 (L + i * 2)
    let es ← readNameOrdinals sdata L ordinalBase (i + 1) es
    pure ({ e with ordinal := (o + ordinalBase) % 2 ^ 16, hint := i } :: es)

/-- The name loop from entry `i` on: each entry takes the string at the `uint32_t` difference of
the pointer at `N + 4 i` and the section's address. -/
def readNames (sdata : List UInt8) (N va : Nat) :
    Nat → List ExportedSymbol → Except PeError (List ExportedSymbol)
  | _, [] => pure []
  | i, e :: es => do
    let r ← castFromle sdata 4 (N + i * 4)
    let es ← readNames sdata N va (i + 1) es
    pure ({ e with name := cstringView sdata ((r + 2 ^ 32 - va) % 2 ^ 32) } :: es)

/-- The `uint32_t` difference of a pointer at or past the section's address is the plain one. -/
theorem nameOffset_of_le {r va : Nat} (hp : va ≤ r) (hr : r < 2 ^ 32) :
    (r + 2 ^ 32 - va) % 2 ^ 32 = r - va := by
  omega

/-- The function loop: an entry whose `Ordinal * 4 + 4` is below `sdata->size() - L` takes the
address in the slot at `L + (Ordinal - ordinalBase) * 4`, computed in `uint32_t`. -/
def readFunctions (sdata : List UInt8) (L ordinalBase : Nat) :
    List ExportedSymbol → Except PeError (List ExportedSymbol)
  | [] => pure []
  | e :: es => do
    let e ← if sizeMinus sdata L > e.ordinal * 4 + 4 then do
        let a ← castFromle sdata 4
          (((L : Int) + ((e.ordinal : Int) - ordinalBase) * 4) % 2 ^ 32).toNat
        pure { e with address := a }
      else pure e
    let es ← readFunctions sdata L ordinalBase es
    pure (e :: es)

/-- The slot of an entry whose ordinal is `o` past the base, with no wrap, is `L + 4 o`. -/
theorem functionSlot_of_lt {L b o : Nat} (hb : o + b < 2 ^ 16) (hL : L + 4 * o < 2 ^ 32) :
    (((L : Int) + ((((o + b) % 2 ^ 16 : Nat) : Int) - (b : Nat)) * 4) % 2 ^ 32).toNat =
      L + 4 * o := by
  rw [Nat.mod_eq_of_lt hb, Nat.cast_add, add_sub_cancel_right,
    Int.emod_eq_of_lt (by omega) (by omega)]
  omega

/-- Lines 133 to 142 of `LookupExports`: the name-ordinal table, read when its address passes the
test and the data past it holds more than two bytes for each entry. -/
def readOrdinalTable (sdata : List UInt8) (ds : Section) (ied : ExportDirectory)
    (exports : List ExportedSymbol) : Except PeError (List ExportedSymbol) :=
  match tableOffset ds ied.addressOfNameOrdinals with
  | some L =>
    if sizeMinus sdata L > exports.length * 2 then
      readNameOrdinals sdata L (ied.base % 2 ^ 16) 0 exports
    else pure exports
  | none => pure exports

/-- Lines 143 to 150: the name-pointer table, read when its address passes the test and the data
past it holds four bytes for each entry. -/
def readNameTable (sdata : List UInt8) (ds : Section) (ied : ExportDirectory)
    (exports : List ExportedSymbol) : Except PeError (List ExportedSymbol) :=
  match tableOffset ds ied.addressOfNames with
  | some N =>
    if sizeMinus sdata N ≥ exports.length * 4 then readNames sdata N ds.virtualAddress.val 0 exports
    else pure exports
  | none => pure exports

/-- Lines 151 to 158: the function table, read when its address passes the test, each slot behind
its own guard. -/
def readFunctionTable (sdata : List UInt8) (ds : Section) (ied : ExportDirectory)
    (exports : List ExportedSymbol) : Except PeError (List ExportedSymbol) :=
  match tableOffset ds ied.addressOfFunctions with
  | some L => readFunctions sdata L (ied.base % 2 ^ 16) exports
  | none => pure exports

/-- The part of `File::LookupExports` after the directory record is read:
`exports.resize(NumberOfNames)` and the three tables in the order the code reads them. -/
def readExportTables (sdata : List UInt8) (ds : Section) (ied : ExportDirectory) :
    Except PeError (List ExportedSymbol) := do
  let exports := List.replicate ied.numberOfNames ExportedSymbol.empty
  let exports ← readOrdinalTable sdata ds ied exports
  let exports ← readNameTable sdata ds ied exports
  readFunctionTable sdata ds ied exports

/-! ## The list the tables describe -/

/-- The export list read from the tables at their declared addresses, for a section at `va` with
data `sdata`: entry `i` has the name at the address `Names[i]`, the ordinal `Base +
NameOrdinals[i]` modulo `2 ^ 16`, the address `Functions[NameOrdinals[i]]` and the hint `i`. -/
def exportReference (sdata : List UInt8) (va : Nat) (ied : ExportDirectory) :
    List ExportedSymbol :=
  (List.range ied.numberOfNames).map fun i =>
    let nameOrdinal := leAt sdata (ied.addressOfNameOrdinals - va + 2 * i) 2
    { name := cstringView sdata (leAt sdata (ied.addressOfNames - va + 4 * i) 4 - va)
      address := leAt sdata (ied.addressOfFunctions - va + 4 * nameOrdinal) 4
      ordinal := (ied.base + nameOrdinal) % 2 ^ 16
      hint := i }

/-- `std::sort` by ordinal. -/
def sortByOrdinal (exports : List ExportedSymbol) : List ExportedSymbol :=
  exports.insertionSort fun a b => a.ordinal ≤ b.ordinal

instance ordinalLE_total : IsTotal ExportedSymbol fun a b => a.ordinal ≤ b.ordinal :=
  ⟨fun a b => Nat.le_total a.ordinal b.ordinal⟩

instance ordinalLE_trans : IsTrans ExportedSymbol fun a b => a.ordinal ≤ b.ordinal :=
  ⟨fun _ _ _ => Nat.le_trans⟩

/-- The sort leaves the entries in ascending order of ordinal. -/
theorem sortByOrdinal_sorted (exports : List ExportedSymbol) :
    (sortByOrdinal exports).Sorted fun a b => a.ordinal ≤ b.ordinal :=
  List.sorted_insertionSort _ exports

/-- The sort neither loses nor duplicates an entry. -/
theorem sortByOrdinal_perm (exports : List ExportedSymbol) :
    List.Perm (sortByOrdinal exports) exports :=
  List.perm_insertionSort _ exports

/-! ## The loops over tables that fit

Each loop is stated over the entries `i, i + 1, ...` of a list given by its indices, the form in
which the next loop finds it. Where its table lies in the data, the loop sets each entry's field
from the table and no read faults. -/

/-- The name-ordinal loop over a table that lies in the data sets entry `k`'s ordinal from the
table and its hint to `k`. -/
theorem readNameOrdinals_map (sdata : List UInt8) (L ordinalBase : Nat) (g : Nat → ExportedSymbol) :
    ∀ (m i : Nat), L + 2 * (i + m) ≤ sdata.length →
      readNameOrdinals sdata L ordinalBase i ((List.range' i m).map g) =
        .ok ((List.range' i m).map fun k =>
          { g k with ordinal := (leAt sdata (L + k * 2) 2 + ordinalBase) % 2 ^ 16, hint := k })
  | 0, _, _ => rfl
  | m + 1, i, h => by
    rw [List.range'_succ, List.map_cons, List.map_cons, readNameOrdinals,
      castFromle_of_le (by omega), ok_bind,
      readNameOrdinals_map sdata L ordinalBase g m (i + 1) (by omega), ok_bind]
    rfl

/-- The name loop over a table that lies in the data sets entry `k`'s name from the pointer at
`N + 4 k`. -/
theorem readNames_map (sdata : List UInt8) (N va : Nat) (g : Nat → ExportedSymbol) :
    ∀ (m i : Nat), N + 4 * (i + m) ≤ sdata.length →
      readNames sdata N va i ((List.range' i m).map g) =
        .ok ((List.range' i m).map fun k =>
          { g k with
            name := cstringView sdata ((leAt sdata (N + k * 4) 4 + 2 ^ 32 - va) % 2 ^ 32) })
  | 0, _, _ => rfl
  | m + 1, i, h => by
    rw [List.range'_succ, List.map_cons, List.map_cons, readNames,
      castFromle_of_le (by omega), ok_bind,
      readNames_map sdata N va g m (i + 1) (by omega), ok_bind]
    rfl

/-- The function loop, when every slot it reads lies in the data, sets the address of each entry
that passes its guard from the entry's slot. -/
theorem readFunctions_map (sdata : List UInt8) (L ordinalBase : Nat) :
    ∀ es : List ExportedSymbol,
      (∀ e ∈ es, sizeMinus sdata L > e.ordinal * 4 + 4 →
        (((L : Int) + ((e.ordinal : Int) - ordinalBase) * 4) % 2 ^ 32).toNat + 4 ≤ sdata.length) →
      readFunctions sdata L ordinalBase es = .ok (es.map fun e =>
        if sizeMinus sdata L > e.ordinal * 4 + 4 then
          { e with
            address :=
              leAt sdata (((L : Int) + ((e.ordinal : Int) - ordinalBase) * 4) % 2 ^ 32).toNat 4 }
        else e)
  | [], _ => rfl
  | e :: es, h => by
    have hrest := readFunctions_map sdata L ordinalBase es fun e' he' =>
      h e' (List.mem_cons_of_mem _ he')
    simp only [readFunctions, List.map_cons]
    split_ifs with hg
    · rw [castFromle_of_le (h e (List.mem_cons_self _ _) hg), ok_bind, pure_eq_ok, ok_bind, hrest]
      rfl
    · rw [pure_eq_ok, ok_bind, hrest]
      rfl

/-- An export directory whose tables the code reads as the format lays them out. -/
structure ExportDirectory.Fits (ied : ExportDirectory) (ds : Section) (sdata : List UInt8) :
    Prop where
  /-- The section's range ends below `2 ^ 32`. -/
  noWrap : ds.NoWrap
  /-- The data is shorter than `2 ^ 32` bytes, as a section's `Size` is. -/
  dataShort : sdata.length < 2 ^ 32
  /-- The name-ordinal table starts past the section's first byte, inside its range, and ends
  before the last byte of the data, as the code's strict guard asks. -/
  ordinals : ds.virtualAddress.val < ied.addressOfNameOrdinals ∧
    ied.addressOfNameOrdinals < ds.virtualAddress.val + ds.virtualSize.val ∧
    ied.addressOfNameOrdinals - ds.virtualAddress.val + 2 * ied.numberOfNames < sdata.length
  /-- The name-pointer table starts past the section's first byte, inside its range, and ends
  within the data. -/
  names : ds.virtualAddress.val < ied.addressOfNames ∧
    ied.addressOfNames < ds.virtualAddress.val + ds.virtualSize.val ∧
    ied.addressOfNames - ds.virtualAddress.val + 4 * ied.numberOfNames ≤ sdata.length
  /-- The function table starts past the section's first byte and inside its range. -/
  functions : ds.virtualAddress.val < ied.addressOfFunctions ∧
    ied.addressOfFunctions < ds.virtualAddress.val + ds.virtualSize.val
  /-- Each name pointer points into the section. -/
  namePointers : ∀ i < ied.numberOfNames,
    ds.virtualAddress.val ≤ leAt sdata (ied.addressOfNames - ds.virtualAddress.val + 4 * i) 4
  /-- Each name ordinal plus the base stays below `2 ^ 16`, and the data past the function table
  has room for `4 (base + ordinal) + 4` bytes, which the code's guard asks. -/
  nameOrdinals : ∀ i < ied.numberOfNames,
    ied.base % 2 ^ 16 + leAt sdata (ied.addressOfNameOrdinals - ds.virtualAddress.val + 2 * i) 2 <
      2 ^ 16 ∧
    ied.addressOfFunctions - ds.virtualAddress.val + 4 * (ied.base % 2 ^ 16 +
      leAt sdata (ied.addressOfNameOrdinals - ds.virtualAddress.val + 2 * i) 2) + 4 < sdata.length

/-- Where the name-ordinal table lies in the section and before the last byte of the data, its
block sets each entry's ordinal from the table and its hint to its index. -/
theorem readOrdinalTable_of_lt {sdata : List UInt8} {ds : Section} {ied : ExportDirectory}
    (hw : ds.NoWrap) (hs : sdata.length < 2 ^ 64) (g : Nat → ExportedSymbol) {m : Nat}
    (h : ds.virtualAddress.val < ied.addressOfNameOrdinals ∧
      ied.addressOfNameOrdinals < ds.virtualAddress.val + ds.virtualSize.val ∧
      ied.addressOfNameOrdinals - ds.virtualAddress.val + 2 * m < sdata.length) :
    readOrdinalTable sdata ds ied ((List.range' 0 m).map g) =
      .ok ((List.range' 0 m).map fun k => { g k with
        ordinal := (leAt sdata (ied.addressOfNameOrdinals - ds.virtualAddress.val + k * 2) 2 +
          ied.base % 2 ^ 16) % 2 ^ 16
        hint := k }) := by
  rw [readOrdinalTable, tableOffset_of_lt hw ⟨h.1, h.2.1⟩]
  dsimp only
  rw [List.length_map, List.length_range', sizeMinus_of_le (by omega) hs, if_pos (by omega)]
  exact readNameOrdinals_map _ _ _ _ _ _ (by omega)

/-- Where the name-pointer table lies in the section and the data, its block sets each entry's
name from its pointer. -/
theorem readNameTable_of_le {sdata : List UInt8} {ds : Section} {ied : ExportDirectory}
    (hw : ds.NoWrap) (hs : sdata.length < 2 ^ 64) (g : Nat → ExportedSymbol) {m : Nat}
    (h : ds.virtualAddress.val < ied.addressOfNames ∧
      ied.addressOfNames < ds.virtualAddress.val + ds.virtualSize.val ∧
      ied.addressOfNames - ds.virtualAddress.val + 4 * m ≤ sdata.length) :
    readNameTable sdata ds ied ((List.range' 0 m).map g) =
      .ok ((List.range' 0 m).map fun k => { g k with
        name := cstringView sdata
          ((leAt sdata (ied.addressOfNames - ds.virtualAddress.val + k * 4) 4 + 2 ^ 32 -
            ds.virtualAddress.val) % 2 ^ 32) }) := by
  rw [readNameTable, tableOffset_of_lt hw ⟨h.1, h.2.1⟩]
  dsimp only
  rw [List.length_map, List.length_range', sizeMinus_of_le (by omega) hs, if_pos (by omega)]
  exact readNames_map _ _ _ _ _ _ (by omega)

/-- Where the function table lies in the section, its block is the function loop at the table's
offset. -/
theorem readFunctionTable_of_lt {sdata : List UInt8} {ds : Section} {ied : ExportDirectory}
    (hw : ds.NoWrap) (es : List ExportedSymbol)
    (h : ds.virtualAddress.val < ied.addressOfFunctions ∧
      ied.addressOfFunctions < ds.virtualAddress.val + ds.virtualSize.val) :
    readFunctionTable sdata ds ied es = readFunctions sdata
      (ied.addressOfFunctions - ds.virtualAddress.val) (ied.base % 2 ^ 16) es := by
  rw [readFunctionTable, tableOffset_of_lt hw h]

/-- For a directory that fits, the three loops read the reference list: every entry takes its
name, ordinal, address and hint from the tables at their declared addresses. -/
theorem readExportTables_eq_reference {ied : ExportDirectory} {ds : Section} {sdata : List UInt8}
    (hfits : ied.Fits ds sdata) :
    readExportTables sdata ds ied = .ok (exportReference sdata ds.virtualAddress.val ied) := by
  obtain ⟨hw, hshort, ho, hn, hf, hptr, hord⟩ := hfits
  have hs : sdata.length < 2 ^ 64 := by omega
  have hrep : List.replicate ied.numberOfNames ExportedSymbol.empty =
      (List.range' 0 ied.numberOfNames).map fun _ => ExportedSymbol.empty := by
    rw [List.map_const', List.length_range']
  rw [readExportTables, hrep, readOrdinalTable_of_lt hw hs _ ho, ok_bind,
    readNameTable_of_le hw hs _ hn, ok_bind, readFunctionTable_of_lt hw _ hf, readFunctions_map]
  · -- entry `k` of the loops is entry `k` of the reference
    rw [List.map_map, exportReference, List.range_eq_range']
    congr 1
    refine List.map_congr_left fun k hk => ?_
    rw [List.mem_range'_1] at hk
    obtain ⟨hb, hroom⟩ := hord k (by omega)
    have hp := hptr k (by omega)
    have hr := leAt_lt sdata (ied.addressOfNames - ds.virtualAddress.val + 4 * k) 4
    dsimp only [Function.comp, ExportedSymbol.empty]
    rw [Nat.mul_comm k 2, Nat.mul_comm k 4, sizeMinus_of_le (by omega) hs]
    generalize leAt sdata (ied.addressOfNameOrdinals - ds.virtualAddress.val + 2 * k) 2 = o
      at hb hroom ⊢
    generalize leAt sdata (ied.addressOfNames - ds.virtualAddress.val + 4 * k) 4 = r at hp hr ⊢
    rw [functionSlot_of_lt (by omega) (by omega), if_pos (by omega), nameOffset_of_le hp hr,
      Nat.add_mod_mod, Nat.add_comm o ied.base]
  · -- every slot the function loop reads lies in the data
    simp only [List.forall_mem_map, List.mem_range'_1]
    intro k hk
    obtain ⟨hb, hroom⟩ := hord k (by omega)
    rw [Nat.mul_comm k 2, sizeMinus_of_le (by omega) hs]
    generalize leAt sdata (ied.addressOfNameOrdinals - ds.virtualAddress.val + 2 * k) 2 = o
      at hb hroom ⊢
    rw [functionSlot_of_lt (by omega) (by omega)]
    omega

section Exports

variable (readSectionData : Section → Option (List UInt8))

/-- `File::LookupExports`: no entries when there is no export directory, no section holds it, or
its record does not fit in the section data, or it names no function; otherwise the entries the
three tables give, sorted by ordinal. It fails when the section data cannot be read, and faults
on a read past the section data. -/
def lookupExports (oh : OptionalHeader) (sections : List Section) :
    Except PeError (List ExportedSymbol) :=
  match getDataDirectory oh imageDirectoryEntryExport with
  | none => pure []
  | some exd =>
  match getSection exd sections with
  | none => pure []
  | some ds =>
  match readSectionData ds with
  | none => throw .readSection
  | some sdata =>
  match directCast sdata imageExportDirectorySize (exd.virtualAddress - ds.virtualAddress).val with
  | none => pure []
  | some cied =>
  let ied := ExportDirectory.ofBytes cied
  if ied.numberOfNames = 0 then pure [] else do
  let exports ← readExportTables sdata ds ied
  pure (sortByOrdinal exports)

/-- A section of 72 bytes of data at `0x1000`. -/
def tablesSection : Section := ⟨".edata", 0x1000, 0x1000, 72, 0x400⟩

/-- Data for `tablesSection` whose tables all lie past its first byte: the directory record at 0
(base 1, one function and one name, the tables at `0x1030`, `0x1028` and `0x1038`), the
name-pointer table at 40 (`0x1040`), the function table at 48 (`0x2000`), the name-ordinal table
at 56 (ordinal 0), and the name `f` at 64. -/
def tablesInside : List UInt8 :=
  (List.replicate 16 0 ++ toLE 4 1 ++ toLE 4 1 ++ toLE 4 1 ++ toLE 4 0x1030 ++ toLE 4 0x1028 ++
    toLE 4 0x1038) ++ toLE 4 0x1040 ++ List.replicate 4 0 ++ toLE 4 0x2000 ++
    List.replicate 4 0 ++ toLE 2 0 ++ List.replicate 6 0 ++ [0x66, 0] ++ List.replicate 6 0

/-- Where the export directory's record lies in the section data and its tables fit, the code
returns the reference list, in some order sorted by ordinal. -/
theorem lookupExports_eq_reference {oh : OptionalHeader} {sections : List Section}
    {exd : DataDirectory} {ds : Section} {sdata cied : List UInt8}
    (hexd : getDataDirectory oh imageDirectoryEntryExport = some exd)
    (hds : getSection exd sections = some ds) (hdata : readSectionData ds = some sdata)
    (hcied : directCast sdata imageExportDirectorySize
      (exd.virtualAddress - ds.virtualAddress).val = some cied)
    (hfits : (ExportDirectory.ofBytes cied).Fits ds sdata) :
    ∃ exports, lookupExports readSectionData oh sections = .ok exports ∧
      exports.Perm (exportReference sdata ds.virtualAddress.val (ExportDirectory.ofBytes cied)) ∧
      exports.Sorted fun a b => a.ordinal ≤ b.ordinal := by
  refine ⟨_, ?_, sortByOrdinal_perm _, sortByOrdinal_sorted _⟩
  simp only [lookupExports, hexd, hds, hdata, hcied]
  split_ifs with h0
  · rw [exportReference, h0]
    rfl
  · rw [readExportTables_eq_reference hfits]
    rfl

/-- On `tablesInside`, whose directory fits, `LookupExports` returns the reference list, sorted. -/
theorem lookupExports_tablesInside :
    getDataDirectory (headerWithEntry 16 0 ⟨0x1000, 40⟩) imageDirectoryEntryExport =
      some ⟨0x1000, 40⟩ ∧
    getSection ⟨0x1000, 40⟩ [tablesSection] = some tablesSection ∧
    directCast tablesInside imageExportDirectorySize
      ((⟨0x1000, 40⟩ : DataDirectory).virtualAddress - tablesSection.virtualAddress).val =
      some (tablesInside.take 40) ∧
    (ExportDirectory.ofBytes (tablesInside.take 40)).Fits tablesSection tablesInside ∧
    ∃ exports, lookupExports (fun _ => some tablesInside) (headerWithEntry 16 0 ⟨0x1000, 40⟩)
        [tablesSection] = .ok exports ∧
      exports.Perm (exportReference tablesInside tablesSection.virtualAddress.val
        (ExportDirectory.ofBytes (tablesInside.take 40))) ∧
      exports.Sorted fun a b => a.ordinal ≤ b.ordinal := by
  have hexd : getDataDirectory (headerWithEntry 16 0 ⟨0x1000, 40⟩) imageDirectoryEntryExport =
      some ⟨0x1000, 40⟩ := by decide
  have hds : getSection ⟨0x1000, 40⟩ [tablesSection] = some tablesSection := by decide
  have hcied : directCast tablesInside imageExportDirectorySize
      ((⟨0x1000, 40⟩ : DataDirectory).virtualAddress - tablesSection.virtualAddress).val =
      some (tablesInside.take 40) := by decide
  have hfits : (ExportDirectory.ofBytes (tablesInside.take 40)).Fits tablesSection tablesInside :=
    ⟨by decide, by decide, by decide, by decide, by decide, by decide, by decide⟩
  exact ⟨hexd, hds, hcied, hfits,
    lookupExports_eq_reference (fun _ => some tablesInside) hexd hds rfl hcied hfits⟩

/-- A section of 80 bytes of data at `0x1000`, whose range reaches `0x11000`, and a header whose
export directory is at the section's start. -/
def edataSection : Section := ⟨".edata", 0x10000, 0x1000, 80, 0x400⟩

/-- The data of `edataSection`: the directory record (base 1, one function and one name, the
function and name tables at address 0, the name-ordinal table at `0x1100`) and 40 zero bytes.
The name-ordinal table lies in the section's range but past the end of its data. -/
def ordinalsPastData : List UInt8 :=
  List.replicate 16 0 ++ toLE 4 1 ++ toLE 4 1 ++ toLE 4 1 ++ toLE 4 0 ++ toLE 4 0 ++
    toLE 4 0x1100 ++ List.replicate 40 0

/-- `LookupExports` reads the name ordinal at offset 256 of the 80 bytes of `ordinalsPastData`:
the guard `sdata->size() - L > exports.size() * 2` wraps in `size_t`. -/
theorem lookupExports_ordinalsPastData :
    lookupExports (fun _ => some ordinalsPastData) (headerWithEntry 16 0 ⟨0x1000, 40⟩)
      [edataSection] = .error .fault := by
  decide

/-- The data of `tablesSection`: the name-ordinal table at its first byte (one ordinal, 0), the
name-pointer table at 8 (`0x1040`), the function table at 16 (`0x2000`), the directory record at
24 (base 1, one function and one name, the tables at `0x1010`, `0x1008` and `0x1000`), and the
name `f` at 64. Every table, slot and name lies in the data. -/
def tablesAtStart : List UInt8 :=
  toLE 2 0 ++ List.replicate 6 0 ++ toLE 4 0x1040 ++ List.replicate 4 0 ++ toLE 4 0x2000 ++
    List.replicate 4 0 ++
    (List.replicate 16 0 ++ toLE 4 1 ++ toLE 4 1 ++ toLE 4 1 ++ toLE 4 0x1010 ++ toLE 4 0x1008 ++
      toLE 4 0x1000) ++
    [0x66, 0] ++ List.replicate 6 0

/-- On `tablesAtStart` the reference list is the name `f` with ordinal 1 and address `0x2000`,
but `LookupExports` skips the name-ordinal table, which starts at the section's address, leaves
the ordinal at `0xFFFF`, and then skips the function slot, whose guard uses that ordinal. -/
theorem lookupExports_tablesAtStart :
    lookupExports (fun _ => some tablesAtStart) (headerWithEntry 16 0 ⟨0x1018, 40⟩)
        [tablesSection] = .ok [⟨[0x66], 0, 0xFFFF, 0⟩] ∧
      exportReference tablesAtStart 0x1000
          (ExportDirectory.ofBytes ((tablesAtStart.drop 24).take 40)) = [⟨[0x66], 0x2000, 1, 0⟩] := by
  decide

end Exports

end Abslw.Pe
