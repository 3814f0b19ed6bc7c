import Abslw.Zip.Basic

/-!
# Locating and decoding the end of the central directory

`Reader::readDirectoryEnd` of `hazel/zip/zip.cc` reads the last 1 KiB of the file and searches it
backwards for an end-of-central-directory record (`findSignatureInBlock`); failing that, it widens
the search to the last 65 KiB. It decodes the record's fixed fields and comment from the block,
follows the Zip64 locator when a count, size or offset holds its sentinel, and checks the directory
offset.

The main result proves that the search finds the last valid candidate of the file, whichever
pass finds it, and that the record is decoded from its absolute position with the comment the
record declares: `readDirectoryEnd` is `finishDirectoryEnd` applied to the record at that
candidate. Its proof goes through `findSignatureInBlock_eq_some` (the scan returns the last
position that passes its test), `signatureAt_drop` (a test in a tail block is a test in the file)
and `decodeDirectoryEnd_eq` (the cursor reads the APPNOTE fields).

The Zip64 record is read by `readDirectory64End`, which skips sixteen bytes after the four it has
already consumed for the signature: `readDirectory64End_faults` shows that every read of a signed
record ends in a read past its 56-byte buffer, where `readd64e`, the same function in the other
copy of the reader, reads the APPNOTE fields (`readd64e_eq`). The Zip64 step is stated once,
`resolveZip64`, over how a copy finds the locator and reads the record, so that the other copy
(`DirectoryEndCopy`) shares it. The offset test compares `0` rather than the offset with the file
size, so a directory offset past the end of the file passes (`readDirectoryEnd_offsetPastEnd`).
-/

namespace Abslw.Zip

/-- `directoryEnd`, declared in `hazel/zip.hpp` (not among the sources), with the fields that
`zip.cc` fills: disk numbers (`uint32_t`), record counts, directory size and offset (`uint64_t`),
and the comment with its length (`uint16_t`). -/
structure DirectoryEnd where
  /-- The number of this disk. -/
  diskNbr : Nat
  /-- The disk on which the central directory starts. -/
  dirDiskNbr : Nat
  /-- The number of directory records on this disk. -/
  dirRecordsThisDisk : Nat
  /-- The number of directory records. -/
  directoryRecords : Nat
  /-- The size of the central directory. -/
  directorySize : Nat
  /-- The offset of the central directory. -/
  directoryOffset : Nat
  /-- The declared length of the archive comment. -/
  commentLen : Nat
  /-- The archive comment. -/
  comment : List UInt8
  deriving DecidableEq, Repr

/-! ## The search -/

/-- The test of `findSignatureInBlock` at position `i` of the block `b`: the bytes `P`, `K`,
`0x05`, `0x06`, and a comment length `b[i+20] | b[i+21] << 8` that keeps the record within the
block. -/
def signatureAt (b : List UInt8) (i : Nat) : Prop :=
  (b.drop i).take 4 = [0x50, 0x4b, 0x05, 0x06] ∧
    leAt b (i + directoryEndLen - 2) 2 + directoryEndLen + i ≤ b.length

instance (b : List UInt8) (i : Nat) : Decidable (signatureAt b i) :=
  inferInstanceAs (Decidable (_ ∧ _))

/-- `findSignatureInBlock`: the first position, scanning down from `b.size() - directoryEndLen`,
that passes `signatureAt`; `none` is the source's `-1`. -/
def findSignatureInBlock (b : List UInt8) : Option Nat :=
  scan (b.length + 1 - directoryEndLen)
where
  /-- The loop over `i = n - 1, …, 0`. -/
  scan : Nat → Option Nat
    | 0 => none
    | i + 1 => if signatureAt b i then some i else scan i

/-- One pass of the loop of `readDirectoryEnd`: the last `blen` bytes of the file (all of it
when smaller), their length, and the position that `findSignatureInBlock` finds in them. -/
def searchPass (f : List UInt8) (blen : Nat) : Except ZipError (List UInt8 × Nat × Option Nat) := do
  let blen := min blen f.length
  let buf ← readAt f (f.length - blen) blen
  pure (buf, blen, findSignatureInBlock buf)

/-- The loop of `readDirectoryEnd` over `offrange = {1024, 65 * 1024}`, unrolled: a first pass
over the last 1 KiB, which ends the search when it covered the whole file (`blen == size`), then
a pass over the last 65 KiB (`i == 1`). It returns the block, the position found in it, and that
position in the file, `directoryEndOffset`. -/
def searchDirectoryEnd (f : List UInt8) : Except ZipError (List UInt8 × Nat × Nat) := do
  let (buf, blen, p) ← searchPass f 1024
  match p with
  | some p => pure (buf, p, f.length - blen + p)
  | none =>
    if blen = f.length then throw .notValid
    let (buf, blen, p) ← searchPass f (65 * 1024)
    match p with
    | some p => pure (buf, p, f.length - blen + p)
    | none => throw .notValid

/-! ## Decoding -/

/-- The fixed fields and the comment of an end record, read from a view `b` that starts at the
record: the part of `readDirectoryEnd` between the search and the Zip64 test. -/
def decodeDirectoryEnd (b : LittenEndian) : Except ZipError DirectoryEnd := do
  let b ← orFault (b.discard 4)
  let (diskNbr, b) ← orFault (b.read 2)
  let (dirDiskNbr, b) ← orFault (b.read 2)
  let (dirRecordsThisDisk, b) ← orFault (b.read 2)
  let (directoryRecords, b) ← orFault (b.read 2)
  let (directorySize, b) ← orFault (b.read 4)
  let (directoryOffset, b) ← orFault (b.read 4)
  let (commentLen, b) ← orFault (b.read 2)
  if commentLen > b.size then throw .invalidCommentLength
  else pure ⟨diskNbr, dirDiskNbr, dirRecordsThisDisk, directoryRecords, directorySize,
    directoryOffset, commentLen, b.data.take commentLen⟩

/-- `static_cast<int64_t>` of a `uint64_t` value. -/
def toInt64 (n : Nat) : Int := if n < 2 ^ 63 then n else (n : Int) - 2 ^ 64

/-- A value below `2 ^ 63` keeps its value as `int64_t`. -/
theorem toInt64_of_lt {n : Nat} (h : n < 2 ^ 63) : toInt64 n = n := if_pos h

/-- `Reader::findDirectory64End`: the offset of the Zip64 end record that the locator in the 20
bytes before the end record names, or `-1` when there is no room for a locator, no locator
signature, a disk other than `0`, or a disk count other than `1`. -/
def findDirectory64End (f : List UInt8) (directoryEndOffset : Nat) : Except ZipError Int :=
  if directoryEndOffset < directory64LocLen then pure (-1) else do
  let buf ← readAt f (directoryEndOffset - directory64LocLen) directory64LocLen
  let (sig, b) ← orFault (LittenEndian.read 4 ⟨buf⟩)
  if sig ≠ directory64LocSignature then pure (-1) else do
  let (disk, b) ← orFault (b.read 4)
  if disk ≠ 0 then pure (-1) else do
  let (p, b) ← orFault (b.read 8)
  let (total, _) ← orFault (b.read 4)
  if total ≠ 1 then pure (-1) else pure (toInt64 p)

/-- `Reader::readDirectory64End`: the Zip64 end record at `offset`, whose fields replace those of
`d`. After the four signature bytes it discards sixteen more, so the field that the source's
comment calls the number of this disk, at offset 16 of the record, is read from bytes 20 to 23. -/
def readDirectory64End (f : List UInt8) (offset : Nat) (d : DirectoryEnd) :
    Except ZipError DirectoryEnd := do
  let buf ← readAt f offset directory64EndLen
  let (sig, b) ← orFault (LittenEndian.read 4 ⟨buf⟩)
  if sig ≠ directory64EndSignature then throw .notValid
  let b ← orFault (b.discard 16)
  let (diskNbr, b) ← orFault (b.read 4)
  let (dirDiskNbr, b) ← orFault (b.read 4)
  let (dirRecordsThisDisk, b) ← orFault (b.read 8)
  let (directoryRecords, b) ← orFault (b.read 8)
  let (directorySize, b) ← orFault (b.read 8)
  let (directoryOffset, _) ← orFault (b.read 8)
  pure { d with
    diskNbr := diskNbr, dirDiskNbr := dirDiskNbr, dirRecordsThisDisk := dirRecordsThisDisk,
    directoryRecords := directoryRecords, directorySize := directorySize,
    directoryOffset := directoryOffset }

/-- `Reader::readd64e` of the other copy of the reader (`part_005`): the same record, read at
fixed offsets 16 to 48 from its start. -/
def readd64e (f : List UInt8) (offset : Nat) (d : DirectoryEnd) : Except ZipError DirectoryEnd := do
  let b ← readAt f offset directory64EndLen
  if leAt b 0 4 ≠ directory64EndSignature then throw .notValid
  let sv := b.drop 16
  pure { d with
    diskNbr := leAt sv 0 4, dirDiskNbr := leAt sv 4 4, dirRecordsThisDisk := leAt sv 8 8,
    directoryRecords := leAt sv 16 8, directorySize := leAt sv 24 8,
    directoryOffset := leAt sv 32 8 }

/-- The Zip64 step of both copies of the reader, given how a copy finds the locator and reads
the record: when the record count is `0xFFFF`, the directory size `0xFFFF` or the offset
`0xFFFFFFFF`, follow a Zip64 locator that names a positive offset. -/
def resolveZip64 (find64 : List UInt8 → Nat → Except ZipError Int)
    (read64 : List UInt8 → Nat → DirectoryEnd → Except ZipError DirectoryEnd)
    (f : List UInt8) (directoryEndOffset : Nat) (d : DirectoryEnd) : Except ZipError DirectoryEnd :=
  if d.directoryRecords = 0xFFFF ∨ d.directorySize = 0xFFFF ∨ d.directoryOffset = 0xFFFFFFFF then do
    let p ← find64 f directoryEndOffset
    if p > 0 then read64 f p.toNat d else pure d
  else pure d

/-- The Zip64 step of `readDirectoryEnd`. -/
def resolveDirectory64 (f : List UInt8) (directoryEndOffset : Nat) (d : DirectoryEnd) :
    Except ZipError DirectoryEnd :=
  resolveZip64 findDirectory64End readDirectory64End f directoryEndOffset d

/-- The end of `readDirectoryEnd` once the record at `directoryEndOffset` is decoded as `d`: the
Zip64 step, then the test that rejects an offset negative as `int64_t`, or any offset when the
file size is not positive. -/
def finishDirectoryEnd (f : List UInt8) (directoryEndOffset : Nat) (d : DirectoryEnd) :
    Except ZipError DirectoryEnd := do
  let d ← resolveDirectory64 f directoryEndOffset d
  if toInt64 d.directoryOffset < 0 ∨ 0 ≥ f.length then throw .notValid else pure d

/-- `Reader::readDirectoryEnd`: search, decode the record from the block, finish. -/
def readDirectoryEnd (f : List UInt8) : Except ZipError DirectoryEnd := do
  let (buf, p, directoryEndOffset) ← searchDirectoryEnd f
  let d ← decodeDirectoryEnd ⟨buf.drop p⟩
  finishDirectoryEnd f directoryEndOffset d

/-! ## The format -/

/-- An end record at `e` of the file `f`: the signature `PK\x05\x06`, and the 22 fixed bytes and
the declared comment within the file. -/
def EndRecordAt (f : List UInt8) (e : Nat) : Prop :=
  (f.drop e).take 4 = [0x50, 0x4b, 0x05, 0x06] ∧ e + 22 + leAt f (e + 20) 2 ≤ f.length

/-- A valid candidate: an end record within the last `min size 65 KiB` bytes of the file. -/
def ValidCandidate (f : List UInt8) (e : Nat) : Prop :=
  f.length - min f.length (65 * 1024) ≤ e ∧ EndRecordAt f e

instance (f : List UInt8) (e : Nat) : Decidable (ValidCandidate f e) :=
  inferInstanceAs (Decidable (_ ∧ _ ∧ _))

/-- The end record at `e` as APPNOTE lays it out: disk numbers and record counts of two bytes at
4 to 10, directory size and offset of four bytes at 12 and 16, the comment length at 20, and the
comment after the 22 fixed bytes. -/
def directoryEndAt (f : List UInt8) (e : Nat) : DirectoryEnd :=
  ⟨leAt f (e + 4) 2, leAt f (e + 6) 2, leAt f (e + 8) 2, leAt f (e + 10) 2, leAt f (e + 12) 4,
    leAt f (e + 16) 4, leAt f (e + 20) 2, (f.drop (e + 22)).take (leAt f (e + 20) 2)⟩

/-- The Zip64 end record at `p` as APPNOTE lays it out, over the fields of `d`: the disk numbers
of four bytes at 16 and 20, and the counts, size and offset of eight bytes at 24 to 48. -/
def directory64EndAt (f : List UInt8) (p : Nat) (d : DirectoryEnd) : DirectoryEnd :=
  { d with
    diskNbr := leAt f (p + 16) 4, dirDiskNbr := leAt f (p + 20) 4,
    dirRecordsThisDisk := leAt f (p + 24) 8, directoryRecords := leAt f (p + 32) 8,
    directorySize := leAt f (p + 40) 8, directoryOffset := leAt f (p + 48) 8 }

/-! ## The search finds the last candidate -/

/-- The scan returns the last position below `n` that passes the test. -/
theorem scan_eq_some {b : List UInt8} {i : Nat} : ∀ {n : Nat},
    findSignatureInBlock.scan b n = some i ↔
      i < n ∧ signatureAt b i ∧ ∀ j, j < n → signatureAt b j → j ≤ i
  | 0 => by simp [findSignatureInBlock.scan]
  | n + 1 => by
    rw [findSignatureInBlock.scan]
    split_ifs with h
    · constructor
      · rintro ⟨⟩
        exact ⟨by omega, h, fun j hj _ => by omega⟩
      · rintro ⟨hi, -, hmax⟩
        have := hmax n (by omega) h
        exact congrArg some (by omega)
    · rw [scan_eq_some]
      constructor
      · rintro ⟨hi, hs, hmax⟩
        refine ⟨by omega, hs, fun j hj hsj => ?_⟩
        rcases Nat.lt_succ_iff_lt_or_eq.mp hj with hj | rfl
        · exact hmax j hj hsj
        · exact absurd hsj h
      · rintro ⟨hi, hs, hmax⟩
        have hin : i ≠ n := fun e => h (e ▸ hs)
        exact ⟨by omega, hs, fun j hj => hmax j (by omega)⟩

/-- The scan finds nothing below `n` when no position there passes the test. -/
theorem scan_eq_none {b : List UInt8} : ∀ {n : Nat},
    findSignatureInBlock.scan b n = none ↔ ∀ j, j < n → ¬ signatureAt b j
  | 0 => by simp [findSignatureInBlock.scan]
  | n + 1 => by
    rw [findSignatureInBlock.scan]
    split_ifs with h
    · simpa using ⟨n, by omega, h⟩
    · rw [scan_eq_none]
      exact ⟨fun hn j hj => (Nat.lt_succ_iff_lt_or_eq.mp hj).elim (hn j) (· ▸ h),
        fun hn j hj => hn j (by omega)⟩

/-- A position that passes the test lies in the scanned range. -/
theorem signatureAt_lt {b : List UInt8} {j : Nat} (h : signatureAt b j) :
    j < b.length + 1 - directoryEndLen := by
  have := h.2
  simp only [directoryEndLen] at this ⊢
  omega

/-- `findSignatureInBlock` returns the last position of the block that passes the test. -/
theorem findSignatureInBlock_eq_some {b : List UInt8} {i : Nat} :
    findSignatureInBlock b = some i ↔ signatureAt b i ∧ ∀ j, signatureAt b j → j ≤ i := by
  rw [findSignatureInBlock, scan_eq_some]
  exact ⟨fun ⟨_, hs, hmax⟩ => ⟨hs, fun j hj => hmax j (signatureAt_lt hj) hj⟩,
    fun ⟨hs, hmax⟩ => ⟨signatureAt_lt hs, hs, fun j _ hj => hmax j hj⟩⟩

/-- `findSignatureInBlock` fails exactly on blocks where no position passes the test. -/
theorem findSignatureInBlock_eq_none {b : List UInt8} :
    findSignatureInBlock b = none ↔ ∀ j, ¬ signatureAt b j := by
  rw [findSignatureInBlock, scan_eq_none]
  exact ⟨fun h j hj => h j (signatureAt_lt hj) hj, fun h j _ => h j⟩

/-- The test at `i` of the tail of the file from `s` is an end record at `s + i` of the file:
the block ends where the file ends. -/
theorem signatureAt_drop (f : List UInt8) (s i : Nat) :
    signatureAt (f.drop s) i ↔ EndRecordAt f (s + i) := by
  rw [signatureAt, show i + directoryEndLen - 2 = i + 20 from rfl, EndRecordAt, List.drop_drop,
    leAt_drop, List.length_drop, show s + (i + 20) = s + i + 20 by omega]
  simp only [directoryEndLen]
  constructor <;> rintro ⟨h1, h2⟩ <;> exact ⟨h1, by omega⟩

/-- The search of the tail from `s` finds the last end record from `s` on. -/
theorem findSignatureInBlock_drop_eq_some {f : List UInt8} {s p : Nat} :
    findSignatureInBlock (f.drop s) = some p ↔
      EndRecordAt f (s + p) ∧ ∀ e, s ≤ e → EndRecordAt f e → e ≤ s + p := by
  rw [findSignatureInBlock_eq_some, signatureAt_drop]
  refine and_congr_right fun _ => ⟨fun h e hse he => ?_, fun h j hj => ?_⟩
  · have := h (e - s) (by rwa [signatureAt_drop, Nat.add_sub_cancel' hse])
    omega
  · have := h (s + j) (by omega) ((signatureAt_drop f s j).mp hj)
    omega

/-- The search of the tail from `s` fails when there is no end record from `s` on. -/
theorem findSignatureInBlock_drop_eq_none {f : List UInt8} {s : Nat} :
    findSignatureInBlock (f.drop s) = none ↔ ∀ e, s ≤ e → ¬ EndRecordAt f e := by
  rw [findSignatureInBlock_eq_none]
  refine ⟨fun h e hse he => h (e - s) ?_, fun h j hj => h (s + j) (by omega) ?_⟩
  · rwa [signatureAt_drop, Nat.add_sub_cancel' hse]
  · exact (signatureAt_drop f s j).mp hj

/-- A pass reads the file's tail of `min blen size` bytes. -/
theorem searchPass_eq (f : List UInt8) (blen : Nat) :
    searchPass f blen = .ok (f.drop (f.length - min blen f.length), min blen f.length,
      findSignatureInBlock (f.drop (f.length - min blen f.length))) := by
  simp only [searchPass, readAt_tail f (Nat.min_le_right _ _)]
  rfl

/-- A pass that starts in the window and at or before the last valid candidate `e` finds `e`;
one that starts after it finds nothing. -/
theorem findSignatureInBlock_window {f : List UInt8} {e s : Nat} (hv : ValidCandidate f e)
    (hmax : ∀ e', ValidCandidate f e' → e' ≤ e) (hs : f.length - min f.length (65 * 1024) ≤ s) :
    findSignatureInBlock (f.drop s) = if s ≤ e then some (e - s) else none := by
  split_ifs with hse
  · rw [findSignatureInBlock_drop_eq_some, Nat.add_sub_cancel' hse]
    exact ⟨hv.2, fun e' hse' he' => hmax e' ⟨by omega, he'⟩⟩
  · exact findSignatureInBlock_drop_eq_none.mpr fun e' hse' he' =>
      hse (le_trans hse' (hmax e' ⟨by omega, he'⟩))

/-- Without a valid candidate, both passes fail and so does the search. -/
theorem searchDirectoryEnd_of_none {f : List UInt8} (h : ∀ e, ¬ ValidCandidate f e) :
    searchDirectoryEnd f = .error .notValid := by
  have none_from (s : Nat) (hs : f.length - min f.length (65 * 1024) ≤ s) :
      findSignatureInBlock (f.drop s) = none :=
    findSignatureInBlock_drop_eq_none.mpr fun e hse he => h e ⟨by omega, he⟩
  simp only [searchDirectoryEnd, searchPass_eq, ok_bind]
  rw [none_from _ (by omega), none_from _ (by omega)]
  split_ifs <;> rfl

/-- The search ends at the last valid candidate `e`, in a block that starts at or before it. -/
theorem searchDirectoryEnd_of_last {f : List UInt8} {e : Nat} (hv : ValidCandidate f e)
    (hmax : ∀ e', ValidCandidate f e' → e' ≤ e) :
    ∃ s, s ≤ e ∧ searchDirectoryEnd f = .ok (f.drop s, e - s, e) := by
  simp only [searchDirectoryEnd, searchPass_eq, ok_bind]
  rw [findSignatureInBlock_window hv hmax (by omega),
    findSignatureInBlock_window hv hmax (by have := hv.1; omega)]
  by_cases h1 : f.length - min 1024 f.length ≤ e
  · exact ⟨_, h1, by simp only [if_pos h1, Nat.add_sub_cancel' h1]; rfl⟩
  · have h2 : f.length - min (65 * 1024) f.length ≤ e := by have := hv.1; omega
    have h3 : ¬ min 1024 f.length = f.length := by omega
    exact ⟨_, h2, by simp only [if_neg h1, if_neg h3, if_pos h2, Nat.add_sub_cancel' h2]; rfl⟩

/-- The cursor reads the fixed fields at their APPNOTE offsets, and the comment that the record
declares when it fits: the comment-length test does not fire. -/
theorem decodeDirectoryEnd_eq {bs : List UInt8} (h : 22 + leAt bs 20 2 ≤ bs.length) :
    decodeDirectoryEnd ⟨bs⟩ = .ok (directoryEndAt bs 0) := by
  rw [decodeDirectoryEnd, LittenEndian.discard_eq (by simp; omega), orFault_some_bind]
  dsimp only
  iterate 7 (rw [LittenEndian.read_eq (by simp; omega), orFault_some_bind]; dsimp only)
  simp only [List.drop_drop, leAt_drop, LittenEndian.size_mk, List.length_drop, Nat.reduceAdd]
  rw [if_neg (by omega)]
  rfl

/-- The record at `e` of the file is the record at the start of the file's tail from `e`. -/
theorem directoryEndAt_drop (f : List UInt8) (e : Nat) :
    directoryEndAt (f.drop e) 0 = directoryEndAt f e := by
  simp [directoryEndAt, leAt_drop, List.drop_drop, Nat.add_comm]

/-- At the last valid candidate `e`, `readDirectoryEnd` decodes the record at `e` and finishes
with it. -/
theorem readDirectoryEnd_of_last {f : List UInt8} {e : Nat} (hv : ValidCandidate f e)
    (hmax : ∀ e', ValidCandidate f e' → e' ≤ e) :
    readDirectoryEnd f = finishDirectoryEnd f e (directoryEndAt f e) := by
  obtain ⟨s, hs, hsearch⟩ := searchDirectoryEnd_of_last hv hmax
  have hrec : 22 + leAt (f.drop e) 20 2 ≤ (f.drop e).length := by
    have := hv.2.2
    rw [leAt_drop, List.length_drop]
    omega
  simp only [readDirectoryEnd, hsearch, ok_bind, List.drop_drop, Nat.add_sub_cancel' hs,
    decodeDirectoryEnd_eq hrec, directoryEndAt_drop]

/-- `readDirectoryEnd` fails with `zip: not a valid zip file` when the file has no valid
end-record candidate. Otherwise it decodes the record at the last valid candidate `e`, at the
same absolute position whichever pass found it, with the comment that the record declares (the
comment-length test never fires), and goes on with the Zip64 and offset steps of
`finishDirectoryEnd`, which may still fail. -/
theorem readDirectoryEnd_last_candidate (f : List UInt8) :
    ((∀ e, ¬ ValidCandidate f e) → readDirectoryEnd f = .error .notValid) ∧
    ∀ e, ValidCandidate f e → (∀ e', ValidCandidate f e' → e' ≤ e) →
      readDirectoryEnd f = finishDirectoryEnd f e (directoryEndAt f e) :=
  ⟨fun h => by rw [readDirectoryEnd, searchDirectoryEnd_of_none h]; rfl,
    fun _ hv hmax => readDirectoryEnd_of_last hv hmax⟩

/-- An archive with a valid end record whose counts hold their sentinel and whose locator names
offset 1, where no Zip64 end record starts: a pad byte, 56 zero bytes, the locator, the record. -/
def unsignedZip64Sample : List UInt8 :=
  [0] ++ List.replicate 56 0 ++ (toLE 4 0x07064b50 ++ toLE 4 0 ++ toLE 8 1 ++ toLE 4 1) ++
    (toLE 4 0x06054b50 ++ toLE 2 0 ++ toLE 2 0 ++ toLE 2 0xFFFF ++ toLE 2 0xFFFF ++ toLE 4 0 ++
      toLE 4 0 ++ toLE 2 0)

/-- `readDirectoryEnd` fails with `zip: not a valid zip file` on a file that has a valid
candidate. -/
theorem readDirectoryEnd_unsignedZip64Sample :
    ValidCandidate unsignedZip64Sample 77 ∧ readDirectoryEnd unsignedZip64Sample = .error .notValid := by
  decide

/-! ## The Zip64 record and the offset test -/

/-- `readd64e` reads a signed Zip64 end record that lies within the file at its APPNOTE
offsets. -/
theorem readd64e_eq {f : List UInt8} {p : Nat} (d : DirectoryEnd) (hp : p + 56 ≤ f.length)
    (hsig : leAt f p 4 = directory64EndSignature) :
    readd64e f p d = .ok (directory64EndAt f p d) := by
  have hb (o w : Nat) (h : o + w ≤ 56) :
      leAt ((f.drop p).take directory64EndLen) o w = leAt f (p + o) w := by
    rw [show directory64EndLen = 56 from rfl, leAt_take _ h, leAt_drop]
  simp (disch := decide) only [readd64e, readAt_of_le f (show p + directory64EndLen ≤ _ from hp),
    ok_bind, leAt_drop, hb]
  simp [hsig, directory64EndAt]

/-- `readDirectory64End` faults on every signed Zip64 end record within the file: after the
signature and the sixteen discarded bytes, its last eight-byte read starts at byte 52 of the
56-byte buffer. -/
theorem readDirectory64End_faults {f : List UInt8} {p : Nat} (d : DirectoryEnd)
    (hp : p + 56 ≤ f.length) (hsig : leAt f p 4 = directory64EndSignature) :
    readDirectory64End f p d = .error .fault := by
  have hlen : ((f.drop p).take directory64EndLen).length = 56 := by
    simp [directory64EndLen]; omega
  have hb : leAt ((f.drop p).take directory64EndLen) 0 4 = directory64EndSignature := by
    rw [leAt_take _ (by decide), leAt_drop, Nat.add_zero, hsig]
  rw [readDirectory64End, readAt_of_le f (show p + directory64EndLen ≤ _ from hp), ok_bind]
  generalize (f.drop p).take directory64EndLen = buf at hb hlen
  rw [LittenEndian.read_eq (by simp [hlen]), orFault_some_bind]
  dsimp only
  rw [hb, if_neg (not_not.mpr rfl), pure_eq_ok, ok_bind,
    LittenEndian.discard_eq (by simp [hlen]), orFault_some_bind]
  dsimp only
  -- five reads fit in the buffer; the sixth starts at byte 52 of 56
  iterate 5 (rw [LittenEndian.read_eq (by simp [hlen]), orFault_some_bind]; dsimp only)
  rw [LittenEndian.read, if_neg (by simp [hlen])]
  rfl

/-- An archive whose end record holds every sentinel and whose locator names a signed Zip64 end
record at offset 1: a pad byte, the Zip64 end record (all counts, size and offset zero), the
locator, and the end record. -/
def zip64Sample : List UInt8 :=
  [0] ++ (toLE 4 0x06064b50 ++ toLE 8 44 ++ toLE 2 45 ++ toLE 2 45 ++ toLE 4 0 ++ toLE 4 0 ++
      toLE 8 0 ++ toLE 8 0 ++ toLE 8 0 ++ toLE 8 0) ++
    (toLE 4 0x07064b50 ++ toLE 4 0 ++ toLE 8 1 ++ toLE 4 1) ++
    (toLE 4 0x06054b50 ++ toLE 2 0 ++ toLE 2 0 ++ toLE 2 0xFFFF ++ toLE 2 0xFFFF ++
      toLE 4 0xFFFFFFFF ++ toLE 4 0xFFFFFFFF ++ toLE 2 0)

/-- On `zip64Sample` the decoder faults instead of returning the Zip64 record's fields. -/
theorem readDirectoryEnd_zip64Sample : readDirectoryEnd zip64Sample = .error .fault := by
  decide

/-- A 22-byte file that is one end record with no records and a directory offset of 100. -/
def offsetPastEnd : List UInt8 :=
  toLE 4 0x06054b50 ++ toLE 2 0 ++ toLE 2 0 ++ toLE 2 0 ++ toLE 2 0 ++ toLE 4 0 ++ toLE 4 100 ++
    toLE 2 0

/-- `readDirectoryEnd` accepts `offsetPastEnd`, whose directory offset lies past its end. -/
theorem readDirectoryEnd_offsetPastEnd :
    readDirectoryEnd offsetPastEnd = .ok ⟨0, 0, 0, 0, 0, 100, 0, []⟩ ∧
      offsetPastEnd.length ≤ 100 := by
  decide

end Abslw.Zip
