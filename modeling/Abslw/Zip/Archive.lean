import Abslw.Zip.Header

/-!
# Reading back an archive that was written

The other modules follow the reader through one file at a time. This one states what the reader
is for: an archive written from a list of entries is read back as those entries. `Entry` is an
entry as a writer holds it, each number within the width of its field and below the value that
defers it to a Zip64 extra field. `encodeArchive` lays the entries out as the format does when
nothing needs Zip64: the central-directory records from offset 0, with no extra field, then the end
record with no comment.

`centralRecord_encode` decodes one written record, `centralRecords_encode` the whole directory,
and `readDirectoryEnd_encodeArchive` the end record. `initializeReader_encodeArchive` assembles
them: `Initialize` returns the entries in their order, the empty comment and the totals of their
sizes. Its hypotheses are the code's sentinel test: a record count of `0xFFFF`, or a directory of
`0xFFFF` bytes, sends the reader to the Zip64 locator, which it then looks for in the directory's
last 20 bytes.
-/

namespace Abslw.Zip

/-! ## One record -/

/-- An entry as a writer holds it, with no extra field. Each number fits the width of its field
in the record, and the compressed size and the offset stay below the value that defers them to
the Zip64 extra field. -/
structure Entry where
  /-- The version made by. -/
  cversion : Nat
  /-- The version needed to extract. -/
  rversion : Nat
  /-- The general-purpose flags. -/
  flags : Nat
  /-- The compression method. -/
  method : Nat
  /-- The MS-DOS time. -/
  modTime : Nat
  /-- The MS-DOS date. -/
  modDate : Nat
  /-- The CRC-32 of the data. -/
  crc32 : Nat
  /-- The compressed size. -/
  compressedSize : Nat
  /-- The uncompressed size. -/
  uncompressedSize : Nat
  /-- The external attributes. -/
  externalAttrs : Nat
  /-- The offset of the local header. -/
  position : Nat
  /-- The file name. -/
  name : List UInt8
  /-- The file comment. -/
  comment : List UInt8
  cversion_lt : cversion < 2 ^ 16
  rversion_lt : rversion < 2 ^ 16
  flags_lt : flags < 2 ^ 16
  method_lt : method < 2 ^ 16
  modTime_lt : modTime < 2 ^ 16
  modDate_lt : modDate < 2 ^ 16
  crc32_lt : crc32 < 2 ^ 32
  compressedSize_lt : compressedSize < sizeMin
  uncompressedSize_lt : uncompressedSize < 2 ^ 32
  externalAttrs_lt : externalAttrs < 2 ^ 32
  position_lt : position < offsetMin
  name_lt : name.length < 2 ^ 16
  comment_lt : comment.length < 2 ^ 16

/-- The fixed 46 bytes of the entry's central-directory record, little-endian at the APPNOTE
offsets: an empty extra field, disk 0 and no internal attributes. -/
def Entry.header (e : Entry) : List UInt8 :=
  toLE 4 directoryHeaderSignature ++ toLE 2 e.cversion ++ toLE 2 e.rversion ++ toLE 2 e.flags ++
    toLE 2 e.method ++ toLE 2 e.modTime ++ toLE 2 e.modDate ++ toLE 4 e.crc32 ++
    toLE 4 e.compressedSize ++ toLE 4 e.uncompressedSize ++ toLE 2 e.name.length ++ toLE 2 0 ++
    toLE 2 e.comment.length ++ toLE 2 0 ++ toLE 2 0 ++ toLE 4 e.externalAttrs ++ toLE 4 e.position

/-- The entry's central-directory record: the fixed part, the name, the comment. -/
def Entry.encode (e : Entry) : List UInt8 := e.header ++ (e.name ++ e.comment)

/-- The fixed part is 46 bytes long. -/
theorem Entry.length_header (e : Entry) : e.header.length = 46 := by
  simp [Entry.header]

/-- A field of the fixed part reads the same in the record and in whatever follows it. -/
theorem Entry.leAt_encode (e : Entry) (rest : List UInt8) {o w : Nat} (h : o + w ≤ 46) :
    leAt (e.encode ++ rest) o w = leAt e.header o w := by
  rw [Entry.encode, List.append_assoc, leAt_append_left _ (by rw [e.length_header]; exact h)]

section Archive

variable (fromDosDateTime : Nat → Nat → Time)

/-- The entry as the reader returns it: the record's fields, no extra field, the UTF-8 flag bit,
and the MS-DOS time converted, as no extended timestamp is there. -/
def Entry.toFile (e : Entry) : File where
  cversion := e.cversion
  rversion := e.rversion
  flags := e.flags
  method := e.method
  crc32 := e.crc32
  compressedSize := e.compressedSize
  uncompressedSize := e.uncompressedSize
  externalAttrs := e.externalAttrs
  position := e.position
  name := e.name
  extra := []
  comment := e.comment
  utf8 := e.flags &&& 0x800 != 0
  time := fromDosDateTime e.modDate e.modTime
  aesVersion := 0
  aesStrength := 0

/-- After the fixed part come the name and the comment. -/
theorem Entry.drop_encode (e : Entry) (rest : List UInt8) :
    (e.encode ++ rest).drop 46 = e.name ++ (e.comment ++ rest) := by
  simp only [Entry.encode, List.append_assoc]
  exact List.drop_left' e.length_header

/-- Each field of the fixed part reads back as written. -/
theorem Entry.leAt_header (e : Entry) :
    leAt e.header 0 4 = directoryHeaderSignature ∧ leAt e.header 4 2 = e.cversion ∧
    leAt e.header 6 2 = e.rversion ∧ leAt e.header 8 2 = e.flags ∧
    leAt e.header 10 2 = e.method ∧ leAt e.header 12 2 = e.modTime ∧
    leAt e.header 14 2 = e.modDate ∧ leAt e.header 16 4 = e.crc32 ∧
    leAt e.header 20 4 = e.compressedSize ∧ leAt e.header 24 4 = e.uncompressedSize ∧
    leAt e.header 28 2 = e.name.length ∧ leAt e.header 30 2 = 0 ∧
    leAt e.header 32 2 = e.comment.length ∧ leAt e.header 38 4 = e.externalAttrs ∧
    leAt e.header 42 4 = e.position := by
  have := e.cversion_lt; have := e.rversion_lt; have := e.flags_lt; have := e.method_lt
  have := e.modTime_lt; have := e.modDate_lt; have := e.crc32_lt; have := e.compressedSize_lt
  have := e.uncompressedSize_lt; have := e.externalAttrs_lt; have := e.position_lt
  have := e.name_lt; have := e.comment_lt
  simp only [sizeMin, offsetMin, Nat.reducePow] at *
  simp (disch := first | decide | assumption | omega) only [Entry.header, List.append_assoc,
    leAt_toLE_append_of_le, Nat.reduceSub, leAt_toLE_append, leAt_toLE, Nat.reducePow,
    Nat.mod_eq_of_lt, directoryHeaderSignature, and_self]

/-- A written record decodes to its entry: every check passes, the extra chain is empty, and no
field is the Zip64 sentinel. -/
theorem centralRecord_encode (e : Entry) (rest : List UInt8) :
    centralRecord fromDosDateTime (e.encode ++ rest) = .ok (e.toFile fromDosDateTime) := by
  obtain ⟨h0, h4, h6, h8, h10, h12, h14, h16, h20, h24, h28, h30, h32, h38, h42⟩ :=
    e.leAt_header
  have hh (o w : Nat) (h : o + w ≤ 46) : leAt (e.encode ++ rest) o w = leAt e.header o w :=
    e.leAt_encode rest h
  have hlen : (e.encode ++ rest).length = 46 + e.name.length + e.comment.length + rest.length := by
    simp [Entry.encode, e.length_header]; omega
  have hnil : splitTriples [] = [] := splitTriples_of_lt (by decide)
  have hc := e.compressedSize_lt
  have hp := e.position_lt
  unfold centralRecord chainState recordExtra recordLength
  simp (disch := decide) only [hh, h0, h4, h6, h8, h10, h12, h14, h16, h20, h24, h28, h30, h32,
    h38, h42, directoryHeaderLen, hlen, Entry.drop_encode, List.take_zero, hnil, List.foldlM_nil]
  rw [if_neg (by omega), if_neg (not_not.mpr rfl), if_neg (by omega), pure_eq_ok, ok_bind]
  have hcomment : (e.encode ++ rest).drop (46 + e.name.length) = e.comment ++ rest := by
    rw [← List.drop_drop, Entry.drop_encode, List.drop_left]
  have ht0 : toUnixSeconds Time.epoch = 0 := rfl
  simp (disch := decide) only [headerState, recordFile, recordExtra, hh, h4, h6, h8, h10, h12, h14,
    h16, h20, h24, h28, h30, h32, h38, h42, directoryHeaderLen, Entry.drop_encode, hcomment,
    Nat.add_zero, List.take_zero, List.take_left, ht0, ne_eq, not_true_eq_false, if_false]
  rw [if_neg (by simp only [sizeMin, offsetMin, Bool.or_eq_true, beq_iff_eq] at hc hp ⊢; omega)]
  rfl

/-- The declared length of a written record is its length. -/
theorem recordLength_encode (e : Entry) (rest : List UInt8) :
    recordLength (e.encode ++ rest) = e.encode.length := by
  obtain ⟨-, -, -, -, -, -, -, -, -, -, h28, h30, h32, -, -⟩ := e.leAt_header
  rw [recordLength, e.leAt_encode rest (by decide), e.leAt_encode rest (by decide),
    e.leAt_encode rest (by decide), h28, h30, h32, Entry.encode, List.length_append,
    List.length_append, e.length_header, directoryHeaderLen, Nat.add_zero, Nat.add_assoc]

/-! ## The directory -/

/-- The central directory of the entries: their records back to back. -/
def encodeDirectory (es : List Entry) : List UInt8 := (es.map Entry.encode).flatten

/-- The directory of `e :: es` is the record of `e`, then the directory of `es`. -/
theorem encodeDirectory_cons (e : Entry) (es : List Entry) :
    encodeDirectory (e :: es) = e.encode ++ encodeDirectory es := by
  rw [encodeDirectory, List.map_cons, List.flatten_cons]
  rfl

/-- Each record takes at least 46 bytes. -/
theorem length_encodeDirectory (es : List Entry) :
    46 * es.length ≤ (encodeDirectory es).length := by
  induction es with
  | nil => simp [encodeDirectory]
  | cons e es ih =>
    rw [encodeDirectory_cons, List.length_append, List.length_cons, Entry.encode,
      List.length_append, e.length_header]
    omega

/-- A written directory decodes to its entries, whatever follows it: each record is decoded and
the next starts where its declared length ends. -/
theorem centralRecords_encode (rest : List UInt8) : ∀ es : List Entry,
    centralRecords fromDosDateTime es.length (encodeDirectory es ++ rest) =
      .ok (es.map (Entry.toFile fromDosDateTime))
  | [] => rfl
  | e :: es => by
    rw [List.length_cons, encodeDirectory_cons, List.append_assoc, centralRecords,
      centralRecord_encode, ok_bind, recordLength_encode, List.drop_left,
      centralRecords_encode rest es, ok_bind]
    rfl

/-! ## The end record and the whole archive -/

/-- The end record of an archive of `records` entries whose directory of `dirSize` bytes starts at
`dirOffset`, on disk 0 and with no comment. -/
def endRecord (records dirSize dirOffset : Nat) : List UInt8 :=
  toLE 4 directoryEndSignature ++ toLE 2 0 ++ toLE 2 0 ++ toLE 2 records ++ toLE 2 records ++
    toLE 4 dirSize ++ toLE 4 dirOffset ++ toLE 2 0

/-- An archive of the entries as far as the reader looks: the directory from offset 0, then the
end record. -/
def encodeArchive (es : List Entry) : List UInt8 :=
  encodeDirectory es ++ endRecord es.length (encodeDirectory es).length 0

/-- The end record is 22 bytes long. -/
theorem length_endRecord (records dirSize dirOffset : Nat) :
    (endRecord records dirSize dirOffset).length = 22 := by
  simp [endRecord]

/-- The archive is its directory and 22 bytes. -/
theorem length_encodeArchive (es : List Entry) :
    (encodeArchive es).length = (encodeDirectory es).length + 22 := by
  rw [encodeArchive, List.length_append, length_endRecord]

/-- The written end record reads back as written. -/
theorem directoryEndAt_endRecord {records dirSize : Nat} (hr : records < 2 ^ 16)
    (hs : dirSize < 2 ^ 32) :
    directoryEndAt (endRecord records dirSize 0) 0 =
      ⟨0, 0, records, records, dirSize, 0, 0, []⟩ := by
  simp (disch := omega) only [directoryEndAt, endRecord, List.append_assoc, leAt_toLE_append_of_le,
    Nat.reduceSub, Nat.reduceAdd, leAt_toLE_append, leAt_toLE, Nat.mod_eq_of_lt, Nat.zero_mod,
    List.take_zero]

/-- The end record of a written archive is found and passes the checks: it is the last valid
candidate, and the code's Zip64 test does not fire. -/
theorem readDirectoryEnd_encodeArchive (es : List Entry) (hn : es.length < 0xFFFF)
    (hd : (encodeDirectory es).length < 2 ^ 32) (hd' : (encodeDirectory es).length ≠ 0xFFFF) :
    readDirectoryEnd (encodeArchive es) =
      .ok ⟨0, 0, es.length, es.length, (encodeDirectory es).length, 0, 0, []⟩ := by
  have hlen := length_encodeArchive es
  set dir := encodeDirectory es
  have hend : directoryEndAt (encodeArchive es) dir.length =
      ⟨0, 0, es.length, es.length, dir.length, 0, 0, []⟩ := by
    rw [← directoryEndAt_drop, encodeArchive, List.drop_left,
      directoryEndAt_endRecord (by omega) hd]
  have hv : ValidCandidate (encodeArchive es) dir.length := by
    refine ⟨by omega, ?_, ?_⟩
    · simp only [encodeArchive, List.drop_left, endRecord, List.append_assoc]
      rw [List.take_left' (length_toLE 4 _)]
      decide
    · have : leAt (encodeArchive es) (dir.length + 20) 2 = 0 :=
        congrArg DirectoryEnd.commentLen hend
      omega
  have hmax (e' : Nat) (h : ValidCandidate (encodeArchive es) e') : e' ≤ dir.length := by
    have := h.2.2
    omega
  rw [readDirectoryEnd_of_last hv hmax, hend, finishDirectoryEnd, resolveDirectory64, resolveZip64,
    if_neg (by simp only [not_or]; omega), pure_eq_ok, ok_bind,
    if_neg (by rw [toInt64_of_lt (by norm_num)]; omega)]
  rfl

/-- `Initialize` reads a written archive back: its entries in order, the empty archive comment,
and the totals of their sizes. -/
theorem initializeReader_encodeArchive (es : List Entry) (hn : es.length < 0xFFFF)
    (hd : (encodeDirectory es).length < 2 ^ 32) (hd' : (encodeDirectory es).length ≠ 0xFFFF) :
    initializeReader fromDosDateTime (encodeArchive es) =
      .ok ⟨[], es.map (Entry.toFile fromDosDateTime),
        (es.map Entry.uncompressedSize).sum % 2 ^ 64,
        (es.map Entry.compressedSize).sum % 2 ^ 64⟩ := by
  have h46 := length_encodeDirectory es
  have hlen := length_encodeArchive es
  rw [initializeReader, readDirectoryEnd_encodeArchive es hn hd hd', ok_bind,
    if_neg (by dsimp only; rw [hlen, fileHeaderLen]; omega), List.drop_zero,
    readDirectoryHeaders_eq _ _ _ _ (by norm_num) (by norm_num), encodeArchive,
    centralRecords_encode, ok_map, List.map_map, List.map_map, List.nil_append, Nat.zero_add,
    Nat.zero_add]
  rfl

/-- An entry named `a` with the UTF-8 flag, stored, of five bytes, at offset 0. -/
def sampleEntry : Entry where
  cversion := 20
  rversion := 20
  flags := 0x800
  method := 0
  modTime := 0
  modDate := 0x21
  crc32 := 0
  compressedSize := 5
  uncompressedSize := 5
  externalAttrs := 0
  position := 0
  name := [0x61]
  comment := []
  cversion_lt := by decide
  rversion_lt := by decide
  flags_lt := by decide
  method_lt := by decide
  modTime_lt := by decide
  modDate_lt := by decide
  crc32_lt := by decide
  compressedSize_lt := by decide
  uncompressedSize_lt := by decide
  externalAttrs_lt := by decide
  position_lt := by decide
  name_lt := by decide
  comment_lt := by decide

/-- An archive of `sampleEntry` twice reads back as those two entries. -/
theorem initializeReader_sampleEntries :
    [sampleEntry, sampleEntry].length < 0xFFFF ∧
    (encodeDirectory [sampleEntry, sampleEntry]).length < 2 ^ 32 ∧
    (encodeDirectory [sampleEntry, sampleEntry]).length ≠ 0xFFFF ∧
    initializeReader (fun _ _ => Time.epoch) (encodeArchive [sampleEntry, sampleEntry]) =
      .ok ⟨[], [sampleEntry, sampleEntry].map (Entry.toFile fun _ _ => Time.epoch), 10, 10⟩ := by
  have hd : (encodeDirectory [sampleEntry, sampleEntry]).length < 2 ^ 32 := by decide
  have hd' : (encodeDirectory [sampleEntry, sampleEntry]).length ≠ 0xFFFF := by decide
  exact ⟨by decide, hd, hd', initializeReader_encodeArchive _ _ (by decide) hd hd'⟩

end Archive

end Abslw.Zip
