import Abslw.Zip.DirectoryEnd
import Abslw.Zip.Extra

/-!
# Central-directory headers and `Reader::Initialize`

`readDirectoryHeader` of `hazel/zip/zip.cc` reads one central-directory record from a buffered
reader: the 46 fixed bytes, then the name, extra field and comment, then the chain of extra
triples, which resolves the Zip64 sizes and offset, the modification time and the AES fields.
`Reader::Initialize` reads the end record, bounds the record count by the file's size, and reads
that many records back to back from the directory's offset, summing their sizes.

The buffered reader is the list of the bytes from the directory's offset on, and `readFull`
takes bytes off its front or reports a short read. `bela::FromDosDateTime` is not among the
sources; it is a parameter of every definition that reaches it.

The proof goes bottom up. `centralRecord` states a record by its APPNOTE offsets, with the extra
chain folded over its triples; `readDirectoryHeader_eq` shows that one call of the code is that
record, followed by the stream after the record's declared length. `readDirectoryHeaders_eq`
lifts it to the loop of `Initialize`: the records read back to back, or the failure of the first
one that does not decode, with the totals as sums modulo `2 ^ 64`. `RecordValid` says which
records decode: `centralRecord_ok_iff` reads it off the chain's first Zip64 triple
(`chainState_of_firstZip64`), and `initializeReader_records` gives `Initialize` over the whole
directory. The last section says what the chain leaves in the sizes, from `foldlM_keeps_sizes`
and `extraField_zip64`, and in the time.
-/

namespace Abslw.Zip

/-! ## The code -/

/-- `SizeMin`: a 32-bit size of this value is deferred to the Zip64 extra field. -/
def sizeMin : Nat := 0xFFFFFFFF
/-- `OffsetMin`: a 32-bit offset of this value is deferred to the Zip64 extra field. -/
def offsetMin : Nat := 0xFFFFFFFF

/-- `bufioReader::ReadFull`: the next `n` bytes of the stream and the rest, or a short read. -/
def readFull (br : List UInt8) (n : Nat) : Except ZipError (List UInt8 × List UInt8) :=
  if n ≤ br.length then .ok (br.take n, br.drop n) else .error .io

/-- `hazel::zip::File`, declared in `hazel/zip.hpp` (not among the sources), with the fields that
`readDirectoryHeader` sets; the AES fields keep their default, zero, unless an AES field sets
them. -/
structure File where
  /-- Version made by. -/
  cversion : Nat
  /-- Version needed to extract. -/
  rversion : Nat
  /-- General-purpose flags. -/
  flags : Nat
  /-- Compression method, or the AES field's actual method. -/
  method : Nat
  /-- CRC-32 of the uncompressed data. -/
  crc32 : Nat
  /-- Compressed size, Zip64-resolved. -/
  compressedSize : Nat
  /-- Uncompressed size, Zip64-resolved. -/
  uncompressedSize : Nat
  /-- External file attributes. -/
  externalAttrs : Nat
  /-- Offset of the local header, Zip64-resolved. -/
  position : Nat
  /-- File name. -/
  name : List UInt8
  /-- The extra field, as stored. -/
  extra : List UInt8
  /-- File comment. -/
  comment : List UInt8
  /-- Flag bit 11: the name and comment are UTF-8. -/
  utf8 : Bool
  /-- Modification time. -/
  time : Time
  /-- WinZip AES version. -/
  aesVersion : Nat
  /-- WinZip AES key strength. -/
  aesStrength : Nat
  deriving DecidableEq, Repr

section Header

variable (fromDosDateTime : Nat → Nat → Time)

/-- `readDirectoryHeader`: one central-directory record from the front of the stream `br`, and
the stream after it. -/
def readDirectoryHeader (br : List UInt8) : Except ZipError (File × List UInt8) := do
  let (buf, br) ← readFull br directoryHeaderLen
  let b : LittenEndian := ⟨buf⟩
  let (n, b) ← orFault (b.read 4)
  if n ≠ directoryHeaderSignature then throw .notValid else do
  let (cversion, b) ← orFault (b.read 2)
  let (rversion, b) ← orFault (b.read 2)
  let (flags, b) ← orFault (b.read 2)
  let (method, b) ← orFault (b.read 2)
  let (dosTime, b) ← orFault (b.read 2)
  let (dosDate, b) ← orFault (b.read 2)
  let (crc32, b) ← orFault (b.read 4)
  let (compressedSize, b) ← orFault (b.read 4)
  let (uncompressedSize, b) ← orFault (b.read 4)
  let (filenameLen, b) ← orFault (b.read 2)
  let (extraLen, b) ← orFault (b.read 2)
  let (commentLen, b) ← orFault (b.read 2)
  let b ← orFault (b.discard 4)
  let (externalAttrs, b) ← orFault (b.read 4)
  let (position, _) ← orFault (b.read 4)
  let (buffer, br) ← readFull br (filenameLen + extraLen + commentLen)
  let name := buffer.take filenameLen
  let extra := (buffer.drop filenameLen).take extraLen
  let comment := (buffer.drop (filenameLen + extraLen)).take commentLen
  let s ← extraFields extra.length
    { uncompressedSize, compressedSize, position
      needUSize := uncompressedSize == sizeMin
      needSize := compressedSize == sizeMin
      needOffset := position == offsetMin
      time := Time.epoch, modified := Time.epoch, method, aesVersion := 0, aesStrength := 0 }
    ⟨extra⟩
  let time := if toUnixSeconds s.modified ≠ 0 then s.modified
    else fromDosDateTime dosDate dosTime
  if s.needSize || s.needOffset then throw .notValid else
  pure ({ cversion, rversion, flags, method := s.method, crc32
          compressedSize := s.compressedSize, uncompressedSize := s.uncompressedSize
          externalAttrs, position := s.position, name, extra, comment
          utf8 := flags &&& 0x800 != 0, time
          aesVersion := s.aesVersion, aesStrength := s.aesStrength }, br)

/-- `Reader`, the fields that `Initialize` fills: the archive comment, the entries in directory
order, and the totals of their sizes (`uint64_t`). -/
structure Reader where
  /-- The archive comment. -/
  comment : List UInt8
  /-- The entries. -/
  files : List File
  /-- Total of the uncompressed sizes. -/
  uncompressedSize : Nat
  /-- Total of the compressed sizes. -/
  compressedSize : Nat
  deriving DecidableEq, Repr

/-- The loop of `Initialize`: read `k` records from the stream, adding each one's sizes to the
totals modulo `2 ^ 64` and appending it to the entries. -/
def readDirectoryHeaders : Nat → Reader → List UInt8 → Except ZipError Reader
  | 0, r, _ => pure r
  | k + 1, r, br => do
    let (file, br) ← readDirectoryHeader fromDosDateTime br
    readDirectoryHeaders k
      { r with
        uncompressedSize := (r.uncompressedSize + file.uncompressedSize) % 2 ^ 64
        compressedSize := (r.compressedSize + file.compressedSize) % 2 ^ 64
        files := r.files ++ [file] } br

/-- `Reader::Initialize` on the file `f`: the end record, the bound of the record count by the
file's size, and the records from the directory's offset. -/
def initializeReader (f : List UInt8) : Except ZipError Reader := do
  let d ← readDirectoryEnd f
  if d.directoryRecords > f.length / fileHeaderLen then
    throw (.impossibleToc d.directoryRecords f.length)
  else
    readDirectoryHeaders fromDosDateTime d.directoryRecords ⟨d.comment, [], 0, 0⟩
      (f.drop d.directoryOffset)

/-! ## A record by its APPNOTE offsets -/

/-- The declared length of the record at the front of `bs`: the fixed part, then the name, the
extra field and the comment, whose lengths stand at offsets 28, 30 and 32. -/
def recordLength (bs : List UInt8) : Nat :=
  directoryHeaderLen + leAt bs 28 2 + leAt bs 30 2 + leAt bs 32 2

/-- The extra field of the record at the front of `bs`. -/
def recordExtra (bs : List UInt8) : List UInt8 :=
  (bs.drop (directoryHeaderLen + leAt bs 28 2)).take (leAt bs 30 2)

/-- The state the extra chain starts from: the 32-bit uncompressed size at 24, compressed size
at 20 and local-header offset at 42, each flagged when it holds its sentinel, and the method at
10. -/
def headerState (bs : List UInt8) : ExtraState where
  uncompressedSize := leAt bs 24 4
  compressedSize := leAt bs 20 4
  position := leAt bs 42 4
  needUSize := leAt bs 24 4 == sizeMin
  needSize := leAt bs 20 4 == sizeMin
  needOffset := leAt bs 42 4 == offsetMin
  time := Time.epoch
  modified := Time.epoch
  method := leAt bs 10 2
  aesVersion := 0
  aesStrength := 0

/-- The extra chain of the record at the front of `bs`, folded over its triples. -/
def chainState (bs : List UInt8) : Except ZipError ExtraState :=
  (splitTriples (recordExtra bs)).foldlM (fun s t => extraField s t.1 ⟨t.2⟩) (headerState bs)

/-- The entry of the record at the front of `bs`, once its chain has left the state `s`: the
fixed fields at their APPNOTE offsets (versions at 4 and 6, flags at 8, DOS time and date at 12
and 14, CRC-32 at 16, external attributes at 38), name, extra field and comment by their
declared lengths, and what the chain resolved. -/
def recordFile (bs : List UInt8) (s : ExtraState) : File where
  cversion := leAt bs 4 2
  rversion := leAt bs 6 2
  flags := leAt bs 8 2
  method := s.method
  crc32 := leAt bs 16 4
  compressedSize := s.compressedSize
  uncompressedSize := s.uncompressedSize
  externalAttrs := leAt bs 38 4
  position := s.position
  name := (bs.drop directoryHeaderLen).take (leAt bs 28 2)
  extra := recordExtra bs
  comment := (bs.drop (directoryHeaderLen + leAt bs 28 2 + leAt bs 30 2)).take (leAt bs 32 2)
  utf8 := leAt bs 8 2 &&& 0x800 != 0
  time := if toUnixSeconds s.modified ≠ 0 then s.modified
    else fromDosDateTime (leAt bs 14 2) (leAt bs 12 2)
  aesVersion := s.aesVersion
  aesStrength := s.aesStrength

/-- The record at the front of `bs`: a short read when the fixed part or the declared length
runs past the stream, not valid under a wrong signature or when the chain leaves the compressed
size or the offset unresolved, and otherwise its entry. -/
def centralRecord (bs : List UInt8) : Except ZipError File :=
  if bs.length < directoryHeaderLen then .error .io
  else if leAt bs 0 4 ≠ directoryHeaderSignature then .error .notValid
  else if bs.length < recordLength bs then .error .io
  else do
    let s ← chainState bs
    if s.needSize || s.needOffset then throw .notValid else pure (recordFile fromDosDateTime bs s)

/-- `ReadFull` of bytes that the stream holds. -/
theorem readFull_of_le {br : List UInt8} {n : Nat} (h : n ≤ br.length) :
    readFull br n = .ok (br.take n, br.drop n) := if_pos h

/-- A slice of a prefix that ends within the prefix is a slice of the whole list. -/
theorem take_drop_take {α : Type} (l : List α) {a b n : Nat} (h : a + b ≤ n) :
    ((l.take n).drop a).take b = (l.drop a).take b := by
  rw [List.drop_take, List.take_take, Nat.min_eq_left (by omega)]

/-- One call of `readDirectoryHeader` is the record at the front of the stream by its APPNOTE
offsets, and leaves the stream after the record's declared length: the cursor reads each fixed
field at its offset, the name, extra field and comment follow each other, and the triple loop
is the fold of the chain. -/
theorem readDirectoryHeader_eq (br : List UInt8) :
    readDirectoryHeader fromDosDateTime br =
      (fun file => (file, br.drop (recordLength br))) <$> centralRecord fromDosDateTime br := by
  have hH : directoryHeaderLen = 46 := rfl
  unfold centralRecord
  by_cases h46 : br.length < directoryHeaderLen
  · rw [if_pos h46, readDirectoryHeader, readFull, if_neg (by omega)]
    rfl
  rw [if_neg h46, readDirectoryHeader, readFull_of_le (Nat.le_of_not_lt h46), ok_bind]
  have hfix : (br.take directoryHeaderLen).length = 46 := by simp; omega
  generalize hb : br.take directoryHeaderLen = buf at hfix
  have hsig : leAt buf 0 4 = leAt br 0 4 := by rw [← hb, leAt_take _ (by omega)]
  dsimp only
  rw [LittenEndian.read_eq (by simp [hfix]), orFault_some_bind]
  dsimp only
  rw [hsig]
  by_cases hsig' : leAt br 0 4 ≠ directoryHeaderSignature
  · simp only [if_pos hsig']
    rfl
  simp only [if_neg hsig']
  -- the fixed fields, read one after the other off the 46-byte buffer
  iterate 12 (rw [LittenEndian.read_eq (by simp [hfix]), orFault_some_bind]; dsimp only)
  rw [LittenEndian.discard_eq (by simp [hfix]), orFault_some_bind]; dsimp only
  iterate 2 (rw [LittenEndian.read_eq (by simp [hfix]), orFault_some_bind]; dsimp only)
  simp only [List.drop_drop, leAt_drop]
  subst hb
  simp (disch := omega) only [Nat.reduceAdd, Nat.add_zero, leAt_take]
  -- the name, extra field and comment
  by_cases hlen : br.length < recordLength br
  · rw [if_pos hlen, readFull, if_neg (by simp [recordLength] at hlen ⊢; omega)]
    rfl
  rw [if_neg hlen, readFull_of_le (by simp [recordLength] at hlen ⊢; omega), ok_bind]
  simp only [recordLength] at hlen
  simp (disch := omega) only [take_drop_take, List.take_take, Nat.min_eq_left, List.drop_drop,
    ← Nat.add_assoc]
  -- the chain
  rw [extraFields_eq_foldlM _ _ _ (Nat.div_le_self _ _)]
  show chainState br >>= _ = _
  cases chainState br with
  | error e => rfl
  | ok s =>
    show (if _ then _ else _) = (fun file => (file, _)) <$> (if _ then _ else _)
    split <;> rfl

/-! ## The loop of `Initialize` -/

/-- The `k` records read back to back from the front of `bs`, each one from the end of the
previous one's declared length, or the failure of the first that does not decode. -/
def centralRecords : Nat → List UInt8 → Except ZipError (List File)
  | 0, _ => .ok []
  | k + 1, bs => do
    let file ← centralRecord fromDosDateTime bs
    let files ← centralRecords k (bs.drop (recordLength bs))
    pure (file :: files)

/-- The loop of `Initialize` reads the records back to back: it appends them to the entries and
adds their sizes to the totals modulo `2 ^ 64`, or fails as the first record that fails. -/
theorem readDirectoryHeaders_eq (k : Nat) (r : Reader) (br : List UInt8)
    (hu : r.uncompressedSize < 2 ^ 64) (hc : r.compressedSize < 2 ^ 64) :
    readDirectoryHeaders fromDosDateTime k r br =
      (fun files => { r with
        files := r.files ++ files
        uncompressedSize := (r.uncompressedSize + (files.map File.uncompressedSize).sum) % 2 ^ 64
        compressedSize := (r.compressedSize + (files.map File.compressedSize).sum) % 2 ^ 64 }) <$>
        centralRecords fromDosDateTime k br := by
  induction k generalizing r br with
  | zero =>
    show pure r = Except.ok _
    simp only [List.map_nil, List.sum_nil, Nat.add_zero, List.append_nil]
    rw [Nat.mod_eq_of_lt hu, Nat.mod_eq_of_lt hc]
    rfl
  | succ k ih =>
    rw [readDirectoryHeaders, centralRecords, readDirectoryHeader_eq]
    cases centralRecord fromDosDateTime br with
    | error e => rfl
    | ok file =>
      simp only [ok_map, ok_bind]
      rw [ih _ _ (Nat.mod_lt _ (by decide)) (Nat.mod_lt _ (by decide))]
      cases centralRecords fromDosDateTime k (br.drop (recordLength br)) with
      | error e => rfl
      | ok files => simp [Nat.mod_add_mod, Nat.add_mod_mod, Nat.add_assoc]

/-- `Initialize` on a file whose end record declares `k` records at offset `D`, with `30 * k`
within the file's size, reads the `k` records back to back from `D`. It fails as the first record
that does not decode fails, and otherwise holds the records in directory order, the archive
comment, and the totals of the records' sizes modulo `2 ^ 64`. -/
theorem initializeReader_eq (f : List UInt8) (d : DirectoryEnd) (hd : readDirectoryEnd f = .ok d)
    (hk : fileHeaderLen * d.directoryRecords ≤ f.length) :
    initializeReader fromDosDateTime f =
      (fun files => ⟨d.comment, files, (files.map File.uncompressedSize).sum % 2 ^ 64,
        (files.map File.compressedSize).sum % 2 ^ 64⟩) <$>
        centralRecords fromDosDateTime d.directoryRecords (f.drop d.directoryOffset) := by
  have h30 : fileHeaderLen = 30 := rfl
  rw [initializeReader, hd, ok_bind, if_neg (by rw [h30] at hk ⊢; omega),
    readDirectoryHeaders_eq _ _ _ _ (Nat.two_pow_pos 64) (Nat.two_pow_pos 64)]
  simp only [List.nil_append, Nat.zero_add]

/-! ## Which records decode -/

/-- A record with its signature that lies within the stream is its chain's entry, unless the
chain leaves the compressed size or the offset unresolved. -/
theorem centralRecord_of_valid {bs : List UInt8} (hsig : leAt bs 0 4 = directoryHeaderSignature)
    (hlen : recordLength bs ≤ bs.length) :
    centralRecord fromDosDateTime bs = chainState bs >>= fun s =>
      if s.needSize || s.needOffset then throw .notValid
      else pure (recordFile fromDosDateTime bs s) := by
  rw [centralRecord, if_neg (by simp [recordLength] at hlen; omega), if_neg (not_not.mpr hsig),
    if_neg (by omega)]

/-- A record that decodes is its chain's entry. -/
theorem centralRecord_ok {bs : List UInt8} {file : File}
    (h : centralRecord fromDosDateTime bs = .ok file) :
    ∃ s, chainState bs = .ok s ∧ file = recordFile fromDosDateTime bs s := by
  unfold centralRecord at h
  split_ifs at h
  obtain ⟨s, hs, h⟩ := bind_eq_ok.mp h
  refine ⟨s, hs, ?_⟩
  split_ifs at h
  exact (Except.ok.inj h).symm

/-- The payload of the first Zip64 triple of the record's extra chain, if there is one. -/
def firstZip64 (bs : List UInt8) : Option (List UInt8) :=
  ((splitTriples (recordExtra bs)).find? (fun t => t.1 = zip64ExtraID)).map Prod.snd

/-- How many of the record's uncompressed size, compressed size and offset hold their sentinel. -/
def sentinelCount (bs : List UInt8) : Nat :=
  (leAt bs 24 4 == sizeMin).toNat + (leAt bs 20 4 == sizeMin).toNat +
    (leAt bs 42 4 == offsetMin).toNat

/-- A record that `Initialize` accepts: it carries its signature, its declared length lies within
the stream, a sentinel compressed size or offset has a Zip64 triple to resolve it, and the first
Zip64 triple holds eight bytes for each field at its sentinel. -/
def RecordValid (bs : List UInt8) : Prop :=
  leAt bs 0 4 = directoryHeaderSignature ∧ recordLength bs ≤ bs.length ∧
    (firstZip64 bs = none → leAt bs 20 4 ≠ sizeMin ∧ leAt bs 42 4 ≠ offsetMin) ∧
    ∀ p ∈ firstZip64 bs, 8 * sentinelCount bs ≤ p.length

instance : DecidablePred RecordValid := fun _ => inferInstanceAs (Decidable (_ ∧ _ ∧ _ ∧ _))

/-- With no Zip64 triple the chain succeeds and leaves the sizes as the fixed fields have them. -/
theorem chainState_of_firstZip64_none {bs : List UInt8} (h : firstZip64 bs = none) :
    ∃ s, chainState bs = .ok s ∧ s.sizes = (headerState bs).sizes := by
  rw [firstZip64, Option.map_eq_none', List.find?_eq_none] at h
  exact foldlM_keeps_sizes _ _ (Or.inl fun t ht => by simpa using h t ht)

/-- At the first Zip64 triple the chain fails when the payload is short of eight bytes per
sentinel, and otherwise resolves every flagged field for good. -/
theorem chainState_of_firstZip64 {bs p : List UInt8} (h : firstZip64 bs = some p) :
    (8 * sentinelCount bs ≤ p.length →
      ∃ s, chainState bs = .ok s ∧ s.needSize = false ∧ s.needOffset = false) ∧
    (p.length < 8 * sentinelCount bs → chainState bs = .error .notValid) := by
  obtain ⟨⟨tag, p'⟩, hfind, rfl⟩ := Option.map_eq_some'.mp h
  obtain ⟨htag, pre, post, hsplit, hpre⟩ := List.find?_eq_some.mp hfind
  obtain rfl : tag = zip64ExtraID := of_decide_eq_true htag
  obtain ⟨s1, h1, hs1⟩ :=
    foldlM_keeps_sizes pre (headerState bs) (Or.inl fun t ht => by simpa using hpre t ht)
  have hn : needCount s1 = sentinelCount bs := needCount_eq_of_sizes hs1
  have hchain : chainState bs = extraField s1 zip64ExtraID ⟨p'⟩ >>=
      fun s => post.foldlM (fun s t => extraField s t.1 ⟨t.2⟩) s := by
    rw [chainState, hsplit, List.foldlM_append, h1, ok_bind, List.foldlM_cons]
  refine ⟨fun hp => ?_, fun hp => ?_⟩
  · obtain ⟨s2, h2, hs2⟩ := extraField_zip64 s1 p' (by rw [hn]; exact hp)
    simp only [ExtraState.sizes, Prod.mk.injEq] at hs2
    obtain ⟨s3, h3, hs3⟩ :=
      foldlM_keeps_sizes post s2 (Or.inr (needCount_eq_zero.mpr hs2.2.2.2))
    simp only [ExtraState.sizes, Prod.mk.injEq] at hs3
    exact ⟨s3, by rw [hchain, h2, ok_bind, h3], hs3.2.2.2.2.1.trans hs2.2.2.2.2.1,
      hs3.2.2.2.2.2.trans hs2.2.2.2.2.2⟩
  · rw [hchain, extraField, if_pos rfl, zip64Extra_eq, if_pos (by rw [hn]; exact hp)]
    rfl

/-- The chain resolves the compressed size and the offset exactly when the record asks for it:
either there is no Zip64 triple and neither holds its sentinel, or the first Zip64 triple holds
eight bytes for each sentinel. -/
theorem chainState_resolves_iff (bs : List UInt8) :
    (∃ s, chainState bs = .ok s ∧ s.needSize = false ∧ s.needOffset = false) ↔
      (firstZip64 bs = none → leAt bs 20 4 ≠ sizeMin ∧ leAt bs 42 4 ≠ offsetMin) ∧
      ∀ p ∈ firstZip64 bs, 8 * sentinelCount bs ≤ p.length := by
  cases hf : firstZip64 bs with
  | none =>
    obtain ⟨s, hs, hsz⟩ := chainState_of_firstZip64_none hf
    simp only [ExtraState.sizes, headerState, Prod.mk.injEq] at hsz
    simp [hs, hsz.2.2.2.2]
  | some p =>
    obtain ⟨hok, herr⟩ := chainState_of_firstZip64 hf
    simp only [Option.mem_def, Option.some.injEq, forall_eq', reduceCtorEq, false_imp_iff,
      true_and]
    refine ⟨fun ⟨s, hs, _⟩ => Nat.le_of_not_lt fun hp => ?_, hok⟩
    rw [herr hp] at hs
    cases hs

/-- A record decodes exactly when it is valid. -/
theorem centralRecord_ok_iff (bs : List UInt8) :
    (∃ file, centralRecord fromDosDateTime bs = .ok file) ↔ RecordValid bs := by
  constructor
  · rintro ⟨file, h⟩
    unfold centralRecord at h
    split_ifs at h with h46 hsig hlen
    obtain ⟨s, hs, h⟩ := bind_eq_ok.mp h
    split_ifs at h with hn
    simp only [Bool.or_eq_true, not_or, Bool.not_eq_true] at hn
    exact ⟨not_not.mp hsig, Nat.le_of_not_lt hlen, (chainState_resolves_iff bs).mp ⟨s, hs, hn⟩⟩
  · rintro ⟨hsig, hlen, hres⟩
    obtain ⟨s, hs, hC, hO⟩ := (chainState_resolves_iff bs).mpr hres
    refine ⟨recordFile fromDosDateTime bs s, ?_⟩
    rw [centralRecord_of_valid fromDosDateTime hsig hlen, hs, ok_bind, if_neg (by simp [hC, hO])]
    rfl

/-- The starts of `k` records laid back to back from the front of `bs`, each one after the
previous one's declared length. -/
def recordStarts : Nat → List UInt8 → List (List UInt8)
  | 0, _ => []
  | k + 1, bs => bs :: recordStarts k (bs.drop (recordLength bs))

/-- When every record is valid the loop reads them all, each as its chain's entry. -/
theorem centralRecords_of_valid : ∀ (k : Nat) (bs : List UInt8),
    (∀ b ∈ recordStarts k bs, RecordValid b) →
    ∃ files, centralRecords fromDosDateTime k bs = .ok files ∧
      List.Forall₂ (fun file b => ∃ s, chainState b = .ok s ∧ file = recordFile fromDosDateTime b s)
        files (recordStarts k bs)
  | 0, _, _ => ⟨[], rfl, .nil⟩
  | k + 1, bs, h => by
    obtain ⟨file, hf⟩ :=
      (centralRecord_ok_iff fromDosDateTime bs).mpr (h bs (List.mem_cons_self _ _))
    obtain ⟨files, hfs, hall⟩ :=
      centralRecords_of_valid k _ fun b hb => h b (List.mem_cons_of_mem _ hb)
    refine ⟨file :: files, ?_, .cons (centralRecord_ok fromDosDateTime hf) hall⟩
    rw [centralRecords, hf, ok_bind, hfs, ok_bind]
    rfl

/-- The loop fails as the first invalid record fails, whatever follows it. -/
theorem centralRecords_of_invalid {b : List UInt8} {post : List (List UInt8)}
    (hb : ¬RecordValid b) : ∀ (pre : List (List UInt8)) (k : Nat) (bs : List UInt8),
    recordStarts k bs = pre ++ b :: post → (∀ c ∈ pre, RecordValid c) →
    ∃ e, centralRecord fromDosDateTime b = .error e ∧ centralRecords fromDosDateTime k bs = .error e
  | _, 0, _, hrs, _ => by simp [recordStarts] at hrs
  | [], k + 1, bs, hrs, _ => by
    obtain ⟨rfl, -⟩ := List.cons.inj hrs
    cases hf : centralRecord fromDosDateTime bs with
    | error e => exact ⟨e, rfl, by rw [centralRecords, hf]; rfl⟩
    | ok file => exact absurd ((centralRecord_ok_iff fromDosDateTime bs).mp ⟨file, hf⟩) hb
  | c :: pre, k + 1, bs, hrs, hpre => by
    obtain ⟨rfl, hrest⟩ := List.cons.inj hrs
    obtain ⟨file, hf⟩ :=
      (centralRecord_ok_iff fromDosDateTime bs).mpr (hpre bs (List.mem_cons_self _ _))
    obtain ⟨e, he, hk⟩ :=
      centralRecords_of_invalid hb pre k _ hrest fun c hc => hpre c (List.mem_cons_of_mem _ hc)
    exact ⟨e, he, by rw [centralRecords, hf, ok_bind, hk]; rfl⟩

/-- Central-directory decoding. On a file whose end record declares `k` records at offset `D`,
with `30 * k` within the file's size, `Initialize` reads the `k` records back to back from `D`,
each from the end of the previous one's declared length. It succeeds exactly when every record
is valid; it then holds one entry per record in directory order, each the record's fields at
their APPNOTE offsets with the sizes, offset, time and method as the chain resolves them, the
archive comment, and the totals of the entries' sizes modulo `2 ^ 64`. Otherwise it fails as the
first invalid record fails. -/
theorem initializeReader_records (f : List UInt8) (d : DirectoryEnd)
    (hd : readDirectoryEnd f = .ok d) (hk : fileHeaderLen * d.directoryRecords ≤ f.length) :
    ((∃ r, initializeReader fromDosDateTime f = .ok r) ↔
      ∀ bs ∈ recordStarts d.directoryRecords (f.drop d.directoryOffset), RecordValid bs) ∧
    ((∀ bs ∈ recordStarts d.directoryRecords (f.drop d.directoryOffset), RecordValid bs) →
      ∃ files, initializeReader fromDosDateTime f = .ok ⟨d.comment, files,
          (files.map File.uncompressedSize).sum % 2 ^ 64,
          (files.map File.compressedSize).sum % 2 ^ 64⟩ ∧
        List.Forall₂
          (fun file bs => ∃ s, chainState bs = .ok s ∧ file = recordFile fromDosDateTime bs s)
          files (recordStarts d.directoryRecords (f.drop d.directoryOffset))) ∧
    (∀ pre bs post, recordStarts d.directoryRecords (f.drop d.directoryOffset) = pre ++ bs :: post →
      (∀ c ∈ pre, RecordValid c) → ¬RecordValid bs →
      ∃ e, centralRecord fromDosDateTime bs = .error e ∧
        initializeReader fromDosDateTime f = .error e) := by
  rw [initializeReader_eq fromDosDateTime f d hd hk]
  have hvalid (h : ∀ bs ∈ recordStarts d.directoryRecords (f.drop d.directoryOffset),
      RecordValid bs) := centralRecords_of_valid fromDosDateTime _ _ h
  have hinvalid (pre bs post) (hrs : recordStarts d.directoryRecords (f.drop d.directoryOffset) =
      pre ++ bs :: post) (hpre : ∀ c ∈ pre, RecordValid c) (hb : ¬RecordValid bs) :=
    centralRecords_of_invalid fromDosDateTime hb pre _ _ hrs hpre
  refine ⟨⟨fun ⟨r, hr⟩ => ?_, fun h => ?_⟩, fun h => ?_, fun pre bs post hrs hpre hb => ?_⟩
  · cases hfind : (recordStarts d.directoryRecords (f.drop d.directoryOffset)).find?
        (fun b => !decide (RecordValid b)) with
    | none => simpa using List.find?_eq_none.mp hfind
    | some b =>
      obtain ⟨hb, pre, post, hrs, hpre⟩ := List.find?_eq_some.mp hfind
      obtain ⟨e, -, he⟩ := hinvalid pre b post hrs (by simpa using hpre) (by simpa using hb)
      rw [he] at hr
      cases hr
  · obtain ⟨files, hfs, -⟩ := hvalid h
    exact ⟨_, by rw [hfs]; rfl⟩
  · obtain ⟨files, hfs, hall⟩ := hvalid h
    exact ⟨files, by rw [hfs]; rfl, hall⟩
  · obtain ⟨e, he, hfs⟩ := hinvalid pre bs post hrs hpre hb
    exact ⟨e, he, by rw [hfs]; rfl⟩

/-- The bytes of a central-directory record with the given 32-bit compressed size, uncompressed
size and local-header offset, versions 20 and 45, DOS time and date zero, no name or comment,
and the extra field `extra`. -/
def encodeRecord (csize usize offset : Nat) (extra : List UInt8) : List UInt8 :=
  toLE 4 directoryHeaderSignature ++ toLE 2 20 ++ toLE 2 45 ++ toLE 2 0 ++ toLE 2 0 ++ toLE 2 0 ++
    toLE 2 0 ++ toLE 4 0 ++ toLE 4 csize ++ toLE 4 usize ++ toLE 2 0 ++ toLE 2 extra.length ++
    toLE 2 0 ++ toLE 2 0 ++ toLE 2 0 ++ toLE 4 0 ++ toLE 4 offset ++ extra

/-- An archive of one entry, of compressed size 5 and uncompressed size 7, with no extra field,
followed by the end record. -/
def oneRecordSample : List UInt8 :=
  encodeRecord 5 7 0 [] ++ toLE 4 directoryEndSignature ++ toLE 2 0 ++ toLE 2 0 ++ toLE 2 1 ++
    toLE 2 1 ++ toLE 4 46 ++ toLE 4 0 ++ toLE 2 0

/-- `Initialize` accepts `oneRecordSample`, whose end record declares one valid record at 0. -/
theorem initializeReader_oneRecordSample :
    readDirectoryEnd oneRecordSample = .ok ⟨0, 0, 1, 1, 46, 0, 0, []⟩ ∧
    fileHeaderLen * 1 ≤ oneRecordSample.length ∧
    ∃ r, initializeReader (fun _ _ => Time.epoch) oneRecordSample = .ok r := by
  have hd : readDirectoryEnd oneRecordSample = .ok ⟨0, 0, 1, 1, 46, 0, 0, []⟩ := by decide
  have hk : fileHeaderLen * 1 ≤ oneRecordSample.length := by decide
  have hnone : firstZip64 oneRecordSample = none := by
    rw [firstZip64, show recordExtra oneRecordSample = [] by decide, splitTriples_of_lt (by decide)]
    rfl
  refine ⟨hd, hk, (initializeReader_records _ _ _ hd hk).1.mpr ?_⟩
  simp only [recordStarts, List.drop_zero, List.mem_singleton, forall_eq]
  exact ⟨by decide, by decide, fun _ => by decide, by simp [hnone]⟩

/-- An archive of one entry whose uncompressed size holds its sentinel while its compressed size
and offset do not, with a Zip64 triple of four bytes, followed by the end record. -/
def shortZip64Sample : List UInt8 :=
  encodeRecord 0 sizeMin 0 (encodeTriple (zip64ExtraID, [0, 0, 0, 0])) ++
    toLE 4 directoryEndSignature ++ toLE 2 0 ++ toLE 2 0 ++ toLE 2 1 ++ toLE 2 1 ++ toLE 4 54 ++
    toLE 4 0 ++ toLE 2 0

/-- The archive's one record carries its signature, lies within the file, and leaves neither
its compressed size nor its offset at the sentinel, in a file of 76 bytes whose end record
declares it; yet `Initialize` rejects the archive, since the Zip64 triple is too short for the
uncompressed size. -/
theorem initializeReader_shortZip64Sample :
    readDirectoryEnd shortZip64Sample = .ok ⟨0, 0, 1, 1, 54, 0, 0, []⟩ ∧
    leAt shortZip64Sample 0 4 = directoryHeaderSignature ∧
    recordLength shortZip64Sample ≤ shortZip64Sample.length ∧
    leAt shortZip64Sample 20 4 ≠ sizeMin ∧ leAt shortZip64Sample 42 4 ≠ offsetMin ∧
    initializeReader (fun _ _ => Time.epoch) shortZip64Sample = .error .notValid := by
  decide

/-! ## The Zip64 sizes and the time -/

/-- Zip64 resolution follows the sentinel subset. When the first Zip64 triple of the chain holds
eight bytes for each field whose 32-bit value is the sentinel, those fields take the triple's
successive values in the order uncompressed size, compressed size, offset, the other fields keep
their 32-bit values, and later Zip64 triples change nothing. A sentinel compressed size or offset
with no Zip64 triple in the chain is rejected. -/
theorem readDirectoryHeader_zip64 (bs : List UInt8)
    (hsig : leAt bs 0 4 = directoryHeaderSignature) (hlen : recordLength bs ≤ bs.length) :
    (∀ p, (splitTriples (recordExtra bs)).find? (fun t => t.1 = zip64ExtraID) =
        some (zip64ExtraID, p) →
      8 * needCount (headerState bs) ≤ p.length →
      ∃ file, readDirectoryHeader fromDosDateTime bs = .ok (file, bs.drop (recordLength bs)) ∧
        file.uncompressedSize = (if leAt bs 24 4 = sizeMin then leAt p 0 8 else leAt bs 24 4) ∧
        file.compressedSize = (if leAt bs 20 4 = sizeMin
          then leAt p (8 * (leAt bs 24 4 == sizeMin).toNat) 8 else leAt bs 20 4) ∧
        file.position = (if leAt bs 42 4 = offsetMin
          then leAt p (8 * ((leAt bs 24 4 == sizeMin).toNat + (leAt bs 20 4 == sizeMin).toNat)) 8
          else leAt bs 42 4)) ∧
    ((leAt bs 20 4 = sizeMin ∨ leAt bs 42 4 = offsetMin) →
      (∀ t ∈ splitTriples (recordExtra bs), t.1 ≠ zip64ExtraID) →
      readDirectoryHeader fromDosDateTime bs = .error .notValid) := by
  rw [readDirectoryHeader_eq, centralRecord_of_valid fromDosDateTime hsig hlen]
  refine ⟨fun p hfind hp => ?_, fun hCO hnone => ?_⟩
  · obtain ⟨-, pre, post, hsplit, hpre⟩ := List.find?_eq_some.mp hfind
    obtain ⟨s1, h1, hs1⟩ := foldlM_keeps_sizes pre (headerState bs)
      (Or.inl fun t ht => by simpa using hpre t ht)
    obtain ⟨s2, h2, hs2⟩ := extraField_zip64 s1 p (by rw [needCount_eq_of_sizes hs1]; exact hp)
    simp only [ExtraState.sizes, Prod.mk.injEq] at hs1 hs2
    obtain ⟨s3, h3, hs3⟩ := foldlM_keeps_sizes post s2 (Or.inr (by simp [needCount, hs2]))
    simp only [ExtraState.sizes, Prod.mk.injEq] at hs3
    have hchain : chainState bs = .ok s3 := by
      rw [chainState, hsplit, List.foldlM_append, h1, ok_bind, List.foldlM_cons, h2, ok_bind, h3]
    refine ⟨recordFile fromDosDateTime bs s3, ?_, ?_⟩
    · rw [hchain, ok_bind, if_neg (by simp [hs3, hs2])]
      rfl
    · simp only [recordFile, hs3, hs2, hs1, headerState, beq_iff_eq, and_self]
  · obtain ⟨s, h, hs⟩ := foldlM_keeps_sizes _ (headerState bs) (Or.inl hnone)
    simp only [ExtraState.sizes, Prod.mk.injEq] at hs
    rw [chainState, h, ok_bind, if_pos (by simp [hs, headerState]; simpa using hCO)]
    rfl

/-- An extra field of three triples: an extended timestamp, a Zip64 triple carrying `2 ^ 32 + 7`
and `2 ^ 33`, and a second Zip64 triple. -/
def zip64SampleExtra : List UInt8 :=
  encodeTriple (extTimeExtraID, [1, 0, 0, 0, 0]) ++
    encodeTriple (zip64ExtraID, toLE 8 (2 ^ 32 + 7) ++ toLE 8 (2 ^ 33)) ++
    encodeTriple (zip64ExtraID, toLE 8 1 ++ toLE 8 2 ++ toLE 8 3)

/-- A record whose uncompressed size and offset hold their sentinel and whose compressed size is
100, with the extra field `zip64SampleExtra`. -/
def zip64HeaderSample : List UInt8 := encodeRecord 100 sizeMin offsetMin zip64SampleExtra

/-- On `zip64HeaderSample` the uncompressed size and offset come from the first Zip64 triple and
the compressed size from the fixed field. -/
theorem readDirectoryHeader_zip64Sample :
    leAt zip64HeaderSample 0 4 = directoryHeaderSignature ∧
    recordLength zip64HeaderSample ≤ zip64HeaderSample.length ∧
    (readDirectoryHeader (fun _ _ => Time.epoch) zip64HeaderSample).map
      (fun r => (r.1.uncompressedSize, r.1.compressedSize, r.1.position)) =
      .ok (2 ^ 32 + 7, 100, 2 ^ 33) := by
  have hsig : leAt zip64HeaderSample 0 4 = directoryHeaderSignature := by decide
  have hlen : recordLength zip64HeaderSample ≤ zip64HeaderSample.length := by decide
  have hfind : (splitTriples (recordExtra zip64HeaderSample)).find? (fun t => t.1 = zip64ExtraID) =
      some (zip64ExtraID, toLE 8 (2 ^ 32 + 7) ++ toLE 8 (2 ^ 33)) := by
    rw [show recordExtra zip64HeaderSample = zip64SampleExtra by decide, zip64SampleExtra,
      List.append_assoc, splitTriples_encodeTriple_append _ _ (by decide) (by decide),
      splitTriples_encodeTriple_append _ _ (by decide) (by decide),
      ← List.append_nil (encodeTriple _),
      splitTriples_encodeTriple_append _ _ (by decide) (by decide), splitTriples_of_lt (by decide)]
    decide
  obtain ⟨file, h, hu, hc, ho⟩ :=
    (readDirectoryHeader_zip64 (fun _ _ => Time.epoch) _ hsig hlen).1 _ hfind (by decide)
  refine ⟨hsig, hlen, ?_⟩
  rw [h]
  show Except.ok (_, _, _) = _
  rw [hu, hc, ho]
  decide

/-- A call of `readDirectoryHeader` that succeeds returns its chain's entry. -/
theorem readDirectoryHeader_ok {bs rest : List UInt8} {file : File}
    (h : readDirectoryHeader fromDosDateTime bs = .ok (file, rest)) :
    ∃ s, chainState bs = .ok s ∧ file = recordFile fromDosDateTime bs s := by
  rw [readDirectoryHeader_eq] at h
  cases hc : centralRecord fromDosDateTime bs with
  | error e =>
    rw [hc] at h
    cases h
  | ok file' =>
    rw [hc, ok_map, Except.ok.injEq, Prod.mk.injEq] at h
    rw [← h.1]
    exact centralRecord_ok fromDosDateTime hc

/-- The modification time the chain of the record at the front of `bs` carries, from the epoch. -/
def recordModified (bs : List UInt8) : Time :=
  (splitTriples (recordExtra bs)).foldl tripleModified Time.epoch

/-- The entry's time is the modification time its chain carries, unless that is the epoch, in
which case it is the record's DOS date and time. The UNIX triples do not count, and an NTFS triple
counts only through `ntfsModified`. -/
theorem readDirectoryHeader_time {bs rest : List UInt8} {file : File}
    (h : readDirectoryHeader fromDosDateTime bs = .ok (file, rest)) :
    file.time = if toUnixSeconds (recordModified bs) ≠ 0 then recordModified bs
      else fromDosDateTime (leAt bs 14 2) (leAt bs 12 2) := by
  obtain ⟨s, hs, rfl⟩ := readDirectoryHeader_ok fromDosDateTime h
  have hm : s.modified = recordModified bs := foldlM_modified _ hs
  rw [← hm]
  rfl

/-- A record whose extra field is one UNIX triple: access time 0, modification time 2000. -/
def unixTimeSample : List UInt8 :=
  encodeRecord 0 0 0 (encodeTriple (unixExtraID, toLE 4 0 ++ toLE 4 2000))

/-- On `unixTimeSample`, which decodes, the entry's time is as its chain carries it. -/
theorem readDirectoryHeader_time_unixSample :
    ∃ file rest, readDirectoryHeader (fun _ _ => Time.epoch) unixTimeSample = .ok (file, rest) ∧
      file.time = if toUnixSeconds (recordModified unixTimeSample) ≠ 0
        then recordModified unixTimeSample else Time.epoch := by
  obtain ⟨⟨file, rest⟩, h⟩ :
      ∃ r, readDirectoryHeader (fun _ _ => Time.epoch) unixTimeSample = .ok r := ⟨_, rfl⟩
  exact ⟨file, rest, h, readDirectoryHeader_time _ h⟩

/-- A record whose extra field is one NTFS triple: the reserved bytes, an attribute of tag 2 and
size 4, then an attribute of tag 1 and size 24 whose times are 2000 seconds past the Unix epoch. -/
def ntfsTimeSample : List UInt8 :=
  encodeRecord 0 0 0 (encodeTriple (ntfsExtraID, toLE 4 0 ++ toLE 2 2 ++ toLE 2 4 ++ toLE 4 0 ++
    toLE 2 1 ++ toLE 2 24 ++ toLE 8 116444756000000000 ++ toLE 8 116444756000000000 ++
    toLE 8 116444756000000000))

/-- Both samples carry a modification time of 2000 seconds past the epoch, yet the entry's time
is the DOS date and time, whatever `bela::FromDosDateTime` computes: the UNIX case writes
`file.time`, which the DOS time then overwrites, and the NTFS attribute loop stops at the
attribute of tag 2 instead of skipping it. -/
theorem readDirectoryHeader_time_samples :
    (readDirectoryHeader fromDosDateTime unixTimeSample).map (·.1.time) =
      .ok (fromDosDateTime 0 0) ∧
    (readDirectoryHeader fromDosDateTime ntfsTimeSample).map (·.1.time) =
      .ok (fromDosDateTime 0 0) :=
  ⟨rfl, rfl⟩

end Header

end Abslw.Zip
