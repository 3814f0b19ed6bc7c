import Abslw.Zip.DirectoryEnd

/-!
# The other copy of the directory-end reader

The repository holds a second copy of the zip reader (`part_005`). Its `Reader::readde` is
`readDirectoryEnd` with the fields read by `bela::readle` at fixed offsets instead of through the
`LittenEndian` cursor; its Zip64 step finds the locator with `findd64e` and reads the record with
`readd64e`. The search is the same text as in `zip.cc`, and so is the offset test.

`findd64e_eq` shows that both copies read the locator alike, so the copies differ only in how
they read the Zip64 end record. `readde_last_candidate` is this copy's counterpart of
`readDirectoryEnd_last_candidate`. `readde_zip64` proves that this copy returns the fields of the
signed Zip64 end record that the locator names, at their APPNOTE offsets. Like the first copy, it
follows the locator only when the code's sentinel test passes (the directory size compared with
`0xFFFF`) and the locator names a positive offset.
-/

namespace Abslw.Zip

/-! ## The code -/

/-- `Reader::findd64e`: the locator's signature, disk and disk count read at offsets 0, 4 and 16
of its 20 bytes, and the record's offset at 8. -/
def findd64e (f : List UInt8) (directoryEndOffset : Nat) : Except ZipError Int :=
  if directoryEndOffset < directory64LocLen then pure (-1) else do
  let b ← readAt f (directoryEndOffset - directory64LocLen) directory64LocLen
  if leAt b 0 4 ≠ directory64LocSignature then pure (-1)
  else if leAt b 4 4 ≠ 0 then pure (-1)
  else
    let p := leAt b 8 8
    if leAt b 16 4 ≠ 1 then pure (-1) else pure (toInt64 p)

/-- The fields of the end record as `readde` reads them from the block `b` that starts at the
record: `sv` is what follows the signature, the fields lie at offsets 0 to 16 of it, and the
comment-length test compares `commentLen + 18` with its size. -/
def decodede (b : List UInt8) : Except ZipError DirectoryEnd :=
  let sv := b.drop 4
  let commentLen := leAt sv 16 2
  if commentLen + 18 > sv.length then .error .invalidCommentLength
  else .ok ⟨leAt sv 0 2, leAt sv 2 2, leAt sv 4 2, leAt sv 6 2, leAt sv 8 4, leAt sv 12 4,
    commentLen, (sv.drop 18).take commentLen⟩

/-- The end of `readde` once the record at `directoryEndOffset` is decoded as `d`: the Zip64 step
with this copy's locator and record readers, then the offset test of the first copy. -/
def finishde (f : List UInt8) (directoryEndOffset : Nat) (d : DirectoryEnd) :
    Except ZipError DirectoryEnd := do
  let d ← resolveZip64 findd64e readd64e f directoryEndOffset d
  if toInt64 d.directoryOffset < 0 ∨ 0 ≥ f.length then throw .notValid else pure d

/-- `Reader::readde`: search, decode the record from the block, finish. -/
def readde (f : List UInt8) : Except ZipError DirectoryEnd := do
  let (buf, p, directoryEndOffset) ← searchDirectoryEnd f
  let d ← decodede (buf.drop p)
  finishde f directoryEndOffset d

/-! ## The locator -/

/-- A Zip64 locator in the 20 bytes before `e` that names the offset `p`: its signature, disk
`0`, the offset, and one disk in all. -/
def LocatorAt (f : List UInt8) (e p : Nat) : Prop :=
  directory64LocLen ≤ e ∧ leAt f (e - 20) 4 = directory64LocSignature ∧ leAt f (e - 16) 4 = 0 ∧
    leAt f (e - 12) 8 = p ∧ leAt f (e - 4) 4 = 1

/-- Both copies read the locator alike: the cursor's successive reads of 4, 4, 8 and 4 bytes are
the fixed offsets 0, 4, 8 and 16. -/
theorem findd64e_eq (f : List UInt8) (directoryEndOffset : Nat) :
    findd64e f directoryEndOffset = findDirectory64End f directoryEndOffset := by
  unfold findd64e findDirectory64End
  split_ifs with he
  · rfl
  by_cases hr : directoryEndOffset - directory64LocLen + directory64LocLen ≤ f.length
  · have hlen : ((f.drop (directoryEndOffset - directory64LocLen)).take
        directory64LocLen).length = 20 := by
      simp only [List.length_take, List.length_drop, directory64LocLen] at hr ⊢
      omega
    rw [readAt_of_le f hr, ok_bind, ok_bind]
    generalize (f.drop (directoryEndOffset - directory64LocLen)).take directory64LocLen = b at hlen
    iterate 4 (rw [LittenEndian.read_eq (by simp [hlen]), orFault_some_bind]; dsimp only)
    simp only [leAt_drop, List.drop_drop, Nat.reduceAdd]
  · rw [readAt_of_lt f (by omega)]
    rfl

/-- A locator before `e` that names an offset below `2 ^ 63` gives that offset. -/
theorem findd64e_of_locator {f : List UInt8} {e p : Nat} (he : e ≤ f.length)
    (h : LocatorAt f e p) (hp : p < 2 ^ 63) : findd64e f e = .ok p := by
  obtain ⟨hloc, hsig, hdisk, hoff, htotal⟩ := h
  have h20 : 20 ≤ e := hloc
  have hb (o w : Nat) (hw : o + w ≤ 20) :
      leAt ((f.drop (e - directory64LocLen)).take directory64LocLen) o w = leAt f (e - 20 + o) w := by
    rw [show directory64LocLen = 20 from rfl, leAt_take _ hw, leAt_drop]
  rw [findd64e, if_neg (not_lt.mpr hloc),
    readAt_of_le f (show e - directory64LocLen + directory64LocLen ≤ f.length by
      simp only [directory64LocLen]; omega),
    ok_bind, hb 0 4 (by decide), hb 4 4 (by decide), hb 8 8 (by decide), hb 16 4 (by decide),
    show e - 20 + 0 = e - 20 by omega, show e - 20 + 4 = e - 16 by omega,
    show e - 20 + 8 = e - 12 by omega, show e - 20 + 16 = e - 4 by omega,
    hsig, hdisk, hoff, htotal]
  simp only [ne_eq, not_true_eq_false, if_false, toInt64_of_lt hp, pure_eq_ok]

/-! ## The record -/

/-- `readde` reads the fixed fields at their APPNOTE offsets, and the comment that the record
declares when it fits: the comment-length test does not fire. -/
theorem decodede_eq {bs : List UInt8} (h : 22 + leAt bs 20 2 ≤ bs.length) :
    decodede bs = .ok (directoryEndAt bs 0) := by
  simp only [decodede, leAt_drop, List.length_drop, Nat.reduceAdd]
  rw [if_neg (by omega)]
  simp only [directoryEndAt, leAt_drop, List.drop_drop, Nat.reduceAdd]

/-- `readde` fails with `zip: not a valid zip file` when the file has no valid end-record
candidate, and otherwise decodes the record at the last valid candidate and finishes with this
copy's Zip64 step and the offset test. -/
theorem readde_last_candidate (f : List UInt8) :
    ((∀ e, ¬ ValidCandidate f e) → readde f = .error .notValid) ∧
    ∀ e, ValidCandidate f e → (∀ e', ValidCandidate f e' → e' ≤ e) →
      readde f = finishde f e (directoryEndAt f e) := by
  refine ⟨fun h => by rw [readde, searchDirectoryEnd_of_none h]; rfl, fun e hv hmax => ?_⟩
  obtain ⟨s, hs, hsearch⟩ := searchDirectoryEnd_of_last hv hmax
  have hrec : 22 + leAt (f.drop e) 20 2 ≤ (f.drop e).length := by
    have := hv.2.2
    rw [leAt_drop, List.length_drop]
    omega
  simp only [readde, hsearch, ok_bind, List.drop_drop, Nat.add_sub_cancel' hs,
    decodede_eq hrec, directoryEndAt_drop]

/-- On a file whose record at the last valid candidate holds no sentinel of the code's test, the
two copies of the reader return the same result. -/
theorem readde_eq_readDirectoryEnd {f : List UInt8} {e : Nat} (hv : ValidCandidate f e)
    (hmax : ∀ e', ValidCandidate f e' → e' ≤ e)
    (hns : ¬ ((directoryEndAt f e).directoryRecords = 0xFFFF ∨
      (directoryEndAt f e).directorySize = 0xFFFF ∨
      (directoryEndAt f e).directoryOffset = 0xFFFFFFFF)) :
    readde f = readDirectoryEnd f := by
  rw [(readde_last_candidate f).2 e hv hmax, readDirectoryEnd_of_last hv hmax, finishde,
    finishDirectoryEnd, resolveDirectory64, resolveZip64, resolveZip64, if_neg hns, if_neg hns]

/-- On `offsetPastEnd`, whose one end record holds no sentinel, the copies agree. -/
theorem readde_offsetPastEnd :
    ValidCandidate offsetPastEnd 0 ∧ (∀ e', ValidCandidate offsetPastEnd e' → e' ≤ 0) ∧
    ¬((directoryEndAt offsetPastEnd 0).directoryRecords = 0xFFFF ∨
      (directoryEndAt offsetPastEnd 0).directorySize = 0xFFFF ∨
      (directoryEndAt offsetPastEnd 0).directoryOffset = 0xFFFFFFFF) ∧
    readde offsetPastEnd = readDirectoryEnd offsetPastEnd := by
  have hv : ValidCandidate offsetPastEnd 0 := by decide
  have hmax (e' : Nat) (h : ValidCandidate offsetPastEnd e') : e' ≤ 0 := by
    have := h.2.2
    have : offsetPastEnd.length = 22 := rfl
    omega
  have hns : ¬((directoryEndAt offsetPastEnd 0).directoryRecords = 0xFFFF ∨
      (directoryEndAt offsetPastEnd 0).directorySize = 0xFFFF ∨
      (directoryEndAt offsetPastEnd 0).directoryOffset = 0xFFFFFFFF) := by
    decide
  exact ⟨hv, hmax, hns, readde_eq_readDirectoryEnd hv hmax hns⟩

/-- The end record of `zip64Sample` at 77 is its last valid candidate, holds the record-count
sentinel, and follows a locator that names the offset 1. -/
theorem zip64Sample_candidate :
    ValidCandidate zip64Sample 77 ∧ (∀ e', ValidCandidate zip64Sample e' → e' ≤ 77) ∧
    (directoryEndAt zip64Sample 77).directoryRecords = 0xFFFF ∧ LocatorAt zip64Sample 77 1 := by
  refine ⟨by decide, fun e' h => ?_, by decide,
    ⟨by decide, by decide, by decide, by decide, by decide⟩⟩
  have := h.2.2
  have : zip64Sample.length = 99 := rfl
  omega

/-- This copy decodes the Zip64 path as the format lays it out. When the record at the last
valid candidate holds a sentinel of the code's test, and the locator before it names a positive
offset at which a signed Zip64 end record lies within the file, `readde` returns that record's
fields at their APPNOTE offsets over the end record, provided its offset is not negative as
`int64_t`. -/
theorem readde_zip64 {f : List UInt8} {e p : Nat} (hv : ValidCandidate f e)
    (hmax : ∀ e', ValidCandidate f e' → e' ≤ e)
    (hsent : (directoryEndAt f e).directoryRecords = 0xFFFF ∨
      (directoryEndAt f e).directorySize = 0xFFFF ∨
      (directoryEndAt f e).directoryOffset = 0xFFFFFFFF)
    (hloc : LocatorAt f e p) (hp : 0 < p) (hp63 : p < 2 ^ 63) (hrec : p + 56 ≤ f.length)
    (hsig : leAt f p 4 = directory64EndSignature) (hoff : leAt f (p + 48) 8 < 2 ^ 63) :
    readde f = .ok (directory64EndAt f p (directoryEndAt f e)) := by
  have he : e ≤ f.length := by have := hv.2.2; omega
  rw [(readde_last_candidate f).2 e hv hmax, finishde, resolveZip64, if_pos hsent,
    findd64e_of_locator he hloc hp63, ok_bind, if_pos (by omega), Int.toNat_ofNat,
    readd64e_eq _ hrec hsig, ok_bind, if_neg]
  · rfl
  · rw [directory64EndAt, toInt64_of_lt hoff]
    omega

/-- On `zip64Sample`, whose end record at 77 holds every sentinel and whose locator names the
Zip64 end record at 1, this copy returns that record's fields. -/
theorem readde_zip64Sample :
    ValidCandidate zip64Sample 77 ∧ (∀ e', ValidCandidate zip64Sample e' → e' ≤ 77) ∧
    (directoryEndAt zip64Sample 77).directoryRecords = 0xFFFF ∧ LocatorAt zip64Sample 77 1 ∧
    1 + 56 ≤ zip64Sample.length ∧ leAt zip64Sample 1 4 = directory64EndSignature ∧
    leAt zip64Sample (1 + 48) 8 < 2 ^ 63 ∧
    readde zip64Sample = .ok (directory64EndAt zip64Sample 1 (directoryEndAt zip64Sample 77)) := by
  obtain ⟨hv, hmax, hsent, hloc⟩ := zip64Sample_candidate
  exact ⟨hv, hmax, hsent, hloc, by decide, by decide, by decide,
    readde_zip64 hv hmax (Or.inl hsent) hloc (by decide) (by decide) (by decide) (by decide)
      (by decide)⟩

/-- Under the same hypotheses the first copy faults: its Zip64 step finds the same locator and
then reads past the record's 56-byte buffer. -/
theorem readDirectoryEnd_zip64_faults {f : List UInt8} {e p : Nat} (hv : ValidCandidate f e)
    (hmax : ∀ e', ValidCandidate f e' → e' ≤ e)
    (hsent : (directoryEndAt f e).directoryRecords = 0xFFFF ∨
      (directoryEndAt f e).directorySize = 0xFFFF ∨
      (directoryEndAt f e).directoryOffset = 0xFFFFFFFF)
    (hloc : LocatorAt f e p) (hp : 0 < p) (hp63 : p < 2 ^ 63) (hrec : p + 56 ≤ f.length)
    (hsig : leAt f p 4 = directory64EndSignature) :
    readDirectoryEnd f = .error .fault := by
  have he : e ≤ f.length := by have := hv.2.2; omega
  rw [readDirectoryEnd_of_last hv hmax, finishDirectoryEnd, resolveDirectory64, resolveZip64,
    if_pos hsent, ← findd64e_eq, findd64e_of_locator he hloc hp63, ok_bind, if_pos (by omega),
    Int.toNat_ofNat, readDirectory64End_faults _ hrec hsig]
  rfl

/-- On `zip64Sample` the first copy faults. -/
theorem readDirectoryEnd_zip64_faultsSample :
    ValidCandidate zip64Sample 77 ∧ (∀ e', ValidCandidate zip64Sample e' → e' ≤ 77) ∧
    (directoryEndAt zip64Sample 77).directoryRecords = 0xFFFF ∧ LocatorAt zip64Sample 77 1 ∧
    1 + 56 ≤ zip64Sample.length ∧ leAt zip64Sample 1 4 = directory64EndSignature ∧
    readDirectoryEnd zip64Sample = .error .fault := by
  obtain ⟨hv, hmax, hsent, hloc⟩ := zip64Sample_candidate
  exact ⟨hv, hmax, hsent, hloc, by decide, by decide,
    readDirectoryEnd_zip64_faults hv hmax (Or.inl hsent) hloc (by decide) (by decide) (by decide)
      (by decide)⟩

end Abslw.Zip
