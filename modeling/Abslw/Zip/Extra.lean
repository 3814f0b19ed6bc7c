import Abslw.Zip.Basic

/-!
# The extra-field chain of a central-directory header

`readDirectoryHeader` of `hazel/zip/zip.cc` walks the record's extra field as a chain of
(tag, length, payload) triples: while four bytes are left it reads a tag and a length, stops at a
length that overruns the field, and hands a view of the payload to the case for its tag. Zip64
supplies the sizes and offset that hold their sentinel, NTFS, UNIX and extended-timestamp fields
carry times, and the WinZip AES field the method and key strength. Other tags are skipped.

`extraFields` is that loop, with a bound on its iterations that the header gives generously.
`extraFields_eq_foldlM` shows it is a fold of the case analysis `extraField` over `splitTriples`,
the chain split by its declared lengths, which has at most `len / 4` triples. Each case has its
spec lemma (`zip64Extra_eq`, `ntfsExtra_eq`, …) saying what it returns in terms of the payload's
bytes; none of them faults, so no read of the loop passes the end of the view it is issued on
(`extraFields_ne_fault`).
-/

namespace Abslw.Zip

/-! ## Times -/

/-- `bela::Time`, as the nanoseconds since the Unix epoch that it denotes. The time library is
not among the sources. -/
structure Time where
  /-- Nanoseconds since 1970-01-01T00:00:00Z. -/
  nanos : Int
  deriving DecidableEq, Repr

/-- The default `bela::Time`: the Unix epoch. -/
def Time.epoch : Time := ⟨0⟩

/-- `bela::FromUnixSeconds`. -/
def fromUnixSeconds (s : Int) : Time := ⟨s * 1000000000⟩

/-- `bela::FromWindowsPreciseTime`: a FILETIME counts 100-nanosecond ticks from 1601-01-01. -/
def fromWindowsPreciseTime (t : Nat) : Time := ⟨((t : Int) - 116444736000000000) * 100⟩

/-- `bela::ToUnixSeconds`, rounding down. -/
def toUnixSeconds (t : Time) : Int := t.nanos / 1000000000

/-! ## The loop -/

/-- Extra header IDs of `zip.cc`. -/
def zip64ExtraID : Nat := 0x0001
/-- NTFS. -/
def ntfsExtraID : Nat := 0x000a
/-- UNIX. -/
def unixExtraID : Nat := 0x000d
/-- Extended timestamp. -/
def extTimeExtraID : Nat := 0x5455
/-- Info-ZIP UNIX extension. -/
def infoZipUnixExtraID : Nat := 0x5855
/-- WinZip AES. -/
def winzipAesExtraID : Nat := 0x9901

/-- What the loop reads and writes: the three fields that Zip64 may supply with their `need`
flags, `file.time` and the local `modified`, and the method and AES parameters. -/
structure ExtraState where
  /-- `file.uncompressedSize`. -/
  uncompressedSize : Nat
  /-- `file.compressedSize`. -/
  compressedSize : Nat
  /-- `file.position`, the local-header offset. -/
  position : Nat
  /-- `needUSize`: the uncompressed size holds its sentinel. -/
  needUSize : Bool
  /-- `needSize`: the compressed size holds its sentinel. -/
  needSize : Bool
  /-- `needOffset`: the offset holds its sentinel. -/
  needOffset : Bool
  /-- `file.time`. -/
  time : Time
  /-- `modified`, the time that replaces the DOS time after the loop. -/
  modified : Time
  /-- `file.method`. -/
  method : Nat
  /-- `file.aesVersion`. -/
  aesVersion : Nat
  /-- `file.aesStrength`. -/
  aesStrength : Nat
  deriving DecidableEq, Repr

/-- One block `if (needX) { needX = false; if (fb.Size() < 8) fail; X = fb.Read<uint64_t>(); }`
of the Zip64 case: the next eight bytes when `need` is set, or the field as it was. -/
def zip64Field (need : Bool) (old : Nat) (fb : LittenEndian) :
    Except ZipError (Nat × LittenEndian) :=
  if need then
    if fb.size < 8 then .error .notValid else orFault (fb.read 8)
  else .ok (old, fb)

/-- The Zip64 case: uncompressed size, compressed size and offset in that order, each read only
when its `need` flag is set; every flag is then cleared. -/
def zip64Extra (s : ExtraState) (fb : LittenEndian) : Except ZipError ExtraState := do
  let (u, fb) ← zip64Field s.needUSize s.uncompressedSize fb
  let (c, fb) ← zip64Field s.needSize s.compressedSize fb
  let (o, _) ← zip64Field s.needOffset s.position fb
  pure { s with
    uncompressedSize := u, compressedSize := c, position := o,
    needUSize := false, needSize := false, needOffset := false }

/-- The attribute loop of the NTFS case, with a bound `n` on its iterations: an attribute of tag
1 and size 24 sets `modified` from its first FILETIME; the loop stops at any other attribute, at
one that overruns the field, and when fewer than four bytes are left. -/
def ntfsAttributes : Nat → Time → LittenEndian → Except ZipError Time
  | 0, m, _ => pure m
  | n + 1, m, fb =>
    if fb.size < 4 then pure m else do
    let (attrTag, fb) ← orFault (fb.read 2)
    let (attrSize, fb) ← orFault (fb.read 2)
    if fb.size < attrSize then pure m else do
    let (ab, fb) ← orFault (fb.sub attrSize)
    if attrTag ≠ 1 ∨ attrSize ≠ 24 then pure m else do
    let (t, _) ← orFault (ab.read 8)
    ntfsAttributes n (fromWindowsPreciseTime t) fb

/-- The NTFS case: with at least four bytes, skip them (reserved) and run the attribute loop. -/
def ntfsExtra (s : ExtraState) (fb : LittenEndian) : Except ZipError ExtraState :=
  if fb.size < 4 then pure s else do
  let fb ← orFault (fb.discard 4)
  let m ← ntfsAttributes fb.size s.modified fb
  pure { s with modified := m }

/-- The UNIX and Info-ZIP UNIX case: with at least eight bytes, skip the access time and write the
modification time to `file.time`. -/
def unixExtra (s : ExtraState) (fb : LittenEndian) : Except ZipError ExtraState :=
  if fb.size < 8 then pure s else do
  let fb ← orFault (fb.discard 4)
  let (t, _) ← orFault (fb.read 4)
  pure { s with time := fromUnixSeconds t }

/-- The extended-timestamp case: with at least five bytes, take the flag byte, and when its bit 0
is set, set `modified` from the modification time after it. -/
def extTimeExtra (s : ExtraState) (fb : LittenEndian) : Except ZipError ExtraState :=
  if fb.size < 5 then pure s else do
  let (flags, fb) ← orFault fb.pick
  if flags &&& 1 = 0 then pure s else do
  let (t, _) ← orFault (fb.read 4)
  pure { s with modified := fromUnixSeconds t }

/-- The WinZip AES case: with at least seven bytes, the AES version, the vendor ID (skipped), the
key strength and the method. -/
def winzipAesExtra (s : ExtraState) (fb : LittenEndian) : Except ZipError ExtraState :=
  if fb.size < 7 then pure s else do
  let (v, fb) ← orFault (fb.read 2)
  let fb ← orFault (fb.discard 2)
  let (k, fb) ← orFault fb.pick
  let (m, _) ← orFault (fb.read 2)
  pure { s with aesVersion := v, aesStrength := k, method := m }

/-- The body of the loop for one triple: the case of its tag, or nothing for an unknown tag. -/
def extraField (s : ExtraState) (fieldTag : Nat) (fb : LittenEndian) :
    Except ZipError ExtraState :=
  if fieldTag = zip64ExtraID then zip64Extra s fb
  else if fieldTag = ntfsExtraID then ntfsExtra s fb
  else if fieldTag = unixExtraID ∨ fieldTag = infoZipUnixExtraID then unixExtra s fb
  else if fieldTag = extTimeExtraID then extTimeExtra s fb
  else if fieldTag = winzipAesExtraID then winzipAesExtra s fb
  else pure s

/-- The loop `for (; extra.Size() >= 4;)` of `readDirectoryHeader`, with a bound `n` on its
iterations: read a tag and a length, stop at a length that overruns the field, and run the case
of the tag on a view of the payload. -/
def extraFields : Nat → ExtraState → LittenEndian → Except ZipError ExtraState
  | 0, s, _ => pure s
  | n + 1, s, extra =>
    if extra.size < 4 then pure s else do
    let (fieldTag, extra) ← orFault (extra.read 2)
    let (fieldSize, extra) ← orFault (extra.read 2)
    if extra.size < fieldSize then pure s else do
    let (fb, extra) ← orFault (extra.sub fieldSize)
    let s ← extraField s fieldTag fb
    extraFields n s extra

/-! ## The chain of triples -/

/-- An extra field split by its declared lengths into (tag, payload) triples, each a two-byte
tag and a two-byte length before the payload, up to the first triple that is not complete. -/
def splitTriples : List UInt8 → List (Nat × List UInt8)
  | t0 :: t1 :: l0 :: l1 :: rest =>
    if l0.toNat + 256 * l1.toNat ≤ rest.length then
      (t0.toNat + 256 * t1.toNat, rest.take (l0.toNat + 256 * l1.toNat)) ::
        splitTriples (rest.drop (l0.toNat + 256 * l1.toNat))
    else []
  | _ => []
termination_by bs => bs.length

/-- The bytes of a triple: tag, length and payload. -/
def encodeTriple (t : Nat × List UInt8) : List UInt8 := toLE 2 t.1 ++ toLE 2 t.2.length ++ t.2

/-- A chain shorter than a triple's head has no triples. -/
theorem splitTriples_of_lt {l : List UInt8} (h : l.length < 4) : splitTriples l = [] := by
  rcases l with _ | ⟨_, _ | ⟨_, _ | ⟨_, _ | ⟨_, _⟩⟩⟩⟩ <;> simp_all [splitTriples]
  omega

/-- Every triple takes at least its four-byte head. -/
theorem splitTriples_length_le (l : List UInt8) : (splitTriples l).length ≤ l.length / 4 := by
  induction l using splitTriples.induct with
  | case1 t0 t1 l0 l1 rest hlen ih =>
    rw [splitTriples, if_pos hlen, List.length_cons]
    simp only [List.length_drop, List.length_cons] at ih ⊢
    omega
  | case2 t0 t1 l0 l1 rest hlen => simp [splitTriples, hlen]
  | case3 l hl => rw [splitTriples.eq_2 l hl]; simp

/-- `splitTriples` undoes `encodeTriple`: a chain that starts with an encoded triple splits into
that triple and the triples of the rest. -/
theorem splitTriples_encodeTriple_append (t : Nat × List UInt8) (rest : List UInt8)
    (ht : t.1 < 65536) (hl : t.2.length < 65536) :
    splitTriples (encodeTriple t ++ rest) = t :: splitTriples rest := by
  have h2 (n : Nat) : ∃ a b : UInt8, toLE 2 n = [a, b] ∧ a.toNat + 256 * b.toNat = n % 65536 :=
    ⟨_, _, rfl, by simpa [toLE] using ofLE_toLE 2 n⟩
  obtain ⟨t0, t1, ht', htv⟩ := h2 t.1
  obtain ⟨l0, l1, hl', hlv⟩ := h2 t.2.length
  rw [Nat.mod_eq_of_lt ht] at htv
  rw [Nat.mod_eq_of_lt hl] at hlv
  simp only [encodeTriple, ht', hl', List.cons_append, List.nil_append, List.append_assoc]
  rw [splitTriples, if_pos (by simp; omega)]
  simp [hlv, htv]

/-- A read of two bytes from a view that holds them. -/
@[simp] theorem read_two (a b : UInt8) (l : List UInt8) :
    LittenEndian.read 2 ⟨a :: b :: l⟩ = some (a.toNat + 256 * b.toNat, ⟨l⟩) := by
  simp [LittenEndian.read]

/-- A sub-view of `n` bytes from a view that holds them. -/
@[simp] theorem sub_of_le {n : Nat} {l : List UInt8} (h : n ≤ l.length) :
    LittenEndian.sub n ⟨l⟩ = some (⟨l.take n⟩, ⟨l.drop n⟩) :=
  LittenEndian.sub_eq h

/-! ## The cases of the loop -/

/-- A Zip64 block reads the next eight bytes when its flag is set and there are eight. -/
theorem zip64Field_eq (need : Bool) (old : Nat) (fb : LittenEndian) :
    zip64Field need old fb =
      if need then
        (if fb.size < 8 then .error .notValid else .ok (leAt fb.data 0 8, ⟨fb.data.drop 8⟩))
      else .ok (old, fb) := by
  cases need
  · rfl
  · simp only [zip64Field, if_true]
    split_ifs with h
    · rfl
    · rw [LittenEndian.read_eq (by omega)]
      rfl

/-- How many eight-byte values the Zip64 case consumes: one per set `need` flag. -/
def needCount (s : ExtraState) : Nat := s.needUSize.toNat + s.needSize.toNat + s.needOffset.toNat

/-- The Zip64 case needs no value exactly when no flag is set. -/
theorem needCount_eq_zero {s : ExtraState} :
    needCount s = 0 ↔ s.needUSize = false ∧ s.needSize = false ∧ s.needOffset = false := by
  rw [needCount]
  cases s.needUSize <;> cases s.needSize <;> cases s.needOffset <;> decide

/-- A Zip64 block inside a computation: the next eight bytes go to the rest when the flag is
set and there are eight. -/
theorem zip64Field_bind {β : Type} (need : Bool) (old : Nat) (l : List UInt8)
    (k : Nat × LittenEndian → Except ZipError β) :
    (zip64Field need old ⟨l⟩ >>= k) =
      if need then (if l.length < 8 then .error .notValid else k (leAt l 0 8, ⟨l.drop 8⟩))
      else k (old, ⟨l⟩) := by
  rw [zip64Field_eq]
  cases need
  · rfl
  · simp only [LittenEndian.size_mk, if_true]
    split_ifs <;> rfl

/-- The Zip64 case fails when the payload is shorter than the values it must supply, and
otherwise sets each flagged field to the next eight-byte value, in the order uncompressed size,
compressed size, offset, and clears the flags. -/
theorem zip64Extra_eq (s : ExtraState) (l : List UInt8) :
    zip64Extra s ⟨l⟩ =
      if l.length < 8 * needCount s then .error .notValid
      else .ok { s with
        uncompressedSize := if s.needUSize then leAt l 0 8 else s.uncompressedSize
        compressedSize := if s.needSize then leAt l (8 * s.needUSize.toNat) 8 else s.compressedSize
        position := if s.needOffset then leAt l (8 * (s.needUSize.toNat + s.needSize.toNat)) 8
          else s.position
        needUSize := false, needSize := false, needOffset := false } := by
  rcases s with ⟨u, c, o, nu, ns, no, t, m, me, v, k⟩
  simp only [zip64Extra, zip64Field_bind, needCount, List.length_drop, leAt_drop, List.drop_drop]
  cases nu <;> cases ns <;> cases no <;>
    simp only [Bool.toNat_true, Bool.toNat_false, if_true, Bool.false_eq_true, if_false] <;>
    split_ifs <;> first | rfl | omega

/-- The UNIX case writes the modification time to `file.time` when the payload has eight bytes. -/
theorem unixExtra_eq (s : ExtraState) (l : List UInt8) :
    unixExtra s ⟨l⟩ =
      .ok (if l.length < 8 then s else { s with time := fromUnixSeconds (leAt l 4 4) }) := by
  simp only [unixExtra, LittenEndian.size_mk]
  split_ifs with h
  · rfl
  · simp (disch := simp; omega) only [LittenEndian.discard_eq, LittenEndian.read_eq,
      orFault_some_bind, leAt_drop, LittenEndian.size_mk]
    rfl

/-- The extended-timestamp case sets `modified` when the payload has five bytes and its flag
byte has bit 0 set. -/
theorem extTimeExtra_eq (s : ExtraState) (l : List UInt8) :
    extTimeExtra s ⟨l⟩ =
      .ok (if l.length < 5 ∨ leAt l 0 1 &&& 1 = 0 then s
        else { s with modified := fromUnixSeconds (leAt l 1 4) }) := by
  simp only [extTimeExtra, LittenEndian.size_mk]
  by_cases h : l.length < 5
  · rw [if_pos h, if_pos (Or.inl h)]
    rfl
  · rw [if_neg h, LittenEndian.pick_eq (by simp; omega), orFault_some_bind]
    simp only [h, false_or]
    split_ifs
    · rfl
    · simp (disch := simp; omega) only [LittenEndian.read_eq, orFault_some_bind, leAt_drop]
      rfl

/-- The AES case takes the version at offset 0, the key strength at 4 and the method at 5 when
the payload has seven bytes. -/
theorem winzipAesExtra_eq (s : ExtraState) (l : List UInt8) :
    winzipAesExtra s ⟨l⟩ =
      .ok (if l.length < 7 then s
        else { s with
          aesVersion := leAt l 0 2, aesStrength := leAt l 4 1, method := leAt l 5 2 }) := by
  simp only [winzipAesExtra, LittenEndian.size_mk]
  split_ifs with h
  · rfl
  · simp (disch := simp; omega) only [LittenEndian.discard_eq, LittenEndian.read_eq,
      LittenEndian.pick_eq, orFault_some_bind, leAt_drop, LittenEndian.size_mk, List.drop_drop]
    rfl

/-- What the NTFS attribute loop leaves in `modified`: the FILETIME of each leading attribute of
tag 1 and size 24, the last of them winning; the loop stops at the first other attribute. -/
def ntfsModified (m : Time) : List (Nat × List UInt8) → Time
  | [] => m
  | (tag, ab) :: rest =>
    if tag = 1 ∧ ab.length = 24 then ntfsModified (fromWindowsPreciseTime (leAt ab 0 8)) rest
    else m

/-- A list that holds a triple's head starts with its four bytes. -/
theorem exists_cons_four {l : List UInt8} (h : 4 ≤ l.length) :
    ∃ a b c d rest, l = a :: b :: c :: d :: rest :=
  match l, h with
  | a :: b :: c :: d :: rest, _ => ⟨a, b, c, d, rest, rfl⟩

/-- The attribute loop stops at once on a view shorter than an attribute's head. -/
theorem ntfsAttributes_of_lt (n : Nat) (m : Time) {l : List UInt8} (h : l.length < 4) :
    ntfsAttributes n m ⟨l⟩ = .ok m := by
  cases n
  · rfl
  · simp only [ntfsAttributes, LittenEndian.size_mk, if_pos h]
    rfl

/-- The attribute loop, given a quarter of its view's length in iterations, walks the view's
attributes as a chain of triples. -/
theorem ntfsAttributes_eq : ∀ (n : Nat) (m : Time) (l : List UInt8), l.length / 4 ≤ n →
    ntfsAttributes n m ⟨l⟩ = .ok (ntfsModified m (splitTriples l))
  | 0, m, l, h => by rw [splitTriples_of_lt (by omega)]; rfl
  | n + 1, m, l, h => by
    by_cases hl : l.length < 4
    · rw [ntfsAttributes_of_lt _ _ hl, splitTriples_of_lt hl]
      rfl
    obtain ⟨a, b, c, d, rest, rfl⟩ := exists_cons_four (show 4 ≤ l.length by omega)
    simp only [List.length_cons] at h
    simp only [ntfsAttributes, LittenEndian.size_mk, List.length_cons, read_two, orFault_some_bind]
    rw [if_neg (by omega), splitTriples]
    by_cases hlen : c.toNat + 256 * d.toNat ≤ rest.length
    · rw [if_neg (by omega), sub_of_le hlen, orFault_some_bind, if_pos hlen, ntfsModified]
      simp only [List.length_take, min_eq_left hlen]
      split_ifs with h1 h2 h2
      · exact absurd h2 fun ⟨ha, hb⟩ => h1.elim (· ha) (· hb)
      · rfl
      · rw [LittenEndian.read_eq (by simp; omega), orFault_some_bind]
        exact ntfsAttributes_eq n _ _ (by simp; omega)
      · exact absurd ⟨not_not.mp (not_or.mp h1).1, not_not.mp (not_or.mp h1).2⟩ h2
    · rw [if_pos (by omega), if_neg hlen]
      rfl

/-- The NTFS case skips the four reserved bytes and walks the attributes after them. -/
theorem ntfsExtra_eq (s : ExtraState) (l : List UInt8) :
    ntfsExtra s ⟨l⟩ =
      .ok (if l.length < 4 then s
        else { s with modified := ntfsModified s.modified (splitTriples (l.drop 4)) }) := by
  simp only [ntfsExtra, LittenEndian.size_mk]
  split_ifs with h
  · rfl
  · rw [LittenEndian.discard_eq (by simp; omega), orFault_some_bind,
      ntfsAttributes_eq _ _ _ (by simp; omega)]
    rfl

/-- The case `extraField` runs for a tag: the handler of a known tag, and for any other tag the
state as it is. -/
theorem extraField_cases (s : ExtraState) (fieldTag : Nat) (fb : LittenEndian) :
    (fieldTag = zip64ExtraID ∧ extraField s fieldTag fb = zip64Extra s fb) ∨
    (fieldTag = ntfsExtraID ∧ extraField s fieldTag fb = ntfsExtra s fb) ∨
    ((fieldTag = unixExtraID ∨ fieldTag = infoZipUnixExtraID) ∧
      extraField s fieldTag fb = unixExtra s fb) ∨
    (fieldTag = extTimeExtraID ∧ extraField s fieldTag fb = extTimeExtra s fb) ∨
    (fieldTag = winzipAesExtraID ∧ extraField s fieldTag fb = winzipAesExtra s fb) ∨
    (fieldTag ≠ zip64ExtraID ∧ fieldTag ≠ ntfsExtraID ∧ fieldTag ≠ unixExtraID ∧
      fieldTag ≠ infoZipUnixExtraID ∧ fieldTag ≠ extTimeExtraID ∧ fieldTag ≠ winzipAesExtraID ∧
      extraField s fieldTag fb = .ok s) := by
  unfold extraField
  by_cases hz : fieldTag = zip64ExtraID
  · exact .inl ⟨hz, if_pos hz⟩
  rw [if_neg hz]
  by_cases hn : fieldTag = ntfsExtraID
  · exact .inr <| .inl ⟨hn, if_pos hn⟩
  rw [if_neg hn]
  by_cases hu : fieldTag = unixExtraID ∨ fieldTag = infoZipUnixExtraID
  · exact .inr <| .inr <| .inl ⟨hu, if_pos hu⟩
  rw [if_neg hu]
  by_cases ht : fieldTag = extTimeExtraID
  · exact .inr <| .inr <| .inr <| .inl ⟨ht, if_pos ht⟩
  rw [if_neg ht]
  by_cases ha : fieldTag = winzipAesExtraID
  · exact .inr <| .inr <| .inr <| .inr <| .inl ⟨ha, if_pos ha⟩
  exact .inr <| .inr <| .inr <| .inr <| .inr
    ⟨hz, hn, (not_or.mp hu).1, (not_or.mp hu).2, ht, ha, if_neg ha⟩

/-- The loop stops at once on a field shorter than a triple's head. -/
theorem extraFields_of_lt (n : Nat) (s : ExtraState) {l : List UInt8} (h : l.length < 4) :
    extraFields n s ⟨l⟩ = .ok s := by
  cases n
  · rfl
  · simp only [extraFields, LittenEndian.size_mk, if_pos h]
    rfl

/-- The loop of `readDirectoryHeader`, given a quarter of the field's length in iterations, is the
case analysis `extraField` folded over the field's complete triples, each case seeing a view of
exactly its payload. -/
theorem extraFields_eq_foldlM : ∀ (n : Nat) (s : ExtraState) (l : List UInt8), l.length / 4 ≤ n →
    extraFields n s ⟨l⟩ = (splitTriples l).foldlM (fun s t => extraField s t.1 ⟨t.2⟩) s
  | 0, s, l, h => by rw [splitTriples_of_lt (by omega)]; rfl
  | n + 1, s, l, h => by
    by_cases hl : l.length < 4
    · rw [extraFields_of_lt _ _ hl, splitTriples_of_lt hl]
      rfl
    obtain ⟨a, b, c, d, rest, rfl⟩ := exists_cons_four (show 4 ≤ l.length by omega)
    simp only [List.length_cons] at h
    simp only [extraFields, LittenEndian.size_mk, List.length_cons, read_two, orFault_some_bind]
    rw [if_neg (by omega), splitTriples]
    by_cases hlen : c.toNat + 256 * d.toNat ≤ rest.length
    · rw [if_neg (by omega), sub_of_le hlen, orFault_some_bind, if_pos hlen, List.foldlM_cons]
      congr 1
      funext s'
      exact extraFields_eq_foldlM n s' _ (by simp; omega)
    · rw [if_pos (by omega), if_neg hlen]
      rfl

/-! ## No read leaves its view -/

/-- No case of the loop faults: each ends in its result or in `zip: not a valid zip file`. -/
theorem extraField_ne_fault (s : ExtraState) (fieldTag : Nat) (fb : LittenEndian) :
    extraField s fieldTag fb ≠ .error .fault := by
  rcases fb with ⟨l⟩
  rcases extraField_cases s fieldTag ⟨l⟩ with
    ⟨-, h⟩ | ⟨-, h⟩ | ⟨-, h⟩ | ⟨-, h⟩ | ⟨-, h⟩ | ⟨-, -, -, -, -, -, h⟩ <;>
    rw [h] <;>
    simp only [zip64Extra_eq, ntfsExtra_eq, unixExtra_eq, extTimeExtra_eq, winzipAesExtra_eq,
      ne_eq, reduceCtorEq, not_false_eq_true]
  split_ifs <;> simp

/-- A computation whose steps do not fault does not fault. -/
theorem bind_ne_fault {α β : Type} {x : Except ZipError α} {f : α → Except ZipError β}
    (hx : x ≠ .error .fault) (hf : ∀ a, f a ≠ .error .fault) : (x >>= f) ≠ .error .fault := by
  cases x with
  | error e => simpa using hx
  | ok a => exact hf a

/-- The loop does not fault, whatever bound on its iterations it is given. -/
theorem extraFields_ne_fault : ∀ (n : Nat) (s : ExtraState) (l : List UInt8),
    extraFields n s ⟨l⟩ ≠ .error .fault
  | 0, s, l => by simp [extraFields]
  | n + 1, s, l => by
    by_cases hl : l.length < 4
    · simp [extraFields_of_lt _ _ hl]
    obtain ⟨a, b, c, d, rest, rfl⟩ := exists_cons_four (show 4 ≤ l.length by omega)
    simp only [extraFields, LittenEndian.size_mk, List.length_cons, read_two, orFault_some_bind]
    rw [if_neg (by omega)]
    split_ifs with hlen
    · simp
    · rw [sub_of_le (by omega), orFault_some_bind]
      exact bind_ne_fault (extraField_ne_fault _ _ _) fun s' => extraFields_ne_fault n s' _

/-- The extra-field loop is bounded and stays inside each field. For an extra field of any length
and content: its complete triples number at most a quarter of its length; the loop, given that
many iterations or more, is the case analysis folded over exactly those triples, each case
running on a view of its own payload; the NTFS attribute loop likewise needs no more than a
quarter of its view; and no read of the loop, whatever its bound, passes the end of the view it is
issued on. -/
theorem extraFields_bounded (l : List UInt8) (s : ExtraState) :
    (splitTriples l).length ≤ l.length / 4 ∧
    (∀ n, extraFields (l.length / 4 + n) s ⟨l⟩ =
      (splitTriples l).foldlM (fun s t => extraField s t.1 ⟨t.2⟩) s) ∧
    (∀ (p : List UInt8) (m : Time) (n : Nat),
      ntfsAttributes (p.length / 4 + n) m ⟨p⟩ = ntfsAttributes (p.length / 4) m ⟨p⟩) ∧
    ∀ n, extraFields n s ⟨l⟩ ≠ .error .fault :=
  ⟨splitTriples_length_le l, fun n => extraFields_eq_foldlM _ s l (Nat.le_add_right _ _),
    fun p m n => by
      rw [ntfsAttributes_eq _ m p (Nat.le_add_right _ _), ntfsAttributes_eq _ m p le_rfl],
    fun n => extraFields_ne_fault n s l⟩

/-! ## What the chain does to the sizes -/

/-- The part of the chain's state that the Zip64 case reads and writes. -/
def ExtraState.sizes (s : ExtraState) : Nat × Nat × Nat × Bool × Bool × Bool :=
  (s.uncompressedSize, s.compressedSize, s.position, s.needUSize, s.needSize, s.needOffset)

/-- The number of values the Zip64 case needs is a function of the sizes. -/
theorem needCount_eq_of_sizes {s s' : ExtraState} (h : s'.sizes = s.sizes) :
    needCount s' = needCount s := by
  simp only [ExtraState.sizes, Prod.mk.injEq] at h
  simp [needCount, h]

/-- Only the Zip64 case touches the sizes, and with no flag set it leaves them as they are:
every other step, and a Zip64 step with no flag set, succeeds and keeps them. -/
theorem extraField_keeps_sizes (s : ExtraState) (fieldTag : Nat) (fb : LittenEndian)
    (h : fieldTag ≠ zip64ExtraID ∨ needCount s = 0) :
    ∃ s', extraField s fieldTag fb = .ok s' ∧ s'.sizes = s.sizes := by
  rcases fb with ⟨l⟩
  rcases extraField_cases s fieldTag ⟨l⟩ with
    ⟨hz, he⟩ | ⟨-, he⟩ | ⟨-, he⟩ | ⟨-, he⟩ | ⟨-, he⟩ | ⟨-, -, -, -, -, -, he⟩ <;> rw [he]
  · obtain ⟨hu, hc, ho⟩ := needCount_eq_zero.mp (h.resolve_left (not_not.mpr hz))
    rw [zip64Extra_eq, if_neg (by omega)]
    refine ⟨_, rfl, ?_⟩
    simp only [ExtraState.sizes, hu, hc, ho, Bool.false_eq_true, if_false]
  · exact ⟨_, ntfsExtra_eq s l, by split_ifs <;> rfl⟩
  · exact ⟨_, unixExtra_eq s l, by split_ifs <;> rfl⟩
  · exact ⟨_, extTimeExtra_eq s l, by split_ifs <;> rfl⟩
  · exact ⟨_, winzipAesExtra_eq s l, by split_ifs <;> rfl⟩
  · exact ⟨s, rfl, rfl⟩

/-- A run of such steps succeeds and keeps the sizes: a run with no Zip64 triple, or any run
from a state with no flag set. -/
theorem foldlM_keeps_sizes (ts : List (Nat × List UInt8)) (s : ExtraState)
    (h : (∀ t ∈ ts, t.1 ≠ zip64ExtraID) ∨ needCount s = 0) :
    ∃ s', ts.foldlM (fun s t => extraField s t.1 ⟨t.2⟩) s = .ok s' ∧ s'.sizes = s.sizes := by
  induction ts generalizing s with
  | nil => exact ⟨s, rfl, rfl⟩
  | cons t ts ih =>
    obtain ⟨s1, h1, hs1⟩ :=
      extraField_keeps_sizes s t.1 ⟨t.2⟩ (h.imp_left fun h => h t (List.mem_cons_self _ _))
    obtain ⟨s2, h2, hs2⟩ := ih s1 (h.imp (fun h t ht => h t (List.mem_cons_of_mem _ ht))
      fun h => (needCount_eq_of_sizes hs1).trans h)
    exact ⟨s2, by rw [List.foldlM_cons, h1, ok_bind, h2], hs2.trans hs1⟩

/-- A Zip64 step whose payload holds every flagged value succeeds: it fills the flagged fields
from the payload in the order uncompressed size, compressed size, offset, and clears the flags. -/
theorem extraField_zip64 (s : ExtraState) (p : List UInt8) (hp : 8 * needCount s ≤ p.length) :
    ∃ s', extraField s zip64ExtraID ⟨p⟩ = .ok s' ∧ s'.sizes =
      (if s.needUSize then leAt p 0 8 else s.uncompressedSize,
       if s.needSize then leAt p (8 * s.needUSize.toNat) 8 else s.compressedSize,
       if s.needOffset then leAt p (8 * (s.needUSize.toNat + s.needSize.toNat)) 8 else s.position,
       false, false, false) := by
  rw [extraField, if_pos rfl, zip64Extra_eq, if_neg (by omega)]
  exact ⟨_, rfl, rfl⟩

/-! ## What the chain does to the modification time -/

/-- What one triple does to `modified`: an NTFS triple of four bytes or more walks its attributes,
an extended-timestamp triple of five bytes or more with flag bit 0 set carries its modification
time, and every other triple, the UNIX ones included, leaves it as it is. -/
def tripleModified (m : Time) (t : Nat × List UInt8) : Time :=
  if t.1 = ntfsExtraID then
    if t.2.length < 4 then m else ntfsModified m (splitTriples (t.2.drop 4))
  else if t.1 = extTimeExtraID then
    if t.2.length < 5 ∨ leAt t.2 0 1 &&& 1 = 0 then m else fromUnixSeconds (leAt t.2 1 4)
  else m

/-- An NTFS triple walks its attributes. -/
theorem tripleModified_ntfs (m : Time) (l : List UInt8) :
    tripleModified m (ntfsExtraID, l) =
      if l.length < 4 then m else ntfsModified m (splitTriples (l.drop 4)) := by
  dsimp only [tripleModified]
  rw [if_pos rfl]

/-- An extended-timestamp triple carries its modification time when flag bit 0 is set. -/
theorem tripleModified_extTime (m : Time) (l : List UInt8) :
    tripleModified m (extTimeExtraID, l) =
      if l.length < 5 ∨ leAt l 0 1 &&& 1 = 0 then m else fromUnixSeconds (leAt l 1 4) := by
  dsimp only [tripleModified]
  rw [if_neg (by decide), if_pos rfl]

/-- A triple of neither time tag leaves `modified` as it is. -/
theorem tripleModified_of_ne {m : Time} {fieldTag : Nat} (l : List UInt8)
    (hn : fieldTag ≠ ntfsExtraID) (ht : fieldTag ≠ extTimeExtraID) :
    tripleModified m (fieldTag, l) = m := by
  rw [tripleModified, if_neg hn, if_neg ht]

/-- A step that succeeds sets `modified` as `tripleModified` says. -/
theorem extraField_modified {s s' : ExtraState} {fieldTag : Nat} {l : List UInt8}
    (h : extraField s fieldTag ⟨l⟩ = .ok s') :
    s'.modified = tripleModified s.modified (fieldTag, l) := by
  rcases extraField_cases s fieldTag ⟨l⟩ with
    ⟨rfl, he⟩ | ⟨rfl, he⟩ | ⟨hu, he⟩ | ⟨rfl, he⟩ | ⟨rfl, he⟩ | ⟨-, hn, -, -, ht, -, he⟩ <;>
    rw [he] at h
  · rw [zip64Extra_eq] at h
    by_cases hl : l.length < 8 * needCount s
    · rw [if_pos hl] at h
      cases h
    · rw [if_neg hl, Except.ok.injEq] at h
      subst h
      rfl
  · rw [ntfsExtra_eq, Except.ok.injEq] at h
    subst h
    rw [tripleModified_ntfs, apply_ite ExtraState.modified]
  · rw [unixExtra_eq, Except.ok.injEq] at h
    subst h
    obtain ⟨hn, ht⟩ : fieldTag ≠ ntfsExtraID ∧ fieldTag ≠ extTimeExtraID := by
      rcases hu with rfl | rfl <;> decide
    rw [tripleModified_of_ne l hn ht]
    split_ifs <;> rfl
  · rw [extTimeExtra_eq, Except.ok.injEq] at h
    subst h
    rw [tripleModified_extTime, apply_ite ExtraState.modified]
  · rw [winzipAesExtra_eq, Except.ok.injEq] at h
    subst h
    rw [tripleModified_of_ne l (by decide) (by decide)]
    split_ifs <;> rfl
  · cases h
    rw [tripleModified_of_ne l hn ht]

/-- A chain that succeeds leaves in `modified` what `tripleModified` folds over its triples: the
last triple that carries a time wins. -/
theorem foldlM_modified : ∀ (ts : List (Nat × List UInt8)) {s s' : ExtraState},
    ts.foldlM (fun s t => extraField s t.1 ⟨t.2⟩) s = .ok s' →
    s'.modified = ts.foldl tripleModified s.modified
  | [], s, s', h => by
    cases h
    rfl
  | t :: ts, s, s', h => by
    rw [List.foldlM_cons, bind_eq_ok] at h
    obtain ⟨s₁, h₁, h⟩ := h
    rw [foldlM_modified ts h, List.foldl_cons, extraField_modified h₁]

end Abslw.Zip
