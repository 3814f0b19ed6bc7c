import Abslw.Zip.Header

/-!
# What a record's extra chain decides

`readDirectoryHeader` hands each complete triple of the extra field to the case of its tag; a tag
that no case names falls through the loop body, and a WinZip AES triple sets the method and the
AES parameters. This module states what follows for whole records.

`layRecord` lays a record out from its fixed part, name, extra field and comment, with the three
length fields set from the parts, and `layRecord_parts` shows that every record that lies within
the stream is laid out so. `readDirectoryHeader_layRecord_congr` shows that the extra field counts
only through the state its chain leaves: two records that differ only there, and whose chains
leave the same state, decode alike but for the stored bytes. Two results follow. A triple of an
unknown tag inserted at any boundary between complete triples changes nothing that is decoded
(`readDirectoryHeader_insert_unknown`). The method and the AES parameters come from the last
WinZip AES triple of seven bytes or more, wherever it stands, and otherwise the method is the
record's own (`readDirectoryHeader_aes`, from the step lemma `extraField_aes` and the run lemma
`foldlM_aes`).
-/

namespace Abslw.Zip

/-! ## Records laid out from their parts -/

/-- A record laid out from its fixed part, name, extra field and comment: the fixed part's bytes,
but for the name, extra and comment lengths at 28, 30 and 32, which are those of the parts. -/
def layRecord (fixed name extra comment : List UInt8) : List UInt8 :=
  fixed.take 28 ++ (toLE 2 name.length ++ toLE 2 extra.length ++ toLE 2 comment.length) ++
    fixed.drop 34 ++ (name ++ extra ++ comment)

section Layout

variable {fixed name extra comment : List UInt8} (rest : List UInt8)

/-- The fixed part of a laid-out record is 46 bytes long. -/
theorem length_layRecord_head (hfixed : fixed.length = 46) :
    (fixed.take 28 ++ (toLE 2 name.length ++ toLE 2 extra.length ++ toLE 2 comment.length) ++
      fixed.drop 34).length = 46 := by
  simp [hfixed]

/-- After the fixed part come the name, the extra field and the comment. -/
theorem drop_layRecord (hfixed : fixed.length = 46) :
    (layRecord fixed name extra comment ++ rest).drop 46 = name ++ extra ++ comment ++ rest := by
  rw [layRecord, List.append_assoc, List.drop_left' (length_layRecord_head hfixed),
    List.append_assoc]

/-- A field before the length fields reads as in the fixed part. -/
theorem leAt_layRecord_head (hfixed : fixed.length = 46) {o w : Nat} (h : o + w ≤ 28) :
    leAt (layRecord fixed name extra comment ++ rest) o w = leAt fixed o w := by
  rw [layRecord, List.append_assoc, List.append_assoc, List.append_assoc,
    leAt_append_left _ (by simp [hfixed]; omega), leAt_take _ h]

/-- A field after the length fields reads as in the fixed part. -/
theorem leAt_layRecord_tail (hfixed : fixed.length = 46) {o w : Nat} (h₁ : 34 ≤ o)
    (h₂ : o + w ≤ 46) :
    leAt (layRecord fixed name extra comment ++ rest) o w = leAt fixed o w := by
  have hA : (fixed.take 28 ++ (toLE 2 name.length ++ toLE 2 extra.length ++
      toLE 2 comment.length)).length = 34 := by simp [hfixed]
  rw [layRecord, List.append_assoc, List.append_assoc, leAt_append_of_le _ (by omega), hA,
    leAt_append_left _ (by simp [hfixed]; omega), leAt_drop, Nat.add_sub_cancel' h₁]

/-- The length fields are those of the parts. -/
theorem leAt_layRecord_lengths (hfixed : fixed.length = 46) (hname : name.length < 2 ^ 16)
    (hextra : extra.length < 2 ^ 16) (hcomment : comment.length < 2 ^ 16) :
    leAt (layRecord fixed name extra comment ++ rest) 28 2 = name.length ∧
    leAt (layRecord fixed name extra comment ++ rest) 30 2 = extra.length ∧
    leAt (layRecord fixed name extra comment ++ rest) 32 2 = comment.length := by
  have h28 : (fixed.take 28).length = 28 := by simp [hfixed]
  simp only [layRecord, List.append_assoc]
  refine ⟨?_, ?_, ?_⟩ <;>
  · rw [leAt_append_of_le _ (by omega), h28]
    simp (disch := first | decide | omega) only [leAt_toLE_append_of_le, leAt_toLE_append,
      Nat.reduceSub, Nat.mod_eq_of_lt]

/-- The declared length of a laid-out record is its length. -/
theorem recordLength_layRecord (hfixed : fixed.length = 46) (hname : name.length < 2 ^ 16)
    (hextra : extra.length < 2 ^ 16) (hcomment : comment.length < 2 ^ 16) :
    recordLength (layRecord fixed name extra comment ++ rest) =
      46 + name.length + extra.length + comment.length := by
  obtain ⟨h28, h30, h32⟩ := leAt_layRecord_lengths rest hfixed hname hextra hcomment
  rw [recordLength, h28, h30, h32]
  rfl

/-- The extra field of a laid-out record is the one it was laid out with. -/
theorem recordExtra_layRecord (hfixed : fixed.length = 46) (hname : name.length < 2 ^ 16)
    (hextra : extra.length < 2 ^ 16) (hcomment : comment.length < 2 ^ 16) :
    recordExtra (layRecord fixed name extra comment ++ rest) = extra := by
  obtain ⟨h28, h30, -⟩ := leAt_layRecord_lengths rest hfixed hname hextra hcomment
  rw [recordExtra, h28, h30, show directoryHeaderLen + name.length = 46 + name.length from rfl,
    ← List.drop_drop, drop_layRecord rest hfixed, List.append_assoc, List.append_assoc,
    List.drop_left, List.take_left]

/-- The name of a laid-out record is the one it was laid out with. -/
theorem name_layRecord (hfixed : fixed.length = 46) :
    ((layRecord fixed name extra comment ++ rest).drop directoryHeaderLen).take name.length =
      name := by
  rw [show directoryHeaderLen = 46 from rfl, drop_layRecord rest hfixed, List.append_assoc,
    List.append_assoc, List.take_left]

/-- The comment of a laid-out record is the one it was laid out with. -/
theorem comment_layRecord (hfixed : fixed.length = 46) :
    ((layRecord fixed name extra comment ++ rest).drop
      (directoryHeaderLen + name.length + extra.length)).take comment.length = comment := by
  rw [show directoryHeaderLen = 46 from rfl, ← List.drop_drop, ← List.drop_drop,
    drop_layRecord rest hfixed, List.append_assoc, List.append_assoc, List.drop_left,
    List.drop_left, List.take_left]

/-- The stream after a laid-out record is what followed it. -/
theorem drop_recordLength_layRecord (hfixed : fixed.length = 46) :
    (layRecord fixed name extra comment ++ rest).drop
      (46 + name.length + extra.length + comment.length) = rest := by
  rw [Nat.add_assoc, Nat.add_assoc, ← List.drop_drop, drop_layRecord rest hfixed,
    ← Nat.add_assoc, List.drop_left' (by simp; omega)]

/-- The chain of a laid-out record starts from the state its fixed part gives. -/
theorem headerState_layRecord (hfixed : fixed.length = 46) :
    headerState (layRecord fixed name extra comment ++ rest) = headerState fixed := by
  simp (disch := omega) only [headerState, leAt_layRecord_head rest hfixed,
    leAt_layRecord_tail rest hfixed]

end Layout

section Decode

variable (fromDosDateTime : Nat → Nat → Time)
variable {fixed name extra comment : List UInt8} (rest : List UInt8)

/-- The entry of a laid-out record is that of the record with no extra field, but for the stored
extra bytes. -/
theorem recordFile_layRecord (hfixed : fixed.length = 46) (hname : name.length < 2 ^ 16)
    (hextra : extra.length < 2 ^ 16) (hcomment : comment.length < 2 ^ 16) (s : ExtraState) :
    recordFile fromDosDateTime (layRecord fixed name extra comment ++ rest) s =
      { recordFile fromDosDateTime (layRecord fixed name [] comment ++ []) s with extra } := by
  obtain ⟨h28, h30, h32⟩ := leAt_layRecord_lengths rest hfixed hname hextra hcomment
  obtain ⟨h28', h30', h32'⟩ :=
    @leAt_layRecord_lengths fixed name [] comment [] hfixed hname (by simp) hcomment
  simp (disch := omega) only [recordFile, leAt_layRecord_head _ hfixed,
    leAt_layRecord_tail _ hfixed, h28, h30, h32, h28', h30', h32',
    recordExtra_layRecord rest hfixed hname hextra hcomment, name_layRecord _ hfixed,
    comment_layRecord _ hfixed]

/-- The length of a laid-out record followed by `rest`. -/
theorem length_layRecord (hfixed : fixed.length = 46) :
    (layRecord fixed name extra comment ++ rest).length =
      46 + name.length + extra.length + comment.length + rest.length := by
  simp only [layRecord, List.length_append, List.length_take, List.length_drop, length_toLE, hfixed]
  omega

/-- A laid-out record is not valid under a wrong signature, and otherwise decodes to the entry of
the state its chain leaves, unless that state leaves the compressed size or the offset
unresolved. -/
theorem centralRecord_layRecord (hfixed : fixed.length = 46) (hname : name.length < 2 ^ 16)
    (hextra : extra.length < 2 ^ 16) (hcomment : comment.length < 2 ^ 16) :
    centralRecord fromDosDateTime (layRecord fixed name extra comment ++ rest) =
      if leAt fixed 0 4 ≠ directoryHeaderSignature then .error .notValid
      else (splitTriples extra).foldlM (fun s t => extraField s t.1 ⟨t.2⟩) (headerState fixed)
        >>= fun s => if s.needSize || s.needOffset then throw .notValid
          else pure { recordFile fromDosDateTime (layRecord fixed name [] comment ++ []) s with
            extra } := by
  have hlen := @length_layRecord fixed name extra comment rest hfixed
  rw [centralRecord, if_neg (by rw [hlen]; simp only [directoryHeaderLen]; omega),
    leAt_layRecord_head rest hfixed (by decide)]
  by_cases hsig : leAt fixed 0 4 ≠ directoryHeaderSignature
  · rw [if_pos hsig, if_pos hsig]
  rw [if_neg hsig, if_neg hsig,
    if_neg (by rw [hlen, recordLength_layRecord rest hfixed hname hextra hcomment]; omega),
    chainState, recordExtra_layRecord rest hfixed hname hextra hcomment,
    headerState_layRecord rest hfixed]
  simp only [recordFile_layRecord fromDosDateTime rest hfixed hname hextra hcomment]

/-- A record's extra field counts only through the state its chain leaves: two records that differ
only there, and whose chains leave the same state, decode alike but for the stored bytes. -/
theorem readDirectoryHeader_layRecord_congr {e₁ e₂ : List UInt8} (hfixed : fixed.length = 46)
    (hname : name.length < 2 ^ 16) (hcomment : comment.length < 2 ^ 16)
    (h₁ : e₁.length < 2 ^ 16) (h₂ : e₂.length < 2 ^ 16)
    (hchain :
      (splitTriples e₁).foldlM (fun s t => extraField s t.1 ⟨t.2⟩) (headerState fixed) =
        (splitTriples e₂).foldlM (fun s t => extraField s t.1 ⟨t.2⟩) (headerState fixed)) :
    (readDirectoryHeader fromDosDateTime (layRecord fixed name e₁ comment ++ rest)).map
        (fun r => ({ r.1 with extra := [] }, r.2)) =
      (readDirectoryHeader fromDosDateTime (layRecord fixed name e₂ comment ++ rest)).map
        (fun r => ({ r.1 with extra := [] }, r.2)) := by
  rw [readDirectoryHeader_eq, readDirectoryHeader_eq,
    recordLength_layRecord rest hfixed hname h₁ hcomment, drop_recordLength_layRecord rest hfixed,
    recordLength_layRecord rest hfixed hname h₂ hcomment, drop_recordLength_layRecord rest hfixed,
    centralRecord_layRecord fromDosDateTime rest hfixed hname h₁ hcomment,
    centralRecord_layRecord fromDosDateTime rest hfixed hname h₂ hcomment, hchain]
  split_ifs
  · rfl
  cases (splitTriples e₂).foldlM (fun s t => extraField s t.1 ⟨t.2⟩) (headerState fixed) with
  | error e => rfl
  | ok s =>
    show Except.map _ (Except.map _ (if _ then _ else _)) =
      Except.map _ (Except.map _ (if _ then _ else _))
    split <;> rfl

end Decode

/-! ## Unknown triples -/

/-- The tags that have a case in the loop: Zip64, NTFS, UNIX, extended timestamp, Info-ZIP UNIX
and WinZip AES. -/
def knownExtraIDs : List Nat :=
  [zip64ExtraID, ntfsExtraID, unixExtraID, extTimeExtraID, infoZipUnixExtraID, winzipAesExtraID]

/-- A triple whose tag has no case falls through the loop body. -/
theorem extraField_of_unknown {fieldTag : Nat} (h : fieldTag ∉ knownExtraIDs) (s : ExtraState)
    (fb : LittenEndian) : extraField s fieldTag fb = .ok s := by
  simp only [knownExtraIDs, List.mem_cons, List.mem_singleton, not_or, List.not_mem_nil,
    or_false] at h
  obtain ⟨hz, hn, hu, ht, hi, ha⟩ := h
  rw [extraField, if_neg hz, if_neg hn, if_neg (not_or.mpr ⟨hu, hi⟩), if_neg ht, if_neg ha]
  rfl

/-- A chain that starts with complete triples splits into those triples, then the triples of the
rest. -/
theorem splitTriples_flatten_append (ts : List (Nat × List UInt8)) (post : List UInt8)
    (hts : ∀ t ∈ ts, t.1 < 2 ^ 16 ∧ t.2.length < 2 ^ 16) :
    splitTriples ((ts.map encodeTriple).flatten ++ post) = ts ++ splitTriples post := by
  induction ts with
  | nil => rfl
  | cons t ts ih =>
    obtain ⟨ht, hl⟩ := hts t (List.mem_cons_self _ _)
    rw [List.map_cons, List.flatten_cons, List.append_assoc,
      splitTriples_encodeTriple_append _ _ ht hl, ih fun t' h => hts t' (List.mem_cons_of_mem _ h),
      List.cons_append]

/-- A step that leaves every state as it is can be dropped from a run. -/
theorem foldlM_erase_step (ts rest : List (Nat × List UInt8)) (u : Nat × List UInt8)
    (hu : ∀ s, extraField s u.1 ⟨u.2⟩ = .ok s) (s : ExtraState) :
    (ts ++ u :: rest).foldlM (fun s t => extraField s t.1 ⟨t.2⟩) s =
      (ts ++ rest).foldlM (fun s t => extraField s t.1 ⟨t.2⟩) s := by
  simp only [List.foldlM_append, List.foldlM_cons, hu, ok_bind]

section Unknown

variable (fromDosDateTime : Nat → Nat → Time)

/-- Unknown triples are transparent. In a record of any fixed part, name and comment, insert a
triple `u` whose tag has no case between the complete triples `ts` at the front of the extra field
and whatever follows them, keeping the extra field within 65535 bytes: every field that
`readDirectoryHeader` decodes, its success or failure, and the stream after the record are
unchanged, apart from the stored extra bytes. -/
theorem readDirectoryHeader_insert_unknown (fixed name comment rest post : List UInt8)
    (ts : List (Nat × List UInt8)) (u : Nat × List UInt8) (hfixed : fixed.length = 46)
    (hname : name.length < 2 ^ 16) (hcomment : comment.length < 2 ^ 16)
    (hts : ∀ t ∈ ts, t.1 < 2 ^ 16 ∧ t.2.length < 2 ^ 16) (hu : u.1 < 2 ^ 16)
    (hunknown : u.1 ∉ knownExtraIDs)
    (hlen : ((ts.map encodeTriple).flatten ++ encodeTriple u ++ post).length ≤ 65535) :
    (readDirectoryHeader fromDosDateTime
        (layRecord fixed name ((ts.map encodeTriple).flatten ++ encodeTriple u ++ post) comment ++
          rest)).map (fun r => ({ r.1 with extra := [] }, r.2)) =
      (readDirectoryHeader fromDosDateTime
        (layRecord fixed name ((ts.map encodeTriple).flatten ++ post) comment ++ rest)).map
        (fun r => ({ r.1 with extra := [] }, r.2)) := by
  have hu2 : u.2.length < 2 ^ 16 := by
    simp only [List.length_append, encodeTriple, length_toLE] at hlen
    omega
  refine readDirectoryHeader_layRecord_congr fromDosDateTime rest hfixed hname hcomment
    (by omega) (by simp only [List.length_append] at hlen ⊢; omega) ?_
  rw [List.append_assoc, splitTriples_flatten_append _ _ hts, splitTriples_flatten_append _ _ hts,
    splitTriples_encodeTriple_append _ _ hu hu2,
    foldlM_erase_step _ _ _ fun s => extraField_of_unknown hunknown s _]

end Unknown

/-- The fixed part of an AES-encrypted entry: version made by 20, version needed 51, the
encryption flag, method 99, and zeros after. -/
def aesFixed : List UInt8 :=
  toLE 4 directoryHeaderSignature ++ toLE 2 20 ++ toLE 2 51 ++ toLE 2 1 ++ toLE 2 99 ++
    List.replicate 34 0

/-- A WinZip AES payload: version 2, vendor `AE`, key strength 3 (AES-256), method 8. -/
def aesPayload : List UInt8 := [2, 0, 0x41, 0x45, 3, 8, 0]

/-- An unknown triple, of tag `0x6375`, inserted after the AES triple of a record with no name and
no comment changes nothing decoded. -/
theorem readDirectoryHeader_insert_unknown_aesFixed :
    (readDirectoryHeader (fun _ _ => Time.epoch)
        (layRecord aesFixed [] (([(winzipAesExtraID, aesPayload)].map encodeTriple).flatten ++
          encodeTriple (0x6375, [1]) ++ []) [] ++ [])).map
        (fun r => ({ r.1 with extra := [] }, r.2)) =
      (readDirectoryHeader (fun _ _ => Time.epoch)
        (layRecord aesFixed [] (([(winzipAesExtraID, aesPayload)].map encodeTriple).flatten ++ [])
          [] ++ [])).map (fun r => ({ r.1 with extra := [] }, r.2)) :=
  readDirectoryHeader_insert_unknown _ _ _ _ _ _ _ _ (by decide) (by decide)
    (by decide) (by decide) (by decide) (by decide) (by decide)

/-! ## The AES triple -/

/-- The method and the AES key strength and version, as the chain carries them. -/
def ExtraState.aes (s : ExtraState) : Nat × Nat × Nat := (s.method, s.aesStrength, s.aesVersion)

/-- What one triple does to the method and the AES parameters: a WinZip AES triple of seven bytes
or more sets them from its payload, the method from offset 5, the key strength from 4 and the
version from 0, and every other triple leaves them. -/
def tripleAes (a : Nat × Nat × Nat) (t : Nat × List UInt8) : Nat × Nat × Nat :=
  if t.1 = winzipAesExtraID ∧ 7 ≤ t.2.length then (leAt t.2 5 2, leAt t.2 4 1, leAt t.2 0 2)
  else a

/-- A triple of another tag leaves the method and the AES parameters. -/
theorem tripleAes_of_ne {fieldTag : Nat} (a : Nat × Nat × Nat) (l : List UInt8)
    (h : fieldTag ≠ winzipAesExtraID) : tripleAes a (fieldTag, l) = a :=
  if_neg fun h' => h h'.1

/-- A step that succeeds sets the method and the AES parameters as `tripleAes` says. -/
theorem extraField_aes {s s' : ExtraState} {fieldTag : Nat} {l : List UInt8}
    (h : extraField s fieldTag ⟨l⟩ = .ok s') : s'.aes = tripleAes s.aes (fieldTag, l) := by
  rcases extraField_cases s fieldTag ⟨l⟩ with
    ⟨rfl, he⟩ | ⟨rfl, he⟩ | ⟨hu, he⟩ | ⟨rfl, he⟩ | ⟨rfl, he⟩ | ⟨-, -, -, -, -, ha, he⟩ <;>
    rw [he] at h
  · rw [zip64Extra_eq] at h
    by_cases hl : l.length < 8 * needCount s
    · rw [if_pos hl] at h
      cases h
    · rw [if_neg hl, Except.ok.injEq] at h
      subst h
      rw [tripleAes_of_ne _ _ (by decide)]
      rfl
  · rw [ntfsExtra_eq, Except.ok.injEq] at h
    subst h
    rw [tripleAes_of_ne _ _ (by decide)]
    split_ifs <;> rfl
  · rw [unixExtra_eq, Except.ok.injEq] at h
    subst h
    rw [tripleAes_of_ne _ _ (by rcases hu with rfl | rfl <;> decide)]
    split_ifs <;> rfl
  · rw [extTimeExtra_eq, Except.ok.injEq] at h
    subst h
    rw [tripleAes_of_ne _ _ (by decide)]
    split_ifs <;> rfl
  · rw [winzipAesExtra_eq, Except.ok.injEq] at h
    subst h
    simp only [tripleAes, true_and]
    split_ifs <;> first | rfl | omega
  · cases h
    rw [tripleAes_of_ne _ _ ha]

/-- A chain that succeeds leaves in the method and the AES parameters what `tripleAes` folds over
its triples. -/
theorem foldlM_aes : ∀ (ts : List (Nat × List UInt8)) {s s' : ExtraState},
    ts.foldlM (fun s t => extraField s t.1 ⟨t.2⟩) s = .ok s' →
    s'.aes = ts.foldl tripleAes s.aes
  | [], s, s', h => by
    cases h
    rfl
  | t :: ts, s, s', h => by
    rw [List.foldlM_cons, bind_eq_ok] at h
    obtain ⟨s₁, h₁, h⟩ := h
    rw [foldlM_aes ts h, List.foldl_cons, extraField_aes h₁]

/-- Triples that are not WinZip AES triples of seven bytes or more leave the method and the AES
parameters. -/
theorem foldl_tripleAes_of_short (a : Nat × Nat × Nat) (ts : List (Nat × List UInt8))
    (h : ∀ t ∈ ts, t.1 = winzipAesExtraID → t.2.length < 7) : ts.foldl tripleAes a = a := by
  induction ts generalizing a with
  | nil => rfl
  | cons t ts ih =>
    rw [List.foldl_cons, ih _ fun t' h' => h t' (List.mem_cons_of_mem _ h'), tripleAes,
      if_neg fun ⟨ht, hl⟩ => absurd (h t (List.mem_cons_self _ _) ht) (by omega)]

section Aes

variable (fromDosDateTime : Nat → Nat → Time)

/-- AES method recovery. When `readDirectoryHeader` decodes a record, whatever its own method
field: if the chain holds a WinZip AES triple of seven bytes or more, wherever it stands, then the
method, the key strength and the version are the 16-bit value at offset 5, the byte at offset 4
and the 16-bit value at offset 0 of the last such triple's payload; if it holds none, the method
is the record's own. -/
theorem readDirectoryHeader_aes {bs rest : List UInt8} {file : File}
    (h : readDirectoryHeader fromDosDateTime bs = .ok (file, rest)) :
    (∀ pre p post, splitTriples (recordExtra bs) = pre ++ (winzipAesExtraID, p) :: post →
      7 ≤ p.length → (∀ t ∈ post, t.1 = winzipAesExtraID → t.2.length < 7) →
      file.method = leAt p 5 2 ∧ file.aesStrength = leAt p 4 1 ∧
        file.aesVersion = leAt p 0 2) ∧
    ((∀ t ∈ splitTriples (recordExtra bs), t.1 = winzipAesExtraID → t.2.length < 7) →
      file.method = leAt bs 10 2) := by
  obtain ⟨s, hs, rfl⟩ := readDirectoryHeader_ok fromDosDateTime h
  have ha : s.aes = (splitTriples (recordExtra bs)).foldl tripleAes (headerState bs).aes :=
    foldlM_aes _ hs
  refine ⟨fun pre p post hsplit hp hpost => ?_, fun hnone => ?_⟩
  · rw [hsplit, List.foldl_append, List.foldl_cons, foldl_tripleAes_of_short _ _ hpost, tripleAes,
      if_pos ⟨rfl, hp⟩] at ha
    simp only [ExtraState.aes, Prod.mk.injEq] at ha
    exact ha
  · rw [foldl_tripleAes_of_short _ _ hnone] at ha
    simp only [ExtraState.aes, headerState, Prod.mk.injEq] at ha
    exact ha.1

/-- The extra field of `aesSample`: an extended timestamp, the AES triple, an unknown triple. -/
def aesSampleExtra : List UInt8 :=
  encodeTriple (extTimeExtraID, [0, 0, 0, 0, 0]) ++ encodeTriple (winzipAesExtraID, aesPayload) ++
    encodeTriple (0x6375, [1])

/-- A record whose method field is 99, with the extra field `aesSampleExtra`. -/
def aesSample : List UInt8 := layRecord aesFixed [] aesSampleExtra []

/-- `aesSample` reports method 99 in its fixed part, and decodes to method 8, key strength 3 and
AES version 2. -/
theorem readDirectoryHeader_aesSample :
    leAt aesSample 10 2 = 99 ∧
    (readDirectoryHeader (fun _ _ => Time.epoch) aesSample).map
      (fun r => (r.1.method, r.1.aesStrength, r.1.aesVersion)) = .ok (8, 3, 2) := by
  obtain ⟨file, h⟩ : ∃ file,
      readDirectoryHeader (fun _ _ => Time.epoch) aesSample = .ok (file, []) := ⟨_, rfl⟩
  have hsplit : splitTriples (recordExtra aesSample) =
      [(extTimeExtraID, [0, 0, 0, 0, 0])] ++ (winzipAesExtraID, aesPayload) :: [(0x6375, [1])] := by
    rw [show recordExtra aesSample = aesSampleExtra by decide, aesSampleExtra, List.append_assoc,
      splitTriples_encodeTriple_append _ _ (by decide) (by decide),
      splitTriples_encodeTriple_append _ _ (by decide) (by decide),
      ← List.append_nil (encodeTriple (0x6375, [1])),
      splitTriples_encodeTriple_append _ _ (by decide) (by decide), splitTriples_of_lt (by decide)]
    rfl
  obtain ⟨hm, hs, hv⟩ :=
    (readDirectoryHeader_aes _ h).1 _ _ _ hsplit (by decide) (by decide)
  refine ⟨by decide, ?_⟩
  rw [h]
  show Except.ok (_, _, _) = _
  rw [hm, hs, hv]
  rfl

end Aes

end Abslw.Zip
