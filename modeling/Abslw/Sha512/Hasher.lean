import Abslw.Sha512.Block
import Mathlib.Tactic.IntervalCases

/-!
# The SHA-384/512 hasher

`bela::hash::sha512::Hasher` of `unnamed/part_006` hashes a message given in pieces. `Initialize`
sets the initial hash of SHA-512 or SHA-384 and a zero length, `Update` appends bytes, processing
every block of 128 that completes, and `Finalize` pads the message and writes the digest. The
state is the eight hash words, the 64-bit byte count `length`, and the buffer `message`, which
holds the bytes of an incomplete block at its start.

The code reads and writes the buffer by words through `bela::fromle` and `bela::frombe`; here the
buffer is its 128 bytes, and a word read or written with `fromle` is eight bytes little-endian
(`wordLE`, `setWordLE`), which is what the code does on any host. `Update` processes a whole block
in place when its address is a multiple of eight and copies it into `message` first otherwise, so
the model takes the address of the input as an argument.
-/

namespace Abslw.Sha512

/-- `HashBits`: which digest the hasher computes. `Initialize` tests for `SHA512` only. -/
inductive HashBits
  | SHA384
  | SHA512
  deriving DecidableEq, Repr

/-- `sha512_block_size`. -/
def sha512BlockSize : Nat := 128

/-- `sha512_hash_size`. -/
def sha512HashSize : Nat := 64

/-- `sha384_hash_size`. -/
def sha384HashSize : Nat := 48

/-- `SHA512_H0`. -/
def sha512H0 : Mathlib.Vector (BitVec 64) 8 :=
  ⟨[0x6a09e667f3bcc908#64, 0xbb67ae8584caa73b#64, 0x3c6ef372fe94f82b#64, 0xa54ff53a5f1d36f1#64,
    0x510e527fade682d1#64, 0x9b05688c2b3e6c1f#64, 0x1f83d9abfb41bd6b#64, 0x5be0cd19137e2179#64],
    rfl⟩

/-- `SHA384_H0`. -/
def sha384H0 : Mathlib.Vector (BitVec 64) 8 :=
  ⟨[0xcbbb9d5dc1059ed8#64, 0x629a292a367cd507#64, 0x9159015a3070dd17#64, 0x152fecd8f70e5939#64,
    0x67332667ffc00b31#64, 0x8eb44a8768581511#64, 0xdb0c2e0d64f98fa7#64, 0x47b5481dbefa4fa4#64],
    rfl⟩

/-- The state of a `Hasher`: `message` is the buffer `uint64_t message[16]` as its bytes. -/
structure Hasher where
  message : Mathlib.Vector UInt8 128
  hash : Mathlib.Vector (BitVec 64) 8
  length : BitVec 64
  digestLength : Nat
  hb : HashBits

/-! ## The buffer -/

/-- `memcpy(dst + off, src, src.size())` into a buffer of `n` bytes. The code never writes past
the end; bytes that would land there are dropped. -/
def memcpy {n : Nat} (dst : Mathlib.Vector UInt8 n) (off : Nat) (src : List UInt8) :
    Mathlib.Vector UInt8 n :=
  ⟨(dst.toList.take off ++ src ++ dst.toList.drop (off + src.length)).take n, by
    simp only [List.length_take, List.length_append, List.length_drop, Mathlib.Vector.toList_length]
    omega⟩

/-- `message[i]` after `bela::fromle`: the word's bytes little-endian. -/
def wordLE (message : Mathlib.Vector UInt8 128) (i : Nat) : BitVec 64 :=
  BitVec.ofNat 64 (leAt message.toList (8 * i) 8)

/-- `message[i] = bela::fromle(w)`, and `message[i] = 0`. -/
def setWordLE (message : Mathlib.Vector UInt8 128) (i : Nat) (w : BitVec 64) :
    Mathlib.Vector UInt8 128 :=
  memcpy message (8 * i) (toLE 8 w.toNat)

/-- `message[i] = bela::frombe(w)`. -/
def setWordBE (message : Mathlib.Vector UInt8 128) (i : Nat) (w : BitVec 64) :
    Mathlib.Vector UInt8 128 :=
  memcpy message (8 * i) (toBE 8 w.toNat)

/-- `while (index < 15) message[index++] = 0;` -/
def zeroWords (message : Mathlib.Vector UInt8 128) (index : Nat) : Mathlib.Vector UInt8 128 :=
  if index < 15 then zeroWords (setWordLE message index 0) (index + 1) else message
termination_by 15 - index

/-- `be64_copy(out, 0, hash, n)` of `hashinternal.hpp`, which is not among the sources. Modelled
from the spec: the first `n` bytes of the words of `hash`, each big-endian, as FIPS 180-4 §6.4.2
lays out the digest. -/
def be64Copy (hash : Mathlib.Vector (BitVec 64) 8) (n : Nat) : List UInt8 :=
  (hash.toList.flatMap fun w => toBE 8 w.toNat).take n

/-! ## The hasher -/

/-- `Hasher::Initialize(hb)`. The buffer is left as it was. -/
def initializeHasher (s : Hasher) (hb : HashBits) : Hasher :=
  if hb = .SHA512 then { s with hb, length := 0, digestLength := sha512HashSize, hash := sha512H0 }
  else { s with hb, length := 0, digestLength := sha384HashSize, hash := sha384H0 }

/-- The `while` loop of `Hasher::Update` and the saving of the leftovers, for the bytes `input`
at address `msg`. A block at an address that `IS_ALIGNED_64` accepts is processed in place;
another is copied into `message` first. `IS_ALIGNED_64` is a macro of `hashinternal.hpp`, which is
not among the sources; modelled from its name, it accepts the addresses that are multiples of
eight bytes, the alignment of a 64-bit word. Either way the block processed holds the same
bytes. -/
def updateBlocks (hash : Mathlib.Vector (BitVec 64) 8) (message : Mathlib.Vector UInt8 128)
    (msg : Nat) (input : List UInt8) : Mathlib.Vector (BitVec 64) 8 × Mathlib.Vector UInt8 128 :=
  if sha512BlockSize ≤ input.length then
    let block := input.take sha512BlockSize
    let message := if msg % 8 = 0 then message else memcpy message 0 block
    updateBlocks (sha512ProcessBlock hash block) message (msg + sha512BlockSize)
      (input.drop sha512BlockSize)
  else if input.length ≠ 0 then (hash, memcpy message 0 input)
  else (hash, message)
termination_by input.length
decreasing_by simp only [List.length_drop, sha512BlockSize] at *; omega

/-- `Hasher::Update(input, input_len)` for the bytes `input` at address `msg`. -/
def update (s : Hasher) (msg : Nat) (input : List UInt8) : Hasher :=
  let index := s.length.toNat % 128
  let length := s.length + BitVec.ofNat 64 input.length
  if index ≠ 0 then
    let left := sha512BlockSize - index
    let message := memcpy s.message index (input.take left)
    if input.length < left then { s with length, message }
    else
      let r := updateBlocks (sha512ProcessBlock s.hash message.toList) message (msg + left)
        (input.drop left)
      { s with length, hash := r.1, message := r.2 }
  else
    let r := updateBlocks s.hash s.message msg input
    { s with length, hash := r.1, message := r.2 }

/-- `Hasher::Finalize(out, out_len)`, with `out` the output buffer of `out_len` bytes or `none`
for a null pointer; it returns the hasher and the output buffer. -/
def finalize (s : Hasher) (out : Option (List UInt8)) : Hasher × Option (List UInt8) :=
  let index := s.length.toNat % 2 ^ 32 % 128 / 8
  let shift := s.length.toNat % 2 ^ 32 % 8 * 8
  let message := setWordLE s.message index
    (wordLE s.message index &&& ~~~(BitVec.allOnes 64 <<< shift))
  let message := setWordLE message index (wordLE message index ^^^ 0x80#64 <<< shift)
  let index := index + 1
  let (hash, message, index) :=
    if 15 ≤ index then
      let message := if index = 15 then setWordLE message index 0 else message
      (sha512ProcessBlock s.hash message.toList, message, 0)
    else (s.hash, message, index)
  let message := zeroWords message index
  let message := setWordBE message 15 (s.length <<< 3)
  let hash := sha512ProcessBlock hash message.toList
  let out := out.map fun o =>
    if s.digestLength ≤ o.length then be64Copy hash s.digestLength ++ o.drop s.digestLength else o
  ({ s with hash, message }, out)

/-! ## What the buffer operations write -/

theorem memcpy_toList {n : Nat} (dst : Mathlib.Vector UInt8 n) {off : Nat} {src : List UInt8}
    (h : off + src.length ≤ n) :
    (memcpy dst off src).toList = dst.toList.take off ++ src ++ dst.toList.drop (off + src.length) := by
  simp only [memcpy, Mathlib.Vector.toList_mk]
  exact List.take_of_length_le (by simp; omega)

/-- A copy that reaches the end of the buffer. -/
theorem memcpy_toList_of_eq {n : Nat} (dst : Mathlib.Vector UInt8 n) {off : Nat} {src : List UInt8}
    (h : off + src.length = n) : (memcpy dst off src).toList = dst.toList.take off ++ src := by
  rw [memcpy_toList _ h.le, List.drop_of_length_le (by simp; omega), List.append_nil]

/-- Copying nothing changes nothing. -/
theorem memcpy_nil {n : Nat} (dst : Mathlib.Vector UInt8 n) {off : Nat} (h : off ≤ n) :
    memcpy dst off [] = dst := by
  apply Mathlib.Vector.toList_injective
  rw [memcpy_toList _ (by simpa using h), List.append_nil, List.length_nil, Nat.add_zero,
    List.take_append_drop]

/-- Two copies to adjacent places are one copy of both. -/
theorem memcpy_memcpy {n : Nat} (dst : Mathlib.Vector UInt8 n) {off off' : Nat} {a b : List UInt8}
    (hoff : off + a.length = off') (h : off' + b.length ≤ n) :
    memcpy (memcpy dst off a) off' b = memcpy dst off (a ++ b) := by
  subst hoff
  apply Mathlib.Vector.toList_injective
  have ht : (dst.toList.take off ++ a).length = off + a.length := by simp; omega
  rw [memcpy_toList _ h, memcpy_toList dst (by omega), memcpy_toList dst (by simp; omega),
    List.take_left' ht, ← ht, List.drop_append, ht, List.drop_drop, List.length_append]
  simp only [List.append_assoc, Nat.add_assoc]

/-- The loop of `Finalize` writes zeros from word `i` up to word fifteen. -/
theorem zeroWords_eq (m : Mathlib.Vector UInt8 128) {i : Nat} (h : i ≤ 15) :
    zeroWords m i = memcpy m (8 * i) (List.replicate (120 - 8 * i) 0) := by
  induction m, i using zeroWords.induct with
  | case1 m i hi ih =>
    have hz : toLE 8 (0 : BitVec 64).toNat = List.replicate 8 0 := rfl
    rw [zeroWords, if_pos hi, ih (by omega), setWordLE, hz,
      @memcpy_memcpy 128 m (8 * i) (8 * (i + 1)) (List.replicate 8 0) _ (by simp; omega)
        (by simp; omega), ← List.replicate_add]
    congr 2
    omega
  | case2 m i hi =>
    rw [zeroWords, if_neg hi, show i = 15 by omega]
    exact (memcpy_nil m (by omega)).symm

/-- Copying bytes that are already there, then more, is copying the more. -/
theorem memcpy_prefix {n : Nat} (dst : Mathlib.Vector UInt8 n) {off k : Nat} {x : List UInt8}
    (h : off + k + x.length ≤ n) :
    memcpy dst off ((dst.toList.drop off).take k ++ x) = memcpy dst (off + k) x := by
  apply Mathlib.Vector.toList_injective
  rw [memcpy_toList _ (by simp; omega), memcpy_toList _ h, ← List.append_assoc, ← List.take_add]
  simp only [List.length_append, List.length_take, List.length_drop, Mathlib.Vector.toList_length]
  congr 2
  omega

/-- A second copy over the same bytes replaces the first. -/
theorem memcpy_memcpy_of_length_eq {n : Nat} (dst : Mathlib.Vector UInt8 n) {off : Nat}
    {a b : List UInt8} (hab : a.length = b.length) (h : off + a.length ≤ n) :
    memcpy (memcpy dst off a) off b = memcpy dst off b := by
  apply Mathlib.Vector.toList_injective
  have ht : (dst.toList.take off).length = off := by simp; omega
  have hta : (dst.toList.take off ++ a).length = off + b.length := by simp; omega
  rw [memcpy_toList _ (by omega), memcpy_toList _ h, memcpy_toList _ (by omega), hab]
  rw [hab] at h
  rw [List.drop_left' hta, List.append_assoc _ a, List.take_left' ht]

theorem setWordLE_toList (m : Mathlib.Vector UInt8 128) {i : Nat} (w : BitVec 64) (h : i < 16) :
    (setWordLE m i w).toList = m.toList.take (8 * i) ++ toLE 8 w.toNat ++ m.toList.drop (8 * i + 8) := by
  rw [setWordLE, memcpy_toList _ (by simp; omega), length_toLE]

/-- A word written little-endian reads back. -/
theorem wordLE_setWordLE (m : Mathlib.Vector UInt8 128) {i : Nat} (w : BitVec 64) (h : i < 16) :
    wordLE (setWordLE m i w) i = w := by
  have hl : (m.toList.take (8 * i)).length = 8 * i := by simp; omega
  rw [wordLE, setWordLE_toList m w h, List.append_assoc, leAt_append_of_le _ hl.le, hl, Nat.sub_self,
    leAt_toLE_append]
  exact BitVec.eq_of_toNat_eq (by simp [Nat.mod_eq_of_lt w.isLt])

/-- A second write of a word replaces the first. -/
theorem setWordLE_setWordLE (m : Mathlib.Vector UInt8 128) {i : Nat} (w w' : BitVec 64) (h : i < 16) :
    setWordLE (setWordLE m i w) i w' = setWordLE m i w' := by
  rw [setWordLE, setWordLE, setWordLE, memcpy_memcpy_of_length_eq _ (by simp) (by simp; omega)]

/-! ## The end of the message -/

/-- Bits below `2 ^ k` and a multiple of `2 ^ k` do not overlap: their exclusive or is their
sum. -/
theorem xor_two_pow_mul {y k : Nat} (hy : y < 2 ^ k) (c : Nat) : y ^^^ 2 ^ k * c = 2 ^ k * c + y := by
  apply Nat.eq_of_testBit_eq
  intro i
  rw [Nat.testBit_xor, Nat.testBit_mul_pow_two_add _ hy, Nat.testBit_mul_pow_two]
  by_cases hi : i < k
  · simp [hi, show ¬k ≤ i by omega]
  · have hy' : y < 2 ^ i := lt_of_lt_of_le hy (Nat.pow_le_pow_right (by decide) (by omega))
    simp [hi, Nat.testBit_lt_two_pow hy', show k ≤ i by omega]

theorem ofLE_replicate_zero (k : Nat) : ofLE (List.replicate k 0) = 0 := by
  induction k with
  | zero => rfl
  | succ k ih => rw [List.replicate_succ, ofLE_cons, ih]; rfl

/-- The first `j` bytes of a run are its value modulo `256 ^ j`. -/
theorem ofLE_take (b : List UInt8) {j : Nat} (hj : j ≤ b.length) :
    ofLE (b.take j) = ofLE b % 256 ^ j := by
  have h := ofLE_append (b.take j) (b.drop j)
  have hlt := ofLE_lt (b.take j)
  rw [List.take_append_drop, List.length_take, min_eq_left hj] at h
  rw [List.length_take, min_eq_left hj] at hlt
  rw [h, Nat.add_mul_mod_self_left, Nat.mod_eq_of_lt hlt]

/-- `message[index] &= fromle(~(0xFFFFFFFFFFFFFFFF << shift))` and then
`message[index] ^= fromle(0x80 << shift)`, on a word of bytes `b` with `shift = 8 j`: the word
keeps its first `j` bytes, then holds `0x80`, then zeros. -/
theorem toLE_padWord (b : List UInt8) (hb : b.length = 8) {j : Nat} (hj : j < 8) :
    toLE 8 (((BitVec.ofNat 64 (ofLE b) &&& ~~~(BitVec.allOnes 64 <<< (j * 8))) ^^^
      0x80#64 <<< (j * 8)).toNat) = b.take j ++ 0x80 :: List.replicate (7 - j) 0 := by
  have hmask : (~~~(BitVec.allOnes 64 <<< (j * 8))).toNat = 2 ^ (8 * j) - 1 := by
    interval_cases j <;> rfl
  have hbit : (0x80#64 <<< (j * 8)).toNat = 2 ^ (8 * j) * 128 := by interval_cases j <;> rfl
  have hlt : ofLE b < 2 ^ 64 := by simpa [hb] using ofLE_lt b
  have h256 : (256 : Nat) ^ j = 2 ^ (8 * j) := by rw [pow_mul]; rfl
  have hlen : (b.take j ++ 0x80 :: List.replicate (7 - j) 0).length = 8 := by simp; omega
  have hval : ((BitVec.ofNat 64 (ofLE b) &&& ~~~(BitVec.allOnes 64 <<< (j * 8))) ^^^
      0x80#64 <<< (j * 8)).toNat = ofLE (b.take j ++ 0x80 :: List.replicate (7 - j) 0) := by
    rw [BitVec.toNat_xor, BitVec.toNat_and, BitVec.toNat_ofNat, Nat.mod_eq_of_lt hlt, hmask, hbit,
      Nat.and_pow_two_sub_one_eq_mod, xor_two_pow_mul (Nat.mod_lt _ (by positivity)), ofLE_append, ofLE_cons, ofLE_replicate_zero,
      ofLE_take b (by omega), List.length_take, min_eq_left (by omega), h256,
      show (0x80 : UInt8).toNat = 128 from rfl]
    ring
  rw [hval, ← hlen, toLE_ofLE]

/-- The first two statements of `Finalize`, for `r` bytes in the buffer: the byte `0x80` and
zeros to the end of the word, written after the `r` bytes. -/
theorem setWordLE_padWord (m : Mathlib.Vector UInt8 128) {r : Nat} (hr : r < 128) :
    setWordLE (setWordLE m (r / 8) (wordLE m (r / 8) &&& ~~~(BitVec.allOnes 64 <<< (r % 8 * 8))))
        (r / 8) (wordLE (setWordLE m (r / 8)
          (wordLE m (r / 8) &&& ~~~(BitVec.allOnes 64 <<< (r % 8 * 8)))) (r / 8) ^^^
          0x80#64 <<< (r % 8 * 8)) =
      memcpy m r (0x80 :: List.replicate (7 - r % 8) 0) := by
  have hb : ((m.toList.drop (8 * (r / 8))).take 8).length = 8 := by simp; omega
  rw [wordLE_setWordLE _ _ (by omega), setWordLE_setWordLE _ _ _ (by omega), setWordLE, wordLE, leAt,
    toLE_padWord _ hb (by omega), List.take_take, min_eq_left (by omega : r % 8 ≤ 8),
    memcpy_prefix _ (by simp; omega)]
  congr 1
  omega

/-! ## What `Finalize` processes -/

/-- `Finalize` with `r` bytes in the buffer, `r < 112`: the buffer becomes the last block, the
bytes, `0x80`, zeros, and the length in bits big-endian in the last word. -/
theorem finalBlock_of_lt (m : Mathlib.Vector UInt8 128) {r : Nat} (h : r < 112) (L : BitVec 64) :
    setWordBE (zeroWords (memcpy m r (0x80 :: List.replicate (7 - r % 8) 0)) (r / 8 + 1)) 15 L =
      memcpy m r ((0x80 : UInt8) :: List.replicate (119 - r) 0 ++ toBE 8 L.toNat) := by
  rw [zeroWords_eq _ (by omega), memcpy_memcpy, setWordBE, memcpy_memcpy, List.cons_append,
    ← List.replicate_add, show 7 - r % 8 + (120 - 8 * (r / 8 + 1)) = 119 - r by omega]
  all_goals simp only [List.length_append, List.length_cons, List.length_replicate, length_toBE]
  all_goals omega

/-- `Finalize` with `r ≥ 112` bytes in the buffer: the first of its two blocks, the bytes,
`0x80` and zeros. -/
theorem firstBlock_of_le (m : Mathlib.Vector UInt8 128) {r : Nat} (h : 112 ≤ r) (hr : r < 128) :
    (if r / 8 + 1 = 15 then setWordLE (memcpy m r (0x80 :: List.replicate (7 - r % 8) 0)) (r / 8 + 1) 0
      else memcpy m r (0x80 :: List.replicate (7 - r % 8) 0)) =
      memcpy m r ((0x80 : UInt8) :: List.replicate (127 - r) 0) := by
  split_ifs with h15
  · have hz : toLE 8 (0 : BitVec 64).toNat = List.replicate 8 0 := rfl
    rw [setWordLE, hz, memcpy_memcpy, List.cons_append, ← List.replicate_add,
      show 7 - r % 8 + 8 = 127 - r by omega]
    all_goals simp only [List.length_cons, List.length_replicate]
    all_goals omega
  · rw [show 7 - r % 8 = 127 - r by omega]

/-- `Finalize` with `r ≥ 112` bytes in the buffer: the second of its two blocks, zeros and the
length in bits. -/
theorem secondBlock_toList (m : Mathlib.Vector UInt8 128) (L : BitVec 64) :
    (setWordBE (zeroWords m 0) 15 L).toList = List.replicate 120 0 ++ toBE 8 L.toNat := by
  rw [zeroWords_eq _ (by omega), setWordBE, memcpy_memcpy, memcpy_toList_of_eq]
  all_goals simp

/-- What `Finalize` processes, for `r = length % 128` bytes in the buffer: one block of the bytes,
`0x80`, zeros and the length in bits when `r < 112`, and otherwise a block of the bytes, `0x80`
and zeros, then one of zeros and the length in bits. -/
theorem finalize_hash (s : Hasher) (out : Option (List UInt8)) :
    (finalize s out).1.hash =
      if s.length.toNat % 128 < 112 then
        sha512ProcessBlock s.hash (s.message.toList.take (s.length.toNat % 128) ++
          (0x80 : UInt8) :: List.replicate (119 - s.length.toNat % 128) 0 ++
          toBE 8 (s.length <<< 3).toNat)
      else
        sha512ProcessBlock (sha512ProcessBlock s.hash (s.message.toList.take (s.length.toNat % 128) ++
          (0x80 : UInt8) :: List.replicate (127 - s.length.toNat % 128) 0))
          (List.replicate 120 (0 : UInt8) ++ toBE 8 (s.length <<< 3).toNat) := by
  have hidx : s.length.toNat % 2 ^ 32 % 128 = s.length.toNat % 128 :=
    Nat.mod_mod_of_dvd _ (by norm_num)
  have hsh : s.length.toNat % 2 ^ 32 % 8 = s.length.toNat % 128 % 8 := by
    rw [Nat.mod_mod_of_dvd _ (by norm_num), Nat.mod_mod_of_dvd _ (by norm_num)]
  have hr := Nat.mod_lt s.length.toNat (show 128 > 0 by norm_num)
  generalize s.length.toNat % 128 = r at hidx hsh hr ⊢
  simp only [finalize, hidx, hsh]
  rw [setWordLE_padWord _ hr]
  by_cases h112 : r < 112
  · rw [if_neg (by omega), if_pos h112, finalBlock_of_lt _ h112,
      memcpy_toList_of_eq _ (by simp; omega), List.append_assoc]
  · rw [if_pos (by omega), if_neg h112, firstBlock_of_le _ (by omega) hr, secondBlock_toList,
      memcpy_toList_of_eq _ (by simp; omega)]

end Abslw.Sha512
