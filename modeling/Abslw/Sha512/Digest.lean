import Abslw.Sha512.Hasher

/-!
# The hasher computes SHA-512 and SHA-384

FIPS 180-4 states SHA-512 on a whole message: pad it (§5.1.2), split the result into blocks of
128 bytes, run the compression over them from the initial hash (§6.4.2, `hashBlocks`), and take
the words of the final hash big-endian (`digest`); SHA-384 starts from other words and keeps 48
bytes.

The hasher meets it whatever the pieces the message is given in and wherever they lie in memory.
`Absorbed s H m` says that `s` holds what a hasher set to `H` holds once it has been given the
bytes `m`: the hash of the whole blocks of `m`, the length of `m` modulo `2 ^ 64`, and the bytes
past the last whole block at the start of the buffer. `initializeHasher` establishes it for the
empty message, and `update_absorbed` is the step: one call of `Update` with any bytes at any
address appends them. `finalize_absorbed` reads the digest off a hasher in that state, padded as
the code pads: with the length in bits modulo `2 ^ 64`, which is FIPS's padding exactly when the
message is shorter than `2 ^ 61` bytes (`padCode_eq_pad_iff`).
-/

namespace Abslw.Sha512

/-! ## SHA-512 and SHA-384 as FIPS 180-4 states them -/

/-- §5.1.2: the message, the byte `0x80`, the least number of zero bytes that makes the length
with sixteen more a multiple of 128, and the length of the message in bits as a 128-bit big-endian
number. -/
def pad (m : List UInt8) : List UInt8 :=
  m ++ (0x80 : UInt8) :: List.replicate ((239 - m.length % 128) % 128) 0 ++ toBE 16 (8 * m.length)

/-- §6.4.2: the hash after the 128-byte blocks of `m` in turn, from `H`; bytes past the last whole
block are not read. -/
def hashBlocks (H : Fin 8 → BitVec 64) (m : List UInt8) : Fin 8 → BitVec 64 :=
  if 128 ≤ m.length then hashBlocks (compress H (blockWord (m.take 128))) (m.drop 128) else H
termination_by m.length
decreasing_by simp only [List.length_drop]; omega

/-- §6.4.2 and §6.5: the first `n` bytes of the words of `H`, each big-endian. -/
def digest (H : Fin 8 → BitVec 64) (n : Nat) : List UInt8 :=
  ((List.ofFn H).flatMap fun w => toBE 8 w.toNat).take n

/-- SHA-512 of a message. -/
def sha512 (m : List UInt8) : List UInt8 := digest (hashBlocks sha512H0.get (pad m)) 64

/-- SHA-384 of a message. -/
def sha384 (m : List UInt8) : List UInt8 := digest (hashBlocks sha384H0.get (pad m)) 48

/-- The message as `Finalize` pads it: as `pad`, with the length in bits taken modulo `2 ^ 64` in
the last eight bytes and zeros in the eight before. -/
def padCode (m : List UInt8) : List UInt8 :=
  m ++ (0x80 : UInt8) :: List.replicate ((239 - m.length % 128) % 128) 0 ++
    List.replicate 8 0 ++ toBE 8 (8 * m.length % 2 ^ 64)

theorem hashBlocks_of_lt {H : Fin 8 → BitVec 64} {m : List UInt8} (h : m.length < 128) :
    hashBlocks H m = H := by
  rw [hashBlocks, if_neg (by omega)]

theorem hashBlocks_of_le {H : Fin 8 → BitVec 64} {m : List UInt8} (h : 128 ≤ m.length) :
    hashBlocks H m = hashBlocks (compress H (blockWord (m.take 128))) (m.drop 128) := by
  rw [hashBlocks, if_pos h]

/-- A whole block first: its compression, then the rest. -/
theorem hashBlocks_block (H : Fin 8 → BitVec 64) {b : List UInt8} (x : List UInt8)
    (hb : b.length = 128) : hashBlocks H (b ++ x) = hashBlocks (compress H (blockWord b)) x := by
  rw [hashBlocks, if_pos (by simp; omega), List.take_left' hb, List.drop_left' hb]

/-- The blocks of a concatenation: those of the first part, then the blocks that begin with its
bytes past its last whole block. -/
theorem hashBlocks_append (H : Fin 8 → BitVec 64) (m x : List UInt8) :
    hashBlocks H (m ++ x) = hashBlocks (hashBlocks H m) (m.drop (m.length / 128 * 128) ++ x) := by
  induction H, m using hashBlocks.induct with
  | case1 H m h ih =>
    rw [hashBlocks_of_le (by simp; omega : 128 ≤ (m ++ x).length), List.take_append_of_le_length h,
      List.drop_append_of_le_length h, ih, hashBlocks_of_le h, List.drop_drop, List.length_drop,
      show 128 + (m.length - 128) / 128 * 128 = m.length / 128 * 128 by omega]
  | case2 H m h =>
    rw [@hashBlocks_of_lt H m (by omega), Nat.div_eq_of_lt (by omega), Nat.zero_mul, List.drop_zero]

/-! ## The state after `Update` -/

/-- `s` holds what a hasher set to `H` holds once given the bytes `m`: the hash of the whole
blocks of `m`, the length of `m` modulo `2 ^ 64`, and the bytes past the last whole block at the
start of the buffer. -/
structure Absorbed (s : Hasher) (H : Fin 8 → BitVec 64) (m : List UInt8) : Prop where
  hash : s.hash.get = hashBlocks H m
  length : s.length = BitVec.ofNat 64 m.length
  pending : s.message.toList.take (m.length % 128) = m.drop (m.length / 128 * 128)

/-- The loop of `Update` hashes the whole blocks of its input and leaves the rest at the start of
the buffer, whichever blocks it copies. -/
theorem updateBlocks_spec (hash : Mathlib.Vector (BitVec 64) 8) (message : Mathlib.Vector UInt8 128)
    (msg : Nat) (input : List UInt8) :
    (updateBlocks hash message msg input).1.get = hashBlocks hash.get input ∧
      (updateBlocks hash message msg input).2.toList.take (input.length % 128) =
        input.drop (input.length / 128 * 128) := by
  induction hash, message, msg, input using updateBlocks.induct with
  | case1 hash message msg input h block message' ih =>
    have hb : (input.take sha512BlockSize).length = 128 := by simp [sha512BlockSize] at h ⊢; omega
    have hlen : (input.drop sha512BlockSize).length % 128 = input.length % 128 := by
      simp only [sha512BlockSize, List.length_drop] at h ⊢; omega
    unfold block message' at ih
    rw [updateBlocks, if_pos h, ← hlen]
    obtain ⟨ih₁, ih₂⟩ := ih
    refine ⟨ih₁.trans ?_, ih₂.trans ?_⟩
    · rw [sha512ProcessBlock_eq_compress, ← hashBlocks_block _ _ hb, List.take_append_drop]
    · simp only [sha512BlockSize, List.length_drop, List.drop_drop] at h ⊢
      rw [show 128 + (input.length - 128) / 128 * 128 = input.length / 128 * 128 by omega]
  | case2 hash message msg input h h0 =>
    simp only [sha512BlockSize, not_le] at h
    rw [updateBlocks, if_neg (by simp [sha512BlockSize]; omega), if_pos h0]
    refine ⟨(hashBlocks_of_lt h).symm, ?_⟩
    rw [memcpy_toList _ (by omega), List.take_zero, List.nil_append, Nat.mod_eq_of_lt h, Nat.div_eq_of_lt h, Nat.zero_mul, List.drop_zero, List.take_left' rfl]
  | case3 hash message msg input h h0 =>
    simp only [sha512BlockSize, not_le, ne_eq, not_not, List.length_eq_zero] at h h0
    subst h0
    rw [updateBlocks, if_neg (by simp [sha512BlockSize]), if_neg (by simp)]
    exact ⟨(hashBlocks_of_lt (by simp)).symm, rfl⟩

/-- `Update` keeps the invariant: a hasher that has absorbed `m`, given the bytes `x` at any
address, has absorbed `m ++ x`. -/
theorem update_absorbed {s : Hasher} {H : Fin 8 → BitVec 64} {m : List UInt8}
    (hs : Absorbed s H m) (msg : Nat) (x : List UInt8) : Absorbed (update s msg x) H (m ++ x) := by
  have hidx : s.length.toNat % 128 = m.length % 128 := by
    rw [hs.length, BitVec.toNat_ofNat, Nat.mod_mod_of_dvd _ (by norm_num)]
  have hlen : s.length + BitVec.ofNat 64 x.length = BitVec.ofNat 64 (m ++ x).length := by
    rw [hs.length, List.length_append, BitVec.ofNat_add]
  have hmsg := s.message.toList_length
  have happ := hashBlocks_append H m x
  rw [← hs.pending, ← hs.hash] at happ
  simp only [update, sha512BlockSize, hidx, List.length_append]
  by_cases h0 : m.length % 128 = 0
  · -- the buffer is empty: the loop takes all of `x`
    rw [if_neg (not_not.mpr h0)]
    obtain ⟨h1, h2⟩ := updateBlocks_spec s.hash s.message msg x
    rw [h0, List.take_zero, List.nil_append] at happ
    refine ⟨h1.trans happ.symm, hlen, ?_⟩
    dsimp only
    rw [List.length_append, show (m.length + x.length) % 128 = x.length % 128 by omega,
      show (m.length + x.length) / 128 * 128 = m.length + x.length / 128 * 128 by omega,
      List.drop_append]
    exact h2
  rw [if_pos h0]
  by_cases hx : x.length < 128 - m.length % 128
  · -- the bytes stay in the buffer
    rw [if_pos hx]
    have hbuf : (memcpy s.message (m.length % 128) (x.take (128 - m.length % 128))).toList =
        s.message.toList.take (m.length % 128) ++ x ++
          s.message.toList.drop (m.length % 128 + x.length) := by
      rw [List.take_of_length_le hx.le, memcpy_toList _ (by omega)]
    refine ⟨happ.trans (hashBlocks_of_lt (by simp only [List.length_append, List.length_take, hmsg]; omega)) |>.symm, hlen, ?_⟩
    dsimp only
    rw [hbuf, List.length_append, show (m.length + x.length) % 128 = m.length % 128 + x.length by omega,
      List.take_left' (by simp only [List.length_append, List.length_take, hmsg]; omega), hs.pending,
      show (m.length + x.length) / 128 * 128 = m.length / 128 * 128 by omega,
      List.drop_append_of_le_length (by omega)]
  · -- the buffer's block completes, and the loop takes the rest
    rw [if_neg hx]
    have hbuf : (memcpy s.message (m.length % 128) (x.take (128 - m.length % 128))).toList =
        s.message.toList.take (m.length % 128) ++ x.take (128 - m.length % 128) :=
      memcpy_toList_of_eq _ (by simp only [List.length_append, List.length_take, hmsg]; omega)
    have hb : (s.message.toList.take (m.length % 128) ++ x.take (128 - m.length % 128)).length =
        128 := by simp only [List.length_append, List.length_take, hmsg]; omega
    obtain ⟨h1, h2⟩ := updateBlocks_spec
      (sha512ProcessBlock s.hash (memcpy s.message (m.length % 128)
        (x.take (128 - m.length % 128))).toList)
      (memcpy s.message (m.length % 128) (x.take (128 - m.length % 128)))
      (msg + (128 - m.length % 128)) (x.drop (128 - m.length % 128))
    refine ⟨?_, hlen, ?_⟩
    · rw [h1, hbuf, sha512ProcessBlock_eq_compress, ← hashBlocks_block _ _ hb, List.append_assoc,
        List.take_append_drop, happ]
    · dsimp only
      rw [List.length_drop] at h2
      rw [List.length_append, show (m.length + x.length) % 128 =
          (x.length - (128 - m.length % 128)) % 128 by omega, h2, List.drop_drop, show (m.length + x.length) / 128 * 128 =
          m.length + ((128 - m.length % 128) + (x.length - (128 - m.length % 128)) / 128 * 128) by omega,
        List.drop_append]

/-- A run of `Update` calls, each with the address and the bytes it is given. -/
def updates (s : Hasher) (calls : List (Nat × List UInt8)) : Hasher :=
  calls.foldl (fun s c => update s c.1 c.2) s

/-- The hash words `Initialize` sets. -/
def initialHash (hb : HashBits) : Mathlib.Vector (BitVec 64) 8 :=
  if hb = .SHA512 then sha512H0 else sha384H0

theorem initializeHasher_absorbed (s : Hasher) (hb : HashBits) :
    Absorbed (initializeHasher s hb) (initialHash hb).get [] := by
  unfold initializeHasher initialHash
  split_ifs <;> exact ⟨(hashBlocks_of_lt (by simp)).symm, rfl, rfl⟩

/-- A run of `Update` calls appends the bytes of every call in turn. -/
theorem updates_absorbed {s : Hasher} {H : Fin 8 → BitVec 64} {m : List UInt8}
    (hs : Absorbed s H m) (calls : List (Nat × List UInt8)) :
    Absorbed (updates s calls) H (m ++ (calls.map Prod.snd).flatten) := by
  induction calls generalizing s m with
  | nil => simpa [updates] using hs
  | cons c calls ih =>
    simpa [updates, List.append_assoc] using ih (update_absorbed hs c.1 c.2)

theorem updates_digestLength (s : Hasher) (calls : List (Nat × List UInt8)) :
    (updates s calls).digestLength = s.digestLength := by
  induction calls generalizing s with
  | nil => rfl
  | cons c calls ih =>
    rw [updates, List.foldl_cons, ← updates, ih]
    simp only [update]
    split_ifs <;> rfl

/-! ## What `Finalize` computes -/

/-- The output of `Finalize`: the digest of its final hash when the buffer is long enough. -/
theorem finalize_out (s : Hasher) (out : Option (List UInt8)) :
    (finalize s out).2 = out.map fun o => if s.digestLength ≤ o.length then
      digest (finalize s out).1.hash.get s.digestLength ++ o.drop s.digestLength else o := by
  have hcopy : ∀ h : Mathlib.Vector (BitVec 64) 8, be64Copy h s.digestLength = digest h.get s.digestLength :=
    fun h => by rw [be64Copy, digest, ← Mathlib.Vector.toList_ofFn, Mathlib.Vector.ofFn_get]
  simp only [← hcopy]
  rfl

/-- `Finalize` on a hasher that has absorbed `m` from `H` hashes `m` padded as the code pads. -/
theorem finalize_absorbed {s : Hasher} {H : Fin 8 → BitVec 64} {m : List UInt8}
    (hs : Absorbed s H m) (out : Option (List UInt8)) :
    (finalize s out).1.hash.get = hashBlocks H (padCode m) := by
  have hidx : s.length.toNat % 128 = m.length % 128 := by
    rw [hs.length, BitVec.toNat_ofNat, Nat.mod_mod_of_dvd _ (by norm_num)]
  have hbits : (s.length <<< 3).toNat = 8 * m.length % 2 ^ 64 := by
    rw [hs.length, BitVec.toNat_shiftLeft, BitVec.toNat_ofNat, Nat.shiftLeft_eq]
    omega
  have hpad : hashBlocks H (padCode m) = hashBlocks s.hash.get (s.message.toList.take (m.length % 128) ++
      (0x80 : UInt8) :: List.replicate ((239 - m.length % 128) % 128) 0 ++
        List.replicate 8 0 ++ toBE 8 (8 * m.length % 2 ^ 64)) := by
    rw [padCode, List.append_assoc, List.append_assoc, List.append_assoc, hashBlocks_append,
      hs.pending, hs.hash]
    simp only [List.append_assoc, List.cons_append]
  have hmsg := s.message.toList_length
  rw [hpad, finalize_hash, hidx, hbits]
  split_ifs with h
  · have hblock : s.message.toList.take (m.length % 128) ++
        (0x80 : UInt8) :: List.replicate ((239 - m.length % 128) % 128) 0 ++ List.replicate 8 0 ++
          toBE 8 (8 * m.length % 2 ^ 64) =
        (s.message.toList.take (m.length % 128) ++ (0x80 : UInt8) ::
          List.replicate (119 - m.length % 128) 0 ++ toBE 8 (8 * m.length % 2 ^ 64)) ++ [] := by
      simp only [List.append_assoc, List.cons_append, ← List.replicate_add, List.append_nil]
      congr 4
      omega
    rw [hblock, hashBlocks_block _ _ (by simp only [List.length_append, List.length_take, List.length_cons, List.length_replicate, length_toBE, hmsg]; omega),
      @hashBlocks_of_lt _ [] (by decide), sha512ProcessBlock_eq_compress]
  · have hblock : s.message.toList.take (m.length % 128) ++
        (0x80 : UInt8) :: List.replicate ((239 - m.length % 128) % 128) 0 ++ List.replicate 8 0 ++
          toBE 8 (8 * m.length % 2 ^ 64) =
        (s.message.toList.take (m.length % 128) ++ (0x80 : UInt8) ::
          List.replicate (127 - m.length % 128) 0) ++
          ((List.replicate 120 0 ++ toBE 8 (8 * m.length % 2 ^ 64)) ++ []) := by
      simp only [List.append_assoc, List.cons_append, List.append_nil]
      rw [← List.append_assoc, ← List.append_assoc (List.replicate (127 - m.length % 128) 0),
        ← List.replicate_add, ← List.replicate_add]
      congr 4
      omega
    rw [hblock, hashBlocks_block _ _ (by simp only [List.length_append, List.length_take, List.length_cons, List.length_replicate, length_toBE, hmsg]; omega),
      hashBlocks_block _ _ (by simp only [List.length_append, List.length_replicate, length_toBE]),
      @hashBlocks_of_lt _ [] (by decide), sha512ProcessBlock_eq_compress, sha512ProcessBlock_eq_compress]

/-! ## The length field -/

theorem toLE_add (a b n : Nat) : toLE (a + b) n = toLE a n ++ toLE b (n / 256 ^ a) := by
  induction a generalizing n with
  | zero => simp [toLE]
  | succ a ih =>
    rw [Nat.succ_add, toLE, toLE, ih, List.cons_append, Nat.div_div_eq_div_mul, ← pow_succ']

theorem toLE_zero (w : Nat) : toLE w 0 = List.replicate w 0 := by
  induction w with
  | zero => rfl
  | succ w ih => rw [toLE, Nat.zero_div, ih]; rfl

/-- Sixteen big-endian bytes are the high eight, then the low eight. -/
theorem toBE_sixteen (n : Nat) : toBE 16 n = toBE 8 (n / 2 ^ 64) ++ toBE 8 n := by
  rw [toBE, show 16 = 8 + 8 from rfl, toLE_add, List.reverse_append]
  rfl

/-- Eight bytes read the number modulo `2 ^ 64`. -/
theorem toBE_eight_mod (n : Nat) : toBE 8 (n % 2 ^ 64) = toBE 8 n := by
  have h := toLE_ofLE (toLE 8 n)
  rw [length_toLE, ofLE_toLE] at h
  rw [toBE, toBE, show (2 : Nat) ^ 64 = 256 ^ 8 by norm_num, h]

/-- Below `2 ^ 61` bytes the code's padding is FIPS's. -/
theorem padCode_eq_pad {m : List UInt8} (h : m.length < 2 ^ 61) : padCode m = pad m := by
  have hz : toBE 8 0 = List.replicate 8 0 := by rw [toBE, toLE_zero, List.reverse_replicate]
  rw [padCode, pad, toBE_sixteen, Nat.div_eq_of_lt (by omega), toBE_eight_mod, hz,
    List.append_assoc _ (List.replicate 8 0)]

/-- From `2 ^ 61` bytes on, below FIPS's bound of `2 ^ 125` bytes, the length field differs. -/
theorem padCode_ne_pad {m : List UInt8} (h : 2 ^ 61 ≤ m.length) (h' : m.length < 2 ^ 125) :
    padCode m ≠ pad m := by
  intro he
  have hz : toBE 8 0 = List.replicate 8 0 := by rw [toBE, toLE_zero, List.reverse_replicate]
  rw [padCode, pad, toBE_sixteen, ← List.append_assoc] at he
  have hhigh := List.append_cancel_left (List.append_inj he (by simp)).1
  rw [← hz, toBE, toBE] at hhigh
  have hv := congrArg ofLE (List.reverse_injective hhigh)
  rw [ofLE_toLE, ofLE_toLE] at hv
  have hq : 1 ≤ 8 * m.length / 2 ^ 64 := (Nat.le_div_iff_mul_le (by norm_num)).mpr (by omega)
  have hq' : 8 * m.length / 2 ^ 64 < 256 ^ 8 := (Nat.div_lt_iff_lt_mul (by norm_num)).mpr (by omega)
  rw [Nat.zero_mod, Nat.mod_eq_of_lt hq'] at hv
  omega

/-! ## The hasher meets FIPS 180-4 -/

/-- After `Initialize` and any run of `Update` calls, with the message cut into any pieces at any
addresses, the hasher holds the hash of the whole blocks of the concatenated message, its length
modulo `2 ^ 64`, and its bytes past the last whole block at the start of the buffer. -/
theorem absorbed_of_run (s : Hasher) (hb : HashBits) (calls : List (Nat × List UInt8)) :
    Absorbed (updates (initializeHasher s hb) calls) (initialHash hb).get
      (calls.map Prod.snd).flatten := by
  simpa using updates_absorbed (initializeHasher_absorbed s hb) calls

/-- `Initialize`, any run of `Update` calls and `Finalize` write SHA-512, or SHA-384, of the
concatenated message as FIPS 180-4 defines it at the start of an output buffer that can hold it,
for every message shorter than `2 ^ 61` bytes, however it is cut and wherever its pieces lie. -/
theorem finalize_run_eq_sha (s : Hasher) (hb : HashBits) (calls : List (Nat × List UInt8))
    (out : List UInt8) (hlen : (calls.map Prod.snd).flatten.length < 2 ^ 61)
    (hout : (if hb = .SHA512 then 64 else 48) ≤ out.length) :
    (finalize (updates (initializeHasher s hb) calls) (some out)).2 =
      some (if hb = .SHA512 then sha512 (calls.map Prod.snd).flatten ++ out.drop 64
        else sha384 (calls.map Prod.snd).flatten ++ out.drop 48) := by
  have hA := updates_absorbed (initializeHasher_absorbed s hb) calls
  rw [List.nil_append] at hA
  rw [finalize_out, finalize_absorbed hA, padCode_eq_pad hlen, updates_digestLength]
  cases hb <;> simp_all [initializeHasher, initialHash, sha512, sha384, sha512HashSize,
    sha384HashSize]

/-- The run of `finalize_run_eq_sha` on the message `abc` in one piece. -/
theorem finalize_run_eq_sha_abc :
    ([((0 : Nat), [97, 98, (99 : UInt8)])].map Prod.snd).flatten.length < 2 ^ 61 ∧
      (if HashBits.SHA512 = .SHA512 then 64 else 48) ≤ (List.replicate 64 (0 : UInt8)).length ∧
      (finalize (updates (initializeHasher ⟨Mathlib.Vector.replicate 128 0,
        Mathlib.Vector.replicate 8 0, 0, 0, .SHA384⟩ .SHA512) [(0, [97, 98, 99])])
          (some (List.replicate 64 0))).2 =
        some (if HashBits.SHA512 = .SHA512 then
          sha512 ([((0 : Nat), [97, 98, (99 : UInt8)])].map Prod.snd).flatten ++
            (List.replicate 64 (0 : UInt8)).drop 64
          else sha384 ([((0 : Nat), [97, 98, (99 : UInt8)])].map Prod.snd).flatten ++
            (List.replicate 64 (0 : UInt8)).drop 48) :=
  ⟨by decide, by decide, finalize_run_eq_sha _ _ _ _ (by decide) (by decide)⟩

/-- For every run, `Finalize` hashes the message padded with its length in bits modulo `2 ^ 64`;
below FIPS 180-4's bound of `2 ^ 125` bytes, that is FIPS's padding exactly when the message is
shorter than `2 ^ 61` bytes. -/
theorem finalize_run_padCode (s : Hasher) (hb : HashBits) (calls : List (Nat × List UInt8))
    (out : Option (List UInt8)) (hlen : (calls.map Prod.snd).flatten.length < 2 ^ 125) :
    (finalize (updates (initializeHasher s hb) calls) out).1.hash.get =
        hashBlocks (initialHash hb).get (padCode (calls.map Prod.snd).flatten) ∧
      (padCode (calls.map Prod.snd).flatten = pad (calls.map Prod.snd).flatten ↔
        (calls.map Prod.snd).flatten.length < 2 ^ 61) := by
  have hA := updates_absorbed (initializeHasher_absorbed s hb) calls
  rw [List.nil_append] at hA
  refine ⟨finalize_absorbed hA out, fun he => ?_, padCode_eq_pad⟩
  by_contra h
  exact padCode_ne_pad (by omega) hlen he

/-- The run of `finalize_run_padCode` on the message `abc` in one piece. -/
theorem finalize_run_padCode_abc :
    ([((0 : Nat), [97, 98, (99 : UInt8)])].map Prod.snd).flatten.length < 2 ^ 125 ∧
      ((finalize (updates (initializeHasher ⟨Mathlib.Vector.replicate 128 0,
        Mathlib.Vector.replicate 8 0, 0, 0, .SHA384⟩ .SHA512) [(0, [97, 98, 99])]) none).1.hash.get =
        hashBlocks (initialHash .SHA512).get
          (padCode ([((0 : Nat), [97, 98, (99 : UInt8)])].map Prod.snd).flatten) ∧
      (padCode ([((0 : Nat), [97, 98, (99 : UInt8)])].map Prod.snd).flatten =
          pad ([((0 : Nat), [97, 98, (99 : UInt8)])].map Prod.snd).flatten ↔
        ([((0 : Nat), [97, 98, (99 : UInt8)])].map Prod.snd).flatten.length < 2 ^ 61)) :=
  ⟨by decide, finalize_run_padCode _ _ _ _ (by decide)⟩

end Abslw.Sha512
