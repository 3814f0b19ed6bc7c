import Mathlib.Data.BitVec
import Mathlib.Data.Vector.Basic
import Mathlib.Data.ZMod.Defs
import Mathlib.Tactic.Abel
import Mathlib.Tactic.IntervalCases
import Abslw.Endian

/-!
# The SHA-512 block transformation

`sha512_process_block` of `unnamed/part_006` (the SHA-384/512 code of `bela::hash::sha512`, a port
of rhash) computes one block of SHA-512 the way FIPS 180-3 §6.3.3 calls the alternate method: the
eight variables `A, …, H` stay in place and each call of the `ROUND` macro passes them rotated, the
message schedule lives in a circular buffer `W[16]`, and `Ch` and `Maj` are written in an
optimised form.

`sha512ProcessBlock` is that function, with the variables as a vector `v` of eight words and call
`n` of each run of sixteen passing them rotated right by `n`. `compress` is the block computation as
FIPS 180-4 §6.4.2 states it: the schedule `W_t` for `t < 80` (`schedule`), the working variables
`a, …, h` shifted at each step (`step`), and the textbook `Ch` and `Maj`.
`sha512ProcessBlock_eq_compress` shows that the two agree on every state and every block. Its
invariant (`RoundInv`) says that after `t` rounds the variables read rotated by `t` are FIPS's
working variables and that `W` holds the last sixteen words of the schedule.
-/

namespace Abslw.Sha512

/-! ## Big-endian words -/

/-- The natural number whose big-endian bytes are the list. -/
def ofBE (bs : List UInt8) : Nat := ofLE bs.reverse

/-- The `w` big-endian bytes of `n`; bits at and above `8 * w` are dropped. -/
def toBE (w n : Nat) : List UInt8 := (toLE w n).reverse

@[simp] theorem length_toBE (w n : Nat) : (toBE w n).length = w := by
  simp [toBE]

/-- `bela::frombe(block[n])`: word `n` of a block, read big-endian. -/
def blockWord (block : List UInt8) (n : Nat) : BitVec 64 :=
  BitVec.ofNat 64 (ofBE ((block.drop (8 * n)).take 8))

/-! ## The functions and constants of FIPS 180-3 §4.1.3 and §4.2.3, as the code writes them -/

/-- `ROTR64` of `hashinternal.hpp`, which is not among the sources. Modelled from the spec: the
rotation right of FIPS 180-4 §3.2, `(x >> n) | (x << (64 - n))`. -/
def rotr64 (x : BitVec 64) (n : Nat) : BitVec 64 := x >>> n ||| x <<< (64 - n)

/-- `Ch`, in the code's optimised form. -/
def Ch (x y z : BitVec 64) : BitVec 64 := z ^^^ (x &&& (y ^^^ z))

/-- `Maj`, in the code's optimised form. -/
def Maj (x y z : BitVec 64) : BitVec 64 := (x &&& y) ^^^ (z &&& (x ^^^ y))

/-- `Sigma0`. -/
def Sigma0 (x : BitVec 64) : BitVec 64 := rotr64 x 28 ^^^ rotr64 x 34 ^^^ rotr64 x 39

/-- `Sigma1`. -/
def Sigma1 (x : BitVec 64) : BitVec 64 := rotr64 x 14 ^^^ rotr64 x 18 ^^^ rotr64 x 41

/-- `sigma0`. -/
def sigma0 (x : BitVec 64) : BitVec 64 := rotr64 x 1 ^^^ rotr64 x 8 ^^^ x >>> 7

/-- `sigma1`. -/
def sigma1 (x : BitVec 64) : BitVec 64 := rotr64 x 19 ^^^ rotr64 x 61 ^^^ x >>> 6

/-- `k512`, the eighty round constants. -/
def k512 : List (BitVec 64) := [
  0x428a2f98d728ae22#64, 0x7137449123ef65cd#64, 0xb5c0fbcfec4d3b2f#64,
  0xe9b5dba58189dbbc#64, 0x3956c25bf348b538#64, 0x59f111f1b605d019#64,
  0x923f82a4af194f9b#64, 0xab1c5ed5da6d8118#64, 0xd807aa98a3030242#64,
  0x12835b0145706fbe#64, 0x243185be4ee4b28c#64, 0x550c7dc3d5ffb4e2#64,
  0x72be5d74f27b896f#64, 0x80deb1fe3b1696b1#64, 0x9bdc06a725c71235#64,
  0xc19bf174cf692694#64, 0xe49b69c19ef14ad2#64, 0xefbe4786384f25e3#64,
  0x0fc19dc68b8cd5b5#64, 0x240ca1cc77ac9c65#64, 0x2de92c6f592b0275#64,
  0x4a7484aa6ea6e483#64, 0x5cb0a9dcbd41fbd4#64, 0x76f988da831153b5#64,
  0x983e5152ee66dfab#64, 0xa831c66d2db43210#64, 0xb00327c898fb213f#64,
  0xbf597fc7beef0ee4#64, 0xc6e00bf33da88fc2#64, 0xd5a79147930aa725#64,
  0x06ca6351e003826f#64, 0x142929670a0e6e70#64, 0x27b70a8546d22ffc#64,
  0x2e1b21385c26c926#64, 0x4d2c6dfc5ac42aed#64, 0x53380d139d95b3df#64,
  0x650a73548baf63de#64, 0x766a0abb3c77b2a8#64, 0x81c2c92e47edaee6#64,
  0x92722c851482353b#64, 0xa2bfe8a14cf10364#64, 0xa81a664bbc423001#64,
  0xc24b8b70d0f89791#64, 0xc76c51a30654be30#64, 0xd192e819d6ef5218#64,
  0xd69906245565a910#64, 0xf40e35855771202a#64, 0x106aa07032bbd1b8#64,
  0x19a4c116b8d2d0c8#64, 0x1e376c085141ab53#64, 0x2748774cdf8eeb99#64,
  0x34b0bcb5e19b48a8#64, 0x391c0cb3c5c95a63#64, 0x4ed8aa4ae3418acb#64,
  0x5b9cca4f7763e373#64, 0x682e6ff3d6b2b8a3#64, 0x748f82ee5defb2fc#64,
  0x78a5636f43172f60#64, 0x84c87814a1f0ab72#64, 0x8cc702081a6439ec#64,
  0x90befffa23631e28#64, 0xa4506cebde82bde9#64, 0xbef9a3f7b2c67915#64,
  0xc67178f2e372532b#64, 0xca273eceea26619c#64, 0xd186b8c721c0c207#64,
  0xeada7dd6cde0eb1e#64, 0xf57d4f7fee6ed178#64, 0x06f067aa72176fba#64,
  0x0a637dc5a2c898a6#64, 0x113f9804bef90dae#64, 0x1b710b35131c471b#64,
  0x28db77f523047d84#64, 0x32caab7b40c72493#64, 0x3c9ebe0a15c9bebc#64,
  0x431d67c49c100d4c#64, 0x4cc5d4becb3e42b6#64, 0x597f299cfc657e2a#64,
  0x5fcb6fab3ad6faec#64, 0x6c44198c4a475817#64]

/-! ## The code -/

/-- `ROUND(a, b, c, d, e, f, g, h, k, data)` at a call that passes the variables `A, …, H`
(`v[0], …, v[7]`) rotated right by `n`: its `a` is `v[0 - n]`, …, its `h` is `v[7 - n]`. The
sixteen calls of each run pass them rotated by `0, 1, …, 7, 0, …, 7`. -/
def round (v : Mathlib.Vector (BitVec 64) 8) (n : Fin 8) (k data : BitVec 64) :
    Mathlib.Vector (BitVec 64) 8 :=
  let a := v.get (0 - n)
  let b := v.get (1 - n)
  let c := v.get (2 - n)
  let d := v.get (3 - n)
  let e := v.get (4 - n)
  let f := v.get (5 - n)
  let g := v.get (6 - n)
  let h := v.get (7 - n)
  let T1 := h + Sigma1 e + Ch e f g + k + data
  (v.set (3 - n) (d + T1)).set (7 - n) (T1 + Sigma0 a + Maj a b c)

/-- The variables `A, …, H` and the circular buffer `W[16]` of `sha512_process_block`. -/
abbrev RoundState := Mathlib.Vector (BitVec 64) 8 × Mathlib.Vector (BitVec 64) 16

/-- `ROUND_1_16(…, n)`: `W[n] = bela::frombe(block[n])` is the round's data, `k512[n]` its
constant. -/
def round1to16 (block : List UInt8) (vW : RoundState) (n : Nat) : RoundState :=
  let W := vW.2.set n (blockWord block n)
  (round vW.1 n (k512.getD n 0) (W.get n), W)

/-- `RECALCULATE_W(W, n)`; `(n - d) & 15` is subtraction modulo `16`. -/
def recalculateW (W : Mathlib.Vector (BitVec 64) 16) (n : Fin 16) : Mathlib.Vector (BitVec 64) 16 :=
  W.set n (W.get n + (sigma1 (W.get (n - 2)) + W.get (n - 7) + sigma0 (W.get (n - 15))))

/-- `ROUND_17_80(…, n)` in the pass with `k = &k512[i]`. -/
def round17to80 (i : Nat) (vW : RoundState) (n : Nat) : RoundState :=
  let W := recalculateW vW.2 n
  (round vW.1 n (k512.getD (i + n) 0) (W.get n), W)

/-- `sha512_process_block(hash, block)`: sixteen `ROUND_1_16`, four passes of sixteen
`ROUND_17_80` for `i = 16, 32, 48, 64`, and the variables added to `hash`. `W` starts
uninitialised, here zero; every word of it is written before it is read. -/
def sha512ProcessBlock (hash : Mathlib.Vector (BitVec 64) 8) (block : List UInt8) :
    Mathlib.Vector (BitVec 64) 8 :=
  let vW := (List.range 16).foldl (round1to16 block) (hash, Mathlib.Vector.replicate 16 0)
  let vW := [16, 32, 48, 64].foldl (fun vW i => (List.range 16).foldl (round17to80 i) vW) vW
  Mathlib.Vector.ofFn fun j => hash.get j + vW.1.get j

/-! ## The block as FIPS 180-4 §6.4.2 computes it -/

/-- The working variables `a, …, h`. -/
structure Work where
  a : BitVec 64
  b : BitVec 64
  c : BitVec 64
  d : BitVec 64
  e : BitVec 64
  f : BitVec 64
  g : BitVec 64
  h : BitVec 64
  deriving DecidableEq

/-- Step 2: the working variables set from `H`. -/
def Work.ofHash (H : Fin 8 → BitVec 64) : Work := ⟨H 0, H 1, H 2, H 3, H 4, H 5, H 6, H 7⟩

/-- The working variables as eight words, `a` first. -/
def Work.toHash (x : Work) : Fin 8 → BitVec 64
  | 0 => x.a
  | 1 => x.b
  | 2 => x.c
  | 3 => x.d
  | 4 => x.e
  | 5 => x.f
  | 6 => x.g
  | 7 => x.h

/-- `Ch` as FIPS 180-4 (4.8) states it. -/
def chSpec (x y z : BitVec 64) : BitVec 64 := (x &&& y) ^^^ (~~~x &&& z)

/-- `Maj` as FIPS 180-4 (4.9) states it. -/
def majSpec (x y z : BitVec 64) : BitVec 64 := (x &&& y) ^^^ (x &&& z) ^^^ (y &&& z)

/-- Step 1: the message schedule `W_t` of a block with words `M`. -/
def schedule (M : Nat → BitVec 64) (t : Nat) : BitVec 64 :=
  if t < 16 then M t
  else sigma1 (schedule M (t - 2)) + schedule M (t - 7) + sigma0 (schedule M (t - 15)) +
    schedule M (t - 16)
termination_by t
decreasing_by all_goals omega

/-- Step 3, for one `t`, with `K_t` and `W_t`. -/
def step (k w : BitVec 64) (x : Work) : Work :=
  let T1 := x.h + Sigma1 x.e + chSpec x.e x.f x.g + k + w
  let T2 := Sigma0 x.a + majSpec x.a x.b x.c
  ⟨T1 + T2, x.a, x.b, x.c, x.d + T1, x.e, x.f, x.g⟩

/-- The working variables after the first `t` steps of step 3. -/
def rounds (H : Fin 8 → BitVec 64) (M : Nat → BitVec 64) (t : Nat) : Work :=
  (List.range t).foldl (fun x t => step (k512.getD t 0) (schedule M t) x) (Work.ofHash H)

/-- Steps 2 to 4 for one block with words `M`: the working variables after eighty steps, added to
`H`. -/
def compress (H : Fin 8 → BitVec 64) (M : Nat → BitVec 64) : Fin 8 → BitVec 64 :=
  fun j => H j + (rounds H M 80).toHash j

/-! ## The code computes the block as FIPS 180-4 does -/

/-- Setting a word of a vector updates the function it denotes. -/
theorem get_set_eq_update {k : Nat} (v : Mathlib.Vector (BitVec 64) k) (i : Fin k) (x : BitVec 64) :
    (v.set i x).get = Function.update v.get i x := by
  funext j
  rw [Mathlib.Vector.get_set_eq_if, Function.update_apply]
  simp only [eq_comm]

/-- The optimised `Ch` is FIPS's. -/
theorem Ch_eq_chSpec (x y z : BitVec 64) : Ch x y z = chSpec x y z := by
  ext i
  simp only [Ch, chSpec, BitVec.getLsbD_xor, BitVec.getLsbD_and, BitVec.getLsbD_not]
  cases x.getLsbD i <;> cases y.getLsbD i <;> cases z.getLsbD i <;> simp

/-- The optimised `Maj` is FIPS's. -/
theorem Maj_eq_majSpec (x y z : BitVec 64) : Maj x y z = majSpec x y z := by
  ext i
  simp only [Maj, majSpec, BitVec.getLsbD_xor, BitVec.getLsbD_and]
  cases x.getLsbD i <;> cases y.getLsbD i <;> cases z.getLsbD i <;> simp

theorem schedule_of_lt {M : Nat → BitVec 64} {t : Nat} (h : t < 16) : schedule M t = M t := by
  rw [schedule, if_pos h]

theorem schedule_of_le {M : Nat → BitVec 64} {t : Nat} (h : 16 ≤ t) :
    schedule M t = sigma1 (schedule M (t - 2)) + schedule M (t - 7) + sigma0 (schedule M (t - 15)) +
      schedule M (t - 16) := by
  rw [schedule, if_neg (by omega)]

theorem rounds_succ (H : Fin 8 → BitVec 64) (M : Nat → BitVec 64) (t : Nat) :
    rounds H M (t + 1) = step (k512.getD t 0) (schedule M t) (rounds H M t) := by
  rw [rounds, List.range_succ, List.foldl_append]
  rfl

/-- A call of `ROUND` is a step of FIPS's: the variables read rotated by `n + 1` after it are the
working variables after one step from the variables read rotated by `n`. -/
theorem round_rotated (v : Mathlib.Vector (BitVec 64) 8) (n : Fin 8) (k data : BitVec 64) :
    Work.ofHash (fun i => (round v n k data).get (i - (n + 1))) =
      step k data (Work.ofHash fun i => v.get (i - n)) := by
  have hidx : ∀ i : Fin 8, i - (n + 1) = (i + 7) - n := by revert n; decide
  simp [Work.ofHash, round, step, hidx, get_set_eq_update, Function.update_apply, Ch_eq_chSpec,
    Maj_eq_majSpec, add_assoc, -zero_sub]

/-- After `t` rounds from `H` of a block with words `M`: the variables read rotated by `t` are
FIPS's working variables after `t` steps, and `W` holds the schedule's last sixteen words. -/
structure RoundInv (H : Fin 8 → BitVec 64) (M : Nat → BitVec 64) (t : Nat) (vW : RoundState) :
    Prop where
  vars : Work.ofHash (fun i => vW.1.get (i - t)) = rounds H M t
  window : ∀ s, s < t → t ≤ s + 16 → vW.2.get s = schedule M s

/-- Two positions of one window of sixteen are different words of `W`. -/
theorem natCast_ne_of_lt {s t : Nat} (h : s < t) (h16 : t < s + 16) : (s : Fin 16) ≠ (t : Fin 16) := by
  intro he
  have := congrArg Fin.val he
  simp only [Fin.val_natCast] at this
  omega

/-- A round whose data is `W_t`, with `W` updated at `t` to it, keeps the invariant. -/
theorem RoundInv.next {H : Fin 8 → BitVec 64} {M : Nat → BitVec 64} {t : Nat}
    {v : Mathlib.Vector (BitVec 64) 8} {W W' : Mathlib.Vector (BitVec 64) 16}
    (hi : RoundInv H M t (v, W)) (hW : W' = W.set t (schedule M t)) :
    RoundInv H M (t + 1) (round v t (k512.getD t 0) (W'.get t), W') := by
  subst hW
  constructor
  · rw [rounds_succ, ← hi.vars, Mathlib.Vector.get_set_same, ← round_rotated]
    simp only [Nat.cast_succ]
  · intro s hs ht
    show (W.set t (schedule M t)).get s = schedule M s
    rw [get_set_eq_update]
    rcases Nat.lt_succ_iff_lt_or_eq.mp hs with hs | rfl
    · rw [Function.update_noteq (natCast_ne_of_lt hs (by omega))]
      exact hi.window s hs (by omega)
    · exact Function.update_same _ _ _

/-- `ROUND_1_16(…, t)` keeps the invariant. -/
theorem RoundInv.next1to16 {H : Fin 8 → BitVec 64} {block : List UInt8} {t : Nat}
    {vW : RoundState} (hi : RoundInv H (blockWord block) t vW) (ht : t < 16) :
    RoundInv H (blockWord block) (t + 1) (round1to16 block vW t) :=
  hi.next (by rw [schedule_of_lt ht])

/-- Position `n - d` of the circular buffer at round `t ≡ n` is round `t - d`. -/
theorem natCast_sub_eq {n t d : Nat} (h : n % 16 = t % 16) (hd : d ≤ t) :
    (n : Fin 16) - (d : Fin 16) = ((t - d : Nat) : Fin 16) := by
  ext
  simp only [Fin.sub_def, Fin.val_natCast]
  omega

/-- `RECALCULATE_W` at round `t ≥ 16` writes `W_t` over `W_{t-16}`. -/
theorem recalculateW_eq {M : Nat → BitVec 64} {t n : Nat} {W : Mathlib.Vector (BitVec 64) 16}
    (hw : ∀ s, s < t → t ≤ s + 16 → W.get s = schedule M s) (h : n % 16 = t % 16) (ht : 16 ≤ t) :
    recalculateW W n = W.set t (schedule M t) := by
  have hcast : ((n : Nat) : Fin 16) = (t : Fin 16) := by
    ext
    simp only [Fin.val_natCast]
    omega
  have hsub : ∀ d : Nat, 0 < d → d ≤ 16 → W.get ((n : Fin 16) - (d : Fin 16)) = schedule M (t - d) :=
    fun d h0 hd => by rw [natCast_sub_eq h (by omega)]; exact hw _ (by omega) (by omega)
  have h16 : W.get n = schedule M (t - 16) := by simpa using hsub 16 (by omega) le_rfl
  have h2 : W.get (n - 2) = schedule M (t - 2) := by simpa using hsub 2 (by omega) (by omega)
  have h7 : W.get (n - 7) = schedule M (t - 7) := by simpa using hsub 7 (by omega) (by omega)
  have h15 : W.get (n - 15) = schedule M (t - 15) := by simpa using hsub 15 (by omega) (by omega)
  rw [recalculateW, h16, h2, h7, h15, hcast, schedule_of_le ht, add_comm (schedule M (t - 16))]

/-- `ROUND_17_80(…, n)` in the pass `i` is round `i + n`, and keeps the invariant. -/
theorem RoundInv.next17to80 {H : Fin 8 → BitVec 64} {M : Nat → BitVec 64} {i n : Nat}
    {vW : RoundState} (hi : RoundInv H M (i + n) vW) (h16 : 16 ≤ i) (hmod : i % 16 = 0)
    (hn : n < 16) : RoundInv H M (i + n + 1) (round17to80 i vW n) := by
  have hcast : ((n : Nat) : Fin 8) = ((i + n : Nat) : Fin 8) := by
    ext
    simp only [Fin.val_natCast]
    omega
  have hW := @recalculateW_eq M (i + n) n vW.2 hi.window (by omega) (by omega)
  have hn16 : ((n : Nat) : Fin 16) = ((i + n : Nat) : Fin 16) := by
    ext
    simp only [Fin.val_natCast]
    omega
  simp only [round17to80]
  rw [hW, hcast, hn16]
  exact hi.next rfl

/-- The sixteen `ROUND_1_16` from `hash` keep the invariant. -/
theorem roundInv_round1to16 (hash : Mathlib.Vector (BitVec 64) 8) (block : List UInt8)
    (W : Mathlib.Vector (BitVec 64) 16) {m : Nat} (hm : m ≤ 16) :
    RoundInv hash.get (blockWord block) m ((List.range m).foldl (round1to16 block) (hash, W)) := by
  induction m with
  | zero => exact ⟨by simp [rounds], fun s hs => absurd hs (Nat.not_lt_zero s)⟩
  | succ m ih =>
    rw [List.range_succ, List.foldl_append, List.foldl_cons, List.foldl_nil]
    exact (ih (by omega)).next1to16 (by omega)

/-- A pass of sixteen `ROUND_17_80` from round `i` keeps the invariant. -/
theorem RoundInv.pass {H : Fin 8 → BitVec 64} {M : Nat → BitVec 64} {i : Nat} {vW : RoundState}
    (hi : RoundInv H M i vW) (h16 : 16 ≤ i) (hmod : i % 16 = 0) {m : Nat} (hm : m ≤ 16) :
    RoundInv H M (i + m) ((List.range m).foldl (round17to80 i) vW) := by
  induction m with
  | zero => exact hi
  | succ m ih =>
    rw [List.range_succ, List.foldl_append, List.foldl_cons, List.foldl_nil, ← Nat.add_assoc]
    exact (ih (by omega)).next17to80 h16 hmod (by omega)

@[simp] theorem Work.toHash_ofHash (H : Fin 8 → BitVec 64) : (Work.ofHash H).toHash = H := by
  funext j
  fin_cases j <;> rfl

/-- `sha512_process_block` computes the block as FIPS 180-4 does, for every state and every block:
its rotated rounds, circular schedule and optimised `Ch` and `Maj` give `compress`. -/
theorem sha512ProcessBlock_eq_compress (hash : Mathlib.Vector (BitVec 64) 8) (block : List UInt8) :
    (sha512ProcessBlock hash block).get = compress hash.get (blockWord block) := by
  have h32 : RoundInv hash.get (blockWord block) 32 _ :=
    (roundInv_round1to16 hash block (Mathlib.Vector.replicate 16 0) le_rfl).pass le_rfl rfl le_rfl
  have h80 : RoundInv hash.get (blockWord block) 80 _ :=
    ((h32.pass (by norm_num) rfl le_rfl).pass (by norm_num) rfl le_rfl).pass (by norm_num) rfl le_rfl
  have hv := h80.vars
  rw [show ((80 : Nat) : Fin 8) = 0 from rfl] at hv
  funext j
  simp only [sha512ProcessBlock, compress, List.foldl_cons, List.foldl_nil, ← hv, sub_zero,
    Work.toHash_ofHash, Mathlib.Vector.get_ofFn]

end Abslw.Sha512
