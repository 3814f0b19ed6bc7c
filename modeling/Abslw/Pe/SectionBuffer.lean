import Abslw.Pe.Exports

/-!
# The section buffer's accessors

`SectionBuffer` of `bela/pe.hpp` holds a section's data in a `std::vector<char>` and hands out
views of it and values read from it: `substr`, `cstring_view`, `direct_cast`, `bit_cast` and
`function_hit`. The copy for the unified header (`unnamed/part_004`) has the same text except in
`function_hit`, whose bound test goes the other way (`Unified.functionHit`).

The model places the buffer in memory: `rawdata` lies at the address `base`, the vector's
`data()`, and a read of a byte outside it is a fault that names the address. Pointers and views
are addresses, offsets are `size_t`, and sums wrap modulo `2 ^ 64` as in the code. `load` reads the
bytes a pointer or a view denotes, so the model says both what each accessor reads and what its
result denotes.

For every offset, the view `substr` returns denotes the bytes from the offset on
(`load_substr`), and the view `cstring_view` returns the bytes up to the next zero byte
(`cstringView_load`); neither reads outside the buffer. `direct_cast` denotes the bytes at the
offset whenever the offset's sum with the type's size does not wrap (`directCast_load`). The
views and pointers denote what `LookupExports` reads through them (`Pe.cstringView`,
`Pe.directCast`). The two copies of `function_hit` test the bound the opposite ways, and both
read their two bytes big-endian (`functionHit_bounds`).
-/

namespace Abslw.Pe

/-- `std::string_view::npos`, the largest `size_t`. -/
def npos : Nat := 2 ^ 64 - 1

/-- `bela::cast_frombe` on the bytes it reads: their value, big-endian. -/
def ofBE (bs : List UInt8) : Nat := ofLE bs.reverse

/-- A read of a byte outside the buffer. -/
structure Fault where
  /-- The address read. -/
  address : Nat
  deriving DecidableEq, Repr

/-- `SectionBuffer`: the section's bytes, placed in memory. -/
structure SectionBuffer where
  /-- `rawdata`, the bytes. -/
  rawdata : List UInt8
  /-- `rawdata.data()`, the address of the first byte. -/
  base : Nat
  /-- The bytes lie in the address space. -/
  fits : base + rawdata.length < 2 ^ 64

/-- A `std::string_view`: the address of its first byte and its length. -/
structure View where
  /-- `data()`. -/
  data : Nat
  /-- `size()`. -/
  size : Nat
  deriving DecidableEq, Repr

/-- `std::string_view()`. -/
def View.empty : View := ⟨0, 0⟩

namespace SectionBuffer

variable (b : SectionBuffer)

/-- `size()`. -/
def size : Nat := b.rawdata.length

/-- `data() + offset`, the sum in `uintptr_t`. -/
def ptr (offset : Nat) : Nat := (b.base + offset) % 2 ^ 64

/-- The byte at address `a`, or a fault when it lies outside the buffer. -/
def byteAt (a : Nat) : Except Fault UInt8 :=
  if h : b.base ≤ a ∧ a < b.base + b.rawdata.length then .ok (b.rawdata.get ⟨a - b.base, by omega⟩)
  else .error ⟨a⟩

/-- The `w` bytes from the address `a` on, read one at a time, the address in `uintptr_t`: what a
dereference or a `memcpy` of `w` bytes reads. -/
def load (a : Nat) : Nat → Except Fault (List UInt8)
  | 0 => .ok []
  | w + 1 => do
    let c ← b.byteAt a
    let cs ← load ((a + 1) % 2 ^ 64) w
    pure (c :: cs)

/-- `substr(pos)`. -/
def substr (pos : Nat) : View :=
  if pos > b.size then .empty else ⟨b.ptr pos, b.size - pos⟩

/-- The loop `for (auto end = offset; end < cslength; end++)` of `cstring_view`: the first
position from `end` on and below `cslength` whose byte `rawdata[end]` is zero. The increment does
not wrap, as `end < cslength`. -/
def zeroFrom (cslength end_ : Nat) : Except Fault (Option Nat) :=
  if end_ < cslength then do
    let c ← b.byteAt (b.ptr end_)
    if c = 0 then pure (some end_) else zeroFrom cslength (end_ + 1)
  else pure none
termination_by cslength - end_

/-- `cstring_view(offset, cslength)`; the callers pass `npos` for `cslength`. -/
def cstringView (offset cslength : Nat) : Except Fault View :=
  if offset > b.size then pure .empty
  else do
    match ← b.zeroFrom (min cslength b.size) offset with
    | some end_ => pure ⟨b.ptr offset, end_ - offset⟩
    | none => pure .empty

/-- `direct_cast<T>(offset)` for a `T` of `w` bytes: the pointer, or `none` for `nullptr`. -/
def directCast (w offset : Nat) : Option Nat :=
  if (offset + w) % 2 ^ 64 > b.size then none else some (b.ptr offset)

/-- `bit_cast<T>(t, offset)` for a `T` of `w` bytes: the bytes copied into `*t`, or `none` for
`nullptr`. The `memcpy` copies from the address `rawdata.size() + offset`. -/
def bitCast (w offset : Nat) : Except Fault (Option (List UInt8)) :=
  if (offset + w) % 2 ^ 64 > b.size then pure none
  else some <$> b.load ((b.size + offset) % 2 ^ 64) w

/-- `function_hit(offset)`: zero when `offset + 2 < size()`, and otherwise the big-endian value of
the two bytes at `data() + offset`. -/
def functionHit (offset : Nat) : Except Fault Nat :=
  if (offset + 2) % 2 ^ 64 < b.size then pure 0
  else ofBE <$> b.load (b.ptr offset) 2

end SectionBuffer

/-- `function_hit(offset)` of the copy for the unified header: zero when
`offset + 2 > size()`, and otherwise the big-endian value of the two bytes at `data() + offset`. -/
def Unified.functionHit (b : SectionBuffer) (offset : Nat) : Except Fault Nat :=
  if (offset + 2) % 2 ^ 64 > b.size then pure 0
  else ofBE <$> b.load (b.ptr offset) 2

/-- The 16-bit value `function_hit` should return: the little-endian value of `r[o, o+2)` when
those bytes lie in the buffer, and zero otherwise. -/
def functionHitSpec (r : List UInt8) (o : Nat) : Nat :=
  if o + 2 ≤ r.length then leAt r o 2 else 0

/-- Four bytes at the address `0x1000`. -/
def sampleBuffer : SectionBuffer := ⟨[0x12, 0x34, 0x56, 0x78], 0x1000, by decide⟩

namespace SectionBuffer

variable (b : SectionBuffer)

/-! ## Reads within the buffer -/

/-- An address within the buffer is `data()` plus an offset below the size. -/
theorem ptr_of_le {o : Nat} (h : o ≤ b.size) : b.ptr o = b.base + o :=
  Nat.mod_eq_of_lt (by have := b.fits; unfold size at h; omega)

/-- A byte within the buffer is read. -/
theorem byteAt_ptr {o : Nat} (h : o < b.size) : b.byteAt (b.ptr o) = .ok (b.rawdata.get ⟨o, h⟩) := by
  rw [ptr_of_le b h.le, byteAt, dif_pos (by unfold size at h; omega)]
  simp only [Nat.add_sub_cancel_left]

/-- Bytes within the buffer are read, in order. -/
theorem load_ptr : ∀ {o w : Nat}, o + w ≤ b.size →
    b.load (b.ptr o) w = .ok ((b.rawdata.drop o).take w)
  | _, 0, _ => rfl
  | o, w + 1, h => by
    have hnext : (b.ptr o + 1) % 2 ^ 64 = b.ptr (o + 1) := by
      rw [ptr_of_le b (show o ≤ b.size by omega), ptr_of_le b (show o + 1 ≤ b.size by omega)]
      exact Nat.mod_eq_of_lt (by have := b.fits; unfold size at h; omega)
    simp only [load, byteAt_ptr b (show o < b.size by omega), ok_bind, hnext,
      load_ptr (show o + 1 + w ≤ b.size by omega)]
    rw [List.drop_eq_getElem_cons (show o < b.rawdata.length by unfold size at h; omega)]
    rfl

/-! ## `substr` -/

/-- For every position, the view `substr` returns denotes the bytes from there on, and nothing past
the end. -/
theorem load_substr (pos : Nat) :
    b.load (b.substr pos).data (b.substr pos).size =
      .ok (if pos ≤ b.size then b.rawdata.drop pos else []) := by
  unfold substr
  split
  · rw [if_neg (by omega)]; rfl
  · dsimp only
    rw [if_pos (by omega), load_ptr b (by omega), List.take_of_length_le (by simp [size])]

/-! ## `cstring_view` -/

/-- The loop finds the first zero byte of `rawdata[end, cslength)`, reading only there. -/
theorem zeroFrom_eq {cslength : Nat} (hc : cslength ≤ b.size) (end_ : Nat) :
    b.zeroFrom cslength end_ =
      .ok (if (0 : UInt8) ∈ (b.rawdata.take cslength).drop end_
        then some (end_ + (((b.rawdata.take cslength).drop end_).takeWhile (· != 0)).length)
        else none) := by
  induction end_ using zeroFrom.induct b cslength with
  | case1 end_ h ih =>
    have hlt : end_ < b.size := by omega
    have hcons : (b.rawdata.take cslength).drop end_ =
        b.rawdata.get ⟨end_, hlt⟩ :: (b.rawdata.take cslength).drop (end_ + 1) := by
      rw [List.drop_eq_getElem_cons (by simp only [List.length_take]; unfold size at hlt; omega)]
      simp
    rw [zeroFrom, if_pos h, byteAt_ptr b hlt, ok_bind, hcons]
    generalize b.rawdata.get ⟨end_, hlt⟩ = c
    by_cases h0 : c = 0
    · subst h0; simp
    · rw [if_neg h0, ih]
      simp [h0, Ne.symm h0, Nat.add_assoc, Nat.add_comm 1]
  | case2 end_ h =>
    rw [zeroFrom, if_neg h, List.drop_eq_nil_of_le (by simp only [List.length_take]; omega)]
    simp

/-- For every offset, `cstring_view(offset)` reads only within the buffer, and its view denotes the
bytes from the offset up to the next zero byte, or nothing when the offset is past the buffer or no
zero byte follows it: the name `LookupExports` reads. -/
theorem cstringView_load (offset : Nat) :
    (b.cstringView offset npos >>= fun v => b.load v.data v.size) =
      .ok (Pe.cstringView b.rawdata offset) := by
  unfold cstringView Pe.cstringView
  by_cases ho : offset > b.size
  · rw [if_pos ho, if_pos (show offset > b.rawdata.length from ho)]; rfl
  rw [if_neg ho, if_neg (show ¬offset > b.rawdata.length from ho),
    Nat.min_eq_right (by have := b.fits; unfold npos size; omega), zeroFrom_eq b le_rfl,
    List.take_of_length_le (show b.rawdata.length ≤ b.size from le_rfl)]
  by_cases hz : (0 : UInt8) ∈ b.rawdata.drop offset
  · have hpre := (List.takeWhile_prefix (· != 0) (l := b.rawdata.drop offset)).length_le
    have htake := List.take_left ((b.rawdata.drop offset).takeWhile (· != 0))
      ((b.rawdata.drop offset).dropWhile (· != 0))
    rw [List.takeWhile_append_dropWhile] at htake
    rw [if_pos hz, if_pos hz, ok_bind]
    simp only [pure_eq_ok, ok_bind, Nat.add_sub_cancel_left]
    rw [load_ptr b (by simp only [List.length_drop] at hpre; unfold size at ho ⊢; omega), htake]
  · rw [if_neg hz, if_neg hz]; rfl

/-! ## `direct_cast` -/

/-- Where `offset + w` does not wrap, `direct_cast` is non-null exactly when the `w` bytes at the
offset lie in the buffer, and its pointer then denotes them: the record `LookupExports` reads. -/
theorem directCast_load {w offset : Nat} (h : offset + w < 2 ^ 64) :
    (b.directCast w offset).map (fun p => b.load p w) =
      (Pe.directCast b.rawdata w offset).map .ok := by
  unfold directCast Pe.directCast
  rw [Nat.mod_eq_of_lt h]
  by_cases hw : offset + w > b.size
  · rw [if_pos hw, if_pos (show offset + w > b.rawdata.length from hw)]; rfl
  · rw [if_neg hw, if_neg (show ¬offset + w > b.rawdata.length from hw), Option.map_some',
      Option.map_some', load_ptr b (by omega)]

/-- On `sampleBuffer`, `direct_cast` of two bytes at 0 denotes the first two bytes. -/
theorem directCast_load_sampleBuffer :
    0 + 2 < 2 ^ 64 ∧ (sampleBuffer.directCast 2 0).map (fun p => sampleBuffer.load p 2) =
      (Pe.directCast sampleBuffer.rawdata 2 0).map .ok :=
  ⟨by decide, directCast_load sampleBuffer (by decide)⟩

/-! ## Reads past the buffer -/

/-- An offset at or past the end denotes an address outside the buffer. -/
theorem byteAt_ptr_of_le {o : Nat} (h : b.size ≤ o) (ho : o < 2 ^ 64) :
    b.byteAt (b.ptr o) = .error ⟨b.ptr o⟩ := by
  have hfit := b.fits
  unfold byteAt ptr
  rw [dif_neg]
  unfold size at h
  by_cases hw : b.base + o < 2 ^ 64
  · rw [Nat.mod_eq_of_lt hw]; omega
  · rw [Nat.mod_eq_sub_mod (by omega), Nat.mod_eq_of_lt (by omega)]; omega

/-- A read of `w > 0` bytes at an offset below `2 ^ 64` whose bytes run past the end faults. -/
theorem load_ptr_of_lt : ∀ {o w : Nat}, 0 < w → b.size < o + w → o < 2 ^ 64 →
    ∃ a, b.load (b.ptr o) w = .error ⟨a⟩
  | _, 0, hw, _, _ => absurd hw (Nat.lt_irrefl 0)
  | o, w + 1, _, h, ho => by
    by_cases hs : b.size ≤ o
    · exact ⟨b.ptr o, by rw [load, byteAt_ptr_of_le b hs ho]; rfl⟩
    have hnext : (b.ptr o + 1) % 2 ^ 64 = b.ptr (o + 1) := by
      rw [ptr_of_le b (show o ≤ b.size by omega), ptr_of_le b (show o + 1 ≤ b.size by omega)]
      exact Nat.mod_eq_of_lt (by have := b.fits; unfold size at hs; omega)
    obtain ⟨a, ha⟩ := @load_ptr_of_lt (o + 1) w (by omega) (by omega)
      (by have := b.fits; unfold size at hs; omega)
    exact ⟨a, by rw [load, byteAt_ptr b (by omega), ok_bind, hnext, ha]; rfl⟩

/-- Where `offset + w` wraps to at most the size, `direct_cast` is non-null, and a read through its
pointer faults. -/
theorem directCast_of_wrap {w offset : Nat} (hw : 0 < w) (ho : offset < 2 ^ 64)
    (hwrap : 2 ^ 64 ≤ offset + w) (hle : offset + w - 2 ^ 64 ≤ b.size) :
    b.directCast w offset = some (b.ptr offset) ∧ ∃ a, b.load (b.ptr offset) w = .error ⟨a⟩ := by
  refine ⟨if_neg ?_, load_ptr_of_lt b hw (by have := b.fits; unfold size at hle ⊢; omega) ho⟩
  rw [Nat.mod_eq_sub_mod hwrap, Nat.mod_eq_of_lt (by have := b.fits; unfold size at hle; omega)]
  omega

/-- On `sampleBuffer`, `direct_cast` of two bytes at `npos` wraps to a pointer whose read faults. -/
theorem directCast_of_wrap_sampleBuffer :
    0 < 2 ∧ npos < 2 ^ 64 ∧ 2 ^ 64 ≤ npos + 2 ∧ npos + 2 - 2 ^ 64 ≤ sampleBuffer.size ∧
    sampleBuffer.directCast 2 npos = some (sampleBuffer.ptr npos) ∧
      ∃ a, sampleBuffer.load (sampleBuffer.ptr npos) 2 = .error ⟨a⟩ :=
  have hle : npos + 2 - 2 ^ 64 ≤ sampleBuffer.size := by decide
  ⟨by decide, by decide, by decide, hle,
    directCast_of_wrap sampleBuffer (by decide) (by decide) (by decide) hle⟩

end SectionBuffer

/-! ## `function_hit` -/

/-- The two copies of `function_hit` test the bound the opposite ways. The first returns zero
for every offset whose two bytes lie in the buffer with a byte to spare, reads the last two bytes
big-endian, and faults for every offset whose two bytes run past the end; the unified copy reads
the two bytes at every offset where they lie in the buffer, big-endian, and returns zero past the
end. -/
theorem functionHit_bounds (b : SectionBuffer) (offset : Nat) :
    (offset + 2 < b.size → b.functionHit offset = .ok 0) ∧
    (offset + 2 = b.size →
      b.functionHit offset = .ok (ofBE ((b.rawdata.drop offset).take 2))) ∧
    (b.size < offset + 2 → offset + 2 < 2 ^ 64 → ∃ a, b.functionHit offset = .error ⟨a⟩) ∧
    (offset + 2 ≤ b.size →
      Unified.functionHit b offset = .ok (ofBE ((b.rawdata.drop offset).take 2))) ∧
    (b.size < offset + 2 → offset + 2 < 2 ^ 64 → Unified.functionHit b offset = .ok 0) := by
  have hfit := b.fits
  have hmod (h : offset + 2 ≤ b.size) : (offset + 2) % 2 ^ 64 = offset + 2 :=
    Nat.mod_eq_of_lt (by unfold SectionBuffer.size at h; omega)
  refine ⟨fun h => if_pos (by rw [hmod h.le]; exact h), fun h => ?_, fun h ho => ?_,
    fun h => ?_, fun h ho => if_pos (by rw [Nat.mod_eq_of_lt ho]; exact h)⟩
  · rw [SectionBuffer.functionHit, if_neg (by rw [hmod h.le]; omega), b.load_ptr h.le]
    rfl
  · obtain ⟨a, ha⟩ := b.load_ptr_of_lt (show 0 < 2 by omega) h (by omega)
    exact ⟨a, by rw [SectionBuffer.functionHit, if_neg (by rw [Nat.mod_eq_of_lt ho]; omega), ha]; rfl⟩
  · rw [Unified.functionHit, if_neg (by rw [hmod h]; omega), b.load_ptr h]
    rfl

/-- Where the accessors part from the checked read, on four bytes at `0x1000`: `function_hit`
returns zero at offset 0, where the two bytes lie in the buffer, and reads past the end at offset
3; the unified copy reads its two bytes big-endian; `direct_cast` of two bytes at `npos` wraps to a
non-null pointer one byte before the buffer; and `bit_cast` copies from the address
`size() + offset`, outside the buffer. -/
theorem sampleBuffer_accessors :
    sampleBuffer.functionHit 0 = .ok 0 ∧ functionHitSpec sampleBuffer.rawdata 0 = 0x3412 ∧
    sampleBuffer.functionHit 3 = .error ⟨0x1004⟩ ∧ functionHitSpec sampleBuffer.rawdata 3 = 0 ∧
    Unified.functionHit sampleBuffer 2 = .ok 0x5678 ∧
      functionHitSpec sampleBuffer.rawdata 2 = 0x7856 ∧
    sampleBuffer.directCast 2 npos = some 0xFFF ∧ directCast sampleBuffer.rawdata 2 npos = none ∧
      sampleBuffer.load 0xFFF 2 = .error ⟨0xFFF⟩ ∧
    sampleBuffer.bitCast 2 0 = .error ⟨4⟩ ∧
      directCast sampleBuffer.rawdata 2 0 = some [0x12, 0x34] := by
  decide

end Abslw.Pe
