import Mathlib.Data.List.Basic
import Mathlib.Tactic.Ring

/-!
# Little-endian fields and the `LittenEndian` cursor

Every decoder of the repository reads fixed-width little-endian integers out of byte buffers.
`ofLE` is the value of a run of bytes, `toLE` writes one back, and `leAt bs o w` is the `w`-byte
field at offset `o`, the form in which the format's layouts are stated.

`bela::endian::LittenEndian` is the cursor that `hazel/zip/zip.cc` decodes with: a view of the
bytes not yet consumed, from which `Read<T>`, `Pick`, `Discard` and `Sub` take bytes off the front.
The header that defines it is not among the sources, and its reads do not check the view's end.
Each operation here fails instead when the view is too short, as the spec's `read_at` does, and the
zip decoders turn that failure into a fault: a decoder proved never to fault never reads past a
view. `read_eq` and its siblings say what each operation returns when it does not fail.

The decoders return `Except`; the equations of its `pure`, bind and map are stated once here.
-/

namespace Abslw

/-- Results of the decoders compare by value, so that a run on a fixed input can be decided. -/
instance decEqExcept {ε α : Type} [DecidableEq ε] [DecidableEq α] : DecidableEq (Except ε α)
  | .ok a, .ok b => decidable_of_iff (a = b) ⟨congrArg _, Except.ok.inj⟩
  | .error e, .error e' => decidable_of_iff (e = e') ⟨congrArg _, Except.error.inj⟩
  | .ok _, .error _ => isFalse Except.noConfusion
  | .error _, .ok _ => isFalse Except.noConfusion

@[simp] theorem pure_eq_ok {ε α : Type} (a : α) : (pure a : Except ε α) = .ok a := rfl

@[simp] theorem ok_bind {ε α β : Type} (a : α) (f : α → Except ε β) :
    (Except.ok a >>= f : Except ε β) = f a := rfl

@[simp] theorem error_bind {ε α β : Type} (e : ε) (f : α → Except ε β) :
    (Except.error e >>= f : Except ε β) = .error e := rfl

@[simp] theorem ok_map {ε α β : Type} (a : α) (f : α → β) :
    (f <$> Except.ok a : Except ε β) = .ok (f a) := rfl

@[simp] theorem error_map {ε α β : Type} (e : ε) (f : α → β) :
    (f <$> Except.error e : Except ε β) = .error e := rfl

/-- A bind succeeds when both its steps do. -/
theorem bind_eq_ok {ε α β : Type} {x : Except ε α} {f : α → Except ε β} {b : β} :
    (x >>= f) = .ok b ↔ ∃ a, x = .ok a ∧ f a = .ok b := by
  cases x <;> simp [bind, Except.bind]

/-! ## Little-endian values -/

/-- The natural number whose little-endian bytes are the list. -/
def ofLE : List UInt8 → Nat
  | [] => 0
  | b :: bs => b.toNat + 256 * ofLE bs

/-- The `w` little-endian bytes of `n`; bits at and above `8 * w` are dropped. -/
def toLE : Nat → Nat → List UInt8
  | 0, _ => []
  | w + 1, n => UInt8.ofNat (n % 256) :: toLE w (n / 256)

@[simp] theorem ofLE_nil : ofLE [] = 0 := rfl

@[simp] theorem ofLE_cons (b : UInt8) (bs : List UInt8) :
    ofLE (b :: bs) = b.toNat + 256 * ofLE bs := rfl

@[simp] theorem length_toLE (w n : Nat) : (toLE w n).length = w := by
  induction w generalizing n with
  | zero => rfl
  | succ w ih => simp [toLE, ih]

/-- A run of bytes denotes a number below `256 ^ length`. -/
theorem ofLE_lt (bs : List UInt8) : ofLE bs < 256 ^ bs.length := by
  induction bs with
  | nil => simp
  | cons b bs ih =>
    have hb : b.toNat < 256 := b.toNat_lt_size
    rw [ofLE_cons, List.length_cons, pow_succ]
    omega

/-- Writing `w` bytes and reading them back gives the number modulo `256 ^ w`. -/
theorem ofLE_toLE (w n : Nat) : ofLE (toLE w n) = n % 256 ^ w := by
  induction w generalizing n with
  | zero => simp [toLE, Nat.mod_one]
  | succ w ih =>
    have h : (UInt8.ofNat (n % 256)).toNat = n % 256 :=
      UInt8.toNat_ofNat_of_lt (Nat.mod_lt _ (by decide))
    rw [toLE, ofLE_cons, ih, h, pow_succ', Nat.mod_mul]

/-- Reading a list and writing the value back in as many bytes gives the list. -/
theorem toLE_ofLE : ∀ l : List UInt8, toLE l.length (ofLE l) = l
  | [] => rfl
  | b :: l => by
    have hb : b.toNat < 256 := UInt8.toNat_lt_size b
    rw [List.length_cons, toLE, ofLE_cons, show (b.toNat + 256 * ofLE l) % 256 = b.toNat by omega,
      show (b.toNat + 256 * ofLE l) / 256 = ofLE l by omega, toLE_ofLE l,
      show UInt8.ofNat b.toNat = b from UInt8.eq_of_val_eq (Fin.ext (Nat.mod_eq_of_lt b.val.isLt))]

/-- The value of a concatenation: the second run counts from the first's length on. -/
theorem ofLE_append (l₁ l₂ : List UInt8) :
    ofLE (l₁ ++ l₂) = ofLE l₁ + 256 ^ l₁.length * ofLE l₂ := by
  induction l₁ with
  | nil => simp
  | cons b bs ih =>
    rw [List.cons_append, ofLE_cons, ofLE_cons, ih, List.length_cons, pow_succ]
    ring

/-- The `w`-byte little-endian field at offset `o` of `bs`. -/
def leAt (bs : List UInt8) (o w : Nat) : Nat := ofLE ((bs.drop o).take w)

/-- A field of `w` bytes is below `256 ^ w`. -/
theorem leAt_lt (bs : List UInt8) (o w : Nat) : leAt bs o w < 256 ^ w :=
  lt_of_lt_of_le (ofLE_lt _) (Nat.pow_le_pow_right (by decide) (by simp))

/-- Fields at offsets past a dropped prefix are fields of the whole list. -/
theorem leAt_drop (bs : List UInt8) (n o w : Nat) : leAt (bs.drop n) o w = leAt bs (n + o) w := by
  simp [leAt, List.drop_drop]

/-- A field that ends within a prefix reads the same from the prefix. -/
theorem leAt_take (bs : List UInt8) {n o w : Nat} (h : o + w ≤ n) :
    leAt (bs.take n) o w = leAt bs o w := by
  simp only [leAt, List.drop_take, List.take_take]
  congr 2
  omega

/-- A field that lies within the first list of a concatenation reads the same from that list. -/
theorem leAt_append_left {l₁ : List UInt8} (l₂ : List UInt8) {o w : Nat}
    (h : o + w ≤ l₁.length) : leAt (l₁ ++ l₂) o w = leAt l₁ o w := by
  rw [← leAt_take (l₁ ++ l₂) h, List.take_append_of_le_length (by omega), List.take_length]

/-- A field past the first list of a concatenation is a field of the second. -/
theorem leAt_append_right (l₁ l₂ : List UInt8) (o w : Nat) :
    leAt (l₁ ++ l₂) (l₁.length + o) w = leAt l₂ o w := by
  rw [← leAt_drop, List.drop_left]

/-- A field that starts past the first list of a concatenation is a field of the second. -/
theorem leAt_append_of_le {l₁ : List UInt8} (l₂ : List UInt8) {o w : Nat} (h : l₁.length ≤ o) :
    leAt (l₁ ++ l₂) o w = leAt l₂ (o - l₁.length) w := by
  rw [← leAt_append_right l₁ l₂, Nat.add_sub_cancel' h]

/-- The first `w` bytes of a written field read back as the number modulo `256 ^ w`. -/
theorem leAt_toLE_append (w n : Nat) (l : List UInt8) : leAt (toLE w n ++ l) 0 w = n % 256 ^ w := by
  rw [leAt_append_left l (by simp), leAt, List.drop_zero, List.take_of_length_le (by simp),
    ofLE_toLE]

/-- A field past a written field is a field of what follows it. -/
theorem leAt_toLE_append_of_le (w n : Nat) (l : List UInt8) {o v : Nat} (h : w ≤ o) :
    leAt (toLE w n ++ l) o v = leAt l (o - w) v := by
  rw [leAt_append_of_le l (by simpa using h), length_toLE]

/-- A written field reads back as the number modulo `256 ^ w`. -/
theorem leAt_toLE (w n : Nat) : leAt (toLE w n) 0 w = n % 256 ^ w := by
  simpa using leAt_toLE_append w n []

/-! ## The cursor -/

/-- `bela::endian::LittenEndian`, a view of the bytes not yet consumed. The header that defines
it is not among the sources; as the spec's `read_at`, its operations fail on a view too short. -/
structure LittenEndian where
  /-- The bytes of the view, from the cursor to the view's end. -/
  data : List UInt8
  deriving DecidableEq, Repr

namespace LittenEndian

/-- `Size()`: the number of bytes left in the view. -/
def size (b : LittenEndian) : Nat := b.data.length

/-- `Read<T>()` for a `w`-byte `T`: the little-endian value of the next `w` bytes, consumed. -/
def read (w : Nat) (b : LittenEndian) : Option (Nat × LittenEndian) :=
  if w ≤ b.size then some (ofLE (b.data.take w), ⟨b.data.drop w⟩) else none

/-- `Discard(n)`: skip the next `n` bytes. -/
def discard (n : Nat) (b : LittenEndian) : Option LittenEndian :=
  if n ≤ b.size then some ⟨b.data.drop n⟩ else none

/-- `Pick()`: the next byte, consumed. -/
def pick (b : LittenEndian) : Option (Nat × LittenEndian) :=
  match b.data with
  | [] => none
  | x :: xs => some (x.toNat, ⟨xs⟩)

/-- `Sub(n)`: a view of the next `n` bytes, which this view then skips. -/
def sub (n : Nat) (b : LittenEndian) : Option (LittenEndian × LittenEndian) :=
  if n ≤ b.size then some (⟨b.data.take n⟩, ⟨b.data.drop n⟩) else none

@[simp] theorem size_mk (l : List UInt8) : size ⟨l⟩ = l.length := rfl

theorem read_eq {w : Nat} {b : LittenEndian} (h : w ≤ b.size) :
    b.read w = some (leAt b.data 0 w, ⟨b.data.drop w⟩) := by
  simp [read, h, leAt]

theorem discard_eq {n : Nat} {b : LittenEndian} (h : n ≤ b.size) :
    b.discard n = some ⟨b.data.drop n⟩ := by
  simp [discard, h]

theorem sub_eq {n : Nat} {b : LittenEndian} (h : n ≤ b.size) :
    b.sub n = some (⟨b.data.take n⟩, ⟨b.data.drop n⟩) := by
  simp [sub, h]

theorem pick_eq {b : LittenEndian} (h : 1 ≤ b.size) :
    b.pick = some (leAt b.data 0 1, ⟨b.data.drop 1⟩) := by
  rcases b with ⟨_ | ⟨x, xs⟩⟩
  · simp at h
  · simp [pick, leAt]

end LittenEndian

end Abslw
