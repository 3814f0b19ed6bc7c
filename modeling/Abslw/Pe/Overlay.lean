import Abslw.Pe.Directory
import Abslw.Pe.Reader

/-!
# The overlay

`File::LookupOverlay` (`unnamed/part_007`) returns the bytes that follow the raw data of every
section. Its loop takes the largest `static_cast<int64_t>(sec.Header.Offset + sec.Header.Size)`,
the sum taken in `uint32_t` before it is widened; it then fails with `ErrNoOverlay` when nothing
follows that point, fails when more follows than `limitsize`, and otherwise seeks there and reads
the rest with `ReadFull`.

`lookupOverlay_eq_ok_iff` says what a success is for every byte source, and
`lookupOverlay_fileSource` what the function returns on a regular file. `overlaySpec` is the
overlay as the format defines it, past the end of every section's raw data as an unbounded
integer; `lookupOverlay_fileSource_eq_spec` shows that the code meets it when no section's raw
data ends past `2 ^ 32` and the limit is below `2 ^ 32`. Both conditions are needed: a section
whose end wraps moves the start back (`lookupOverlay_wrappedSection`), and no overlay of
`2 ^ 32` bytes or more can be read (`lookupOverlay_of_two_pow_le`).
-/

namespace Abslw.Pe

/-- `ErrNoOverlay`. -/
def errNoOverlay : Nat := 0xFF01

/-- `LimitOverlaySize`, the default `limitsize`. -/
def limitOverlaySize : Int := 64 * 1024 * 1024

/-- What `LookupOverlay` reports when it fails. -/
inductive OverlayError
  /-- Nothing follows the sections: `ErrNoOverlay`. -/
  | noOverlay
  /-- More follows than `limitsize`: `ErrGeneral`. -/
  | overLimit
  /-- The seek or the read failed. -/
  | file (e : FileError)
  deriving DecidableEq, Repr

/-- The text of each error. -/
def OverlayError.message : OverlayError → String
  | .noOverlay => "no overlay data"
  | .overLimit => "overlay data size large over limit"
  | .file e => e.message

/-! ## The code -/

/-- `static_cast<int64_t>(sec.Header.Offset + sec.Header.Size)`: the sum is taken in `uint32_t`,
then widened. -/
def sectionEnd (sec : Section) : Nat := (sec.offset + sec.size).val

/-- The loop of `LookupOverlay`: the largest section end, from zero. -/
def overlayStart (sections : List Section) : Nat :=
  sections.foldl
    (fun overlayStart sec => if sectionEnd sec > overlayStart then sectionEnd sec else overlayStart)
    0

variable {σ : Type} (src : ByteSource σ)

/-- `File::LookupOverlay` on a file of `size` bytes. `PositionAt` is the source's seek. -/
def lookupOverlay (s : σ) (sections : List Section) (size : Nat) (limitsize : Int) :
    Except OverlayError (List UInt8) :=
  let overlayLen : Int := size - overlayStart sections
  if overlayLen ≤ 0 then .error .noOverlay
  else if overlayLen > limitsize then .error .overLimit
  else
    match src.seek s (overlayStart sections) with
    | none => .error (.file .seek)
    | some s =>
      match readFull src s overlayLen.toNat with
      | .error e => .error (.file e)
      | .ok (overlayData, _) => .ok overlayData

/-! ## The overlay as the format defines it -/

/-- The end of a section's raw data, as an unbounded integer. -/
def Section.rawEnd (sec : Section) : Nat := sec.offset.val + sec.size.val

/-- The overlay's start: past the raw data of every section, and zero for none. -/
def overlayStartSpec (sections : List Section) : Nat :=
  sections.foldl (fun o sec => max o sec.rawEnd) 0

/-- The overlay of the file `f`: none when nothing follows the sections, an error when more
follows than `limitsize`, and otherwise the `f.length - overlayStartSpec sections` bytes that
start there. -/
def overlaySpec (f : List UInt8) (sections : List Section) (limitsize : Int) :
    Except OverlayError (List UInt8) :=
  if (f.length : Int) - overlayStartSpec sections ≤ 0 then .error .noOverlay
  else if (f.length : Int) - overlayStartSpec sections > limitsize then .error .overLimit
  else .ok ((f.drop (overlayStartSpec sections)).take (f.length - overlayStartSpec sections))

/-- A section whose raw data ends below `2 ^ 32` ends where the code says. -/
theorem sectionEnd_of_rawEnd_lt {sec : Section} (h : sec.rawEnd < 2 ^ 32) :
    sectionEnd sec = sec.rawEnd := by
  rw [sectionEnd, Fin.val_add]
  exact Nat.mod_eq_of_lt h

/-- The loop finds the format's start when no section's raw data ends past `2 ^ 32`. -/
theorem overlayStart_eq_spec {sections : List Section} (h : ∀ sec ∈ sections, sec.rawEnd < 2 ^ 32) :
    overlayStart sections = overlayStartSpec sections :=
  List.foldl_ext _ _ _ fun o sec hsec => by
    rw [sectionEnd_of_rawEnd_lt (h sec hsec)]
    split <;> omega

/-! ## What the code returns -/

variable {src} {s : σ} {sections : List Section} {size : Nat} {limitsize : Int}

/-- With nothing past the sections, `ErrNoOverlay`. -/
theorem lookupOverlay_of_nonpos (h : (size : Int) - overlayStart sections ≤ 0) :
    lookupOverlay src s sections size limitsize = .error .noOverlay :=
  if_pos h

/-- With more past the sections than `limitsize`, the limit error. -/
theorem lookupOverlay_of_limit_lt (h0 : 0 < (size : Int) - overlayStart sections)
    (h : limitsize < (size : Int) - overlayStart sections) :
    lookupOverlay src s sections size limitsize = .error .overLimit := by
  dsimp only [lookupOverlay]
  rw [if_neg (by omega), if_pos h]

/-- Past its two tests, `LookupOverlay` is `ReadAt` of the overlay. -/
theorem lookupOverlay_of_le_limit (h0 : 0 < (size : Int) - overlayStart sections)
    (hl : (size : Int) - overlayStart sections ≤ limitsize) :
    lookupOverlay src s sections size limitsize =
      match readAt src s (size - overlayStart sections) (overlayStart sections) with
      | .error e => .error (.file e)
      | .ok (overlayData, _) => .ok overlayData := by
  dsimp only [lookupOverlay]
  rw [if_neg (by omega), if_neg (by omega), readAt,
    show ((size : Int) - overlayStart sections).toNat = size - overlayStart sections by omega]
  cases src.seek s (overlayStart sections) <;> rfl

/-- For every byte source, `LookupOverlay` succeeds exactly when something follows the sections,
no more than `limitsize`, and the seek succeeds and the source then delivers the overlay, which is
what it returns. -/
theorem lookupOverlay_eq_ok_iff {data : List UInt8} :
    lookupOverlay src s sections size limitsize = .ok data ↔
      0 < (size : Int) - overlayStart sections ∧ (size : Int) - overlayStart sections ≤ limitsize ∧
      ∃ s₁ s₂, src.seek s (overlayStart sections) = some s₁ ∧
        Delivers src (size - overlayStart sections) [] s₁ data s₂ := by
  by_cases h0 : (size : Int) - overlayStart sections ≤ 0
  · rw [lookupOverlay_of_nonpos h0]; simp only [reduceCtorEq, false_iff]; omega
  by_cases hl : limitsize < (size : Int) - overlayStart sections
  · rw [lookupOverlay_of_limit_lt (by omega) hl]; simp only [reduceCtorEq, false_iff]; omega
  rw [lookupOverlay_of_le_limit (by omega) (by omega)]
  rcases hr : readAt src s (size - overlayStart sections) (overlayStart sections) with e | ⟨out, s₂⟩
  · simp only [reduceCtorEq, false_iff, not_and, not_exists]
    intro _ _ s₁ s₂ hs hd
    cases hr.symm.trans (readAt_eq_ok_iff.mpr ⟨s₁, hs, hd⟩)
  · obtain ⟨s₁, hs, hd⟩ := readAt_eq_ok_iff.mp hr
    simp only [Except.ok.injEq]
    constructor
    · rintro rfl; exact ⟨by omega, by omega, s₁, s₂, hs, hd⟩
    · rintro ⟨-, -, s₁', s₂', hs', hd'⟩
      exact (Prod.mk.inj (Except.ok.inj (hr.symm.trans (readAt_eq_ok_iff.mpr ⟨s₁', hs', hd'⟩)))).1

/-- No overlay of `2 ^ 32` bytes or more is returned, whatever the limit and the source. -/
theorem lookupOverlay_of_two_pow_le (h : 2 ^ 32 ≤ (size : Int) - overlayStart sections)
    (data : List UInt8) : lookupOverlay src s sections size limitsize ≠ .ok data := by
  intro hok
  obtain ⟨-, -, s₁, s₂, -, hd⟩ := lookupOverlay_eq_ok_iff.mp hok
  exact readFullFrom_of_two_pow_le (by omega) [] s₁ (Nat.zero_le _) data s₂
    (readFull_eq_ok_iff.mpr hd)

/-- A file declared to hold `2 ^ 32` bytes and no sections has no overlay that can be read, even
under a limit that lets it through. -/
theorem lookupOverlay_of_two_pow_le_sample :
    2 ^ 32 ≤ ((2 ^ 32 : Nat) : Int) - overlayStart [] ∧
    lookupOverlay (fileSource []) 0 [] (2 ^ 32) (2 ^ 33) ≠ .ok [] :=
  have h : 2 ^ 32 ≤ ((2 ^ 32 : Nat) : Int) - overlayStart [] := by decide
  ⟨h, lookupOverlay_of_two_pow_le h []⟩

/-- On a regular file, with a limit below `2 ^ 32`, `LookupOverlay` returns the bytes past the
start the loop computed. -/
theorem lookupOverlay_fileSource (f : List UInt8) (pos : Nat) (sections : List Section)
    (hlim : limitsize < 2 ^ 32) :
    lookupOverlay (fileSource f) pos sections f.length limitsize =
      if (f.length : Int) - overlayStart sections ≤ 0 then .error .noOverlay
      else if (f.length : Int) - overlayStart sections > limitsize then .error .overLimit
      else .ok (f.drop (overlayStart sections)) := by
  by_cases h0 : (f.length : Int) - overlayStart sections ≤ 0
  · rw [lookupOverlay_of_nonpos h0, if_pos h0]
  by_cases hl : limitsize < (f.length : Int) - overlayStart sections
  · rw [lookupOverlay_of_limit_lt (by omega) hl, if_neg h0, if_pos hl]
  rw [lookupOverlay_of_le_limit (by omega) (by omega), if_neg h0, if_neg hl, readAt_fileSource,
    readFull_fileSource f _ (by omega), if_pos le_rfl,
    List.take_of_length_le (by rw [List.length_drop])]

/-- On a regular file, with no section whose raw data ends past `2 ^ 32` and a limit below
`2 ^ 32`, `LookupOverlay` returns the overlay as the format defines it. -/
theorem lookupOverlay_fileSource_eq_spec (f : List UInt8) (pos : Nat)
    (hsec : ∀ sec ∈ sections, sec.rawEnd < 2 ^ 32) (hlim : limitsize < 2 ^ 32) :
    lookupOverlay (fileSource f) pos sections f.length limitsize = overlaySpec f sections limitsize := by
  rw [lookupOverlay_fileSource f pos sections hlim, overlaySpec, overlayStart_eq_spec hsec,
    List.take_of_length_le (by rw [List.length_drop])]

/-- A file of ten bytes. -/
def tenBytes : List UInt8 := [0, 1, 2, 3, 4, 5, 6, 7, 8, 9]

/-- A section whose raw data is the four bytes from offset 2. -/
def headSection : Section := ⟨".head", 0x10, 0x1000, 4, 2⟩

/-- On ten bytes after `headSection`, the code returns the format's overlay. -/
theorem lookupOverlay_headSection :
    (∀ sec ∈ [headSection], sec.rawEnd < 2 ^ 32) ∧ limitOverlaySize < 2 ^ 32 ∧
    lookupOverlay (fileSource tenBytes) 0 [headSection] tenBytes.length limitOverlaySize =
      overlaySpec tenBytes [headSection] limitOverlaySize :=
  have hsec : ∀ sec ∈ [headSection], sec.rawEnd < 2 ^ 32 := by decide
  have hlim : limitOverlaySize < 2 ^ 32 := by decide
  ⟨hsec, hlim, lookupOverlay_fileSource_eq_spec tenBytes 0 hsec hlim⟩

/-- A section whose raw data starts at `0xFFFFFFFF` and holds two bytes. -/
def wrappedSection : Section := ⟨".wrap", 0x10, 0x1000, 2, 0xFFFFFFFF⟩

/-- The raw data of `wrappedSection` ends past any file of ten bytes, so the format gives no
overlay; the code's end wraps to one, and it returns nine of the ten bytes. -/
theorem lookupOverlay_wrappedSection :
    overlaySpec tenBytes [wrappedSection] limitOverlaySize = .error .noOverlay ∧
    lookupOverlay (fileSource tenBytes) 0 [wrappedSection] tenBytes.length limitOverlaySize =
      .ok (tenBytes.drop 1) := by
  refine ⟨by decide, ?_⟩
  rw [lookupOverlay_fileSource _ _ _ (by decide)]
  rfl

end Abslw.Pe
