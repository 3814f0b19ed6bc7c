import Abslw.Endian

/-!
# Reads from a byte source

`File::Read` and `File::ReadFull` of `bela/pe.hpp` call `ReadFile` on the file handle; the
unified copy of the class, and `hazel`'s readers, have the same text. A call asks for a count of
bytes, cast to a `DWORD`, and either fails or delivers between zero and that many bytes.
`ByteSource` is any such handle: a state, a read that fails or delivers at most the bytes asked
for and moves to a new state, and a seek. The results below hold for every source.

`readFullFrom` is the loop of `ReadFull`: while fewer than `len` bytes have come, ask for the
rest; stop at a failed call or at a call that delivers nothing. It terminates because each pass
that goes on brings at least one byte (`termination_by`). `Delivers` is a run of the loop as the
source sees it, and `readFull_eq_ok_iff` shows that `ReadFull` succeeds exactly on a run in which
the source delivers the bytes, which the buffer then holds in order, exactly `len` of them
(`readFull_length`). Two consequences of the code's types: the count is cast to a `DWORD`, so no
read of `2 ^ 32` bytes or more can succeed (`readFullFrom_of_two_pow_le`), and `Read` reports the
count it asked for rather than the count delivered (`read_outlen`). `fileSource` is a regular
file, on which `ReadFull` returns the bytes at the file pointer (`readFull_fileSource`).
-/

namespace Abslw.Pe

/-- A file handle as `ReadFile` sees it: a state, a read that fails or delivers at most the bytes
it is asked for and moves to a new state, and a seek to an absolute position. -/
structure ByteSource (σ : Type) where
  /-- `ReadFile(fd, buffer, n, &dwSize, nullptr)`: `none` when it fails, and otherwise the
  `dwSize` bytes it delivered and the handle's new state. -/
  readFile : σ → Nat → Option (List UInt8 × σ)
  /-- A call delivers at most the bytes it asked for. -/
  readFile_le : ∀ s n bs s', readFile s n = some (bs, s') → bs.length ≤ n
  /-- A seek to an absolute position, `none` when it fails. -/
  seek : σ → Nat → Option σ

/-- What the reads report when they fail. -/
inductive FileError
  /-- `ReadFile` failed: `ReadFile: ` and the system error. -/
  | readFile
  /-- A call delivered nothing before the bytes asked for had come: `ERROR_HANDLE_EOF`. -/
  | endOfFile
  /-- The seek failed. -/
  | seek
  deriving DecidableEq, Repr

/-- The text of each error. -/
def FileError.message : FileError → String
  | .readFile => "ReadFile: "
  | .endOfFile => "Reached the end of the file"
  | .seek => "SetFilePointerEx: "

variable {σ : Type} (src : ByteSource σ)

/-- `File::Read`: one `ReadFile` call for `len` bytes, the count cast to a `DWORD`. On success, the
bytes delivered, the count reported in `outlen`, which is `len`, and the new state. -/
def read (s : σ) (len : Nat) : Except FileError (List UInt8 × Nat × σ) :=
  match src.readFile s (len % 2 ^ 32) with
  | none => .error .readFile
  | some (bs, s') => .ok (bs, len, s')

/-- The loop `while (total < len)` of `File::ReadFull`, once the buffer holds `buf`, whose length is
the code's `total`: ask for the rest, the count cast to a `DWORD`; fail when the call fails or
delivers nothing, and otherwise append what it delivered. -/
def readFullFrom (len : Nat) (buf : List UInt8) (s : σ) : Except FileError (List UInt8 × σ) :=
  if buf.length < len then
    match src.readFile s ((len - buf.length) % 2 ^ 32) with
    | none => .error .readFile
    | some (bs, s') =>
      if bs.length = 0 then .error .endOfFile
      else readFullFrom len (buf ++ bs) s'
  else .ok (buf, s)
termination_by len - buf.length
decreasing_by simp only [List.length_append]; omega

/-- `File::ReadFull`: `len` bytes into an empty buffer, and the handle's state after them. -/
def readFull (s : σ) (len : Nat) : Except FileError (List UInt8 × σ) := readFullFrom src len [] s

/-- `File::ReadAt`: seek to `pos`, then `ReadFull`. -/
def readAt (s : σ) (len pos : Nat) : Except FileError (List UInt8 × σ) :=
  match src.seek s pos with
  | none => .error .seek
  | some s => readFull src s len

/-! ## The loop, case by case -/

variable {src}

/-- With the bytes asked for in the buffer, the loop stops with them. -/
theorem readFullFrom_of_le {len : Nat} {buf : List UInt8} (s : σ) (h : ¬ buf.length < len) :
    readFullFrom src len buf s = .ok (buf, s) := by
  rw [readFullFrom, if_neg h]

/-- A failed call ends the loop with `ReadFile: `. -/
theorem readFullFrom_of_none {len : Nat} {buf : List UInt8} {s : σ} (h : buf.length < len)
    (hr : src.readFile s ((len - buf.length) % 2 ^ 32) = none) :
    readFullFrom src len buf s = .error .readFile := by
  rw [readFullFrom, if_pos h, hr]

/-- A call that delivers nothing ends the loop with `ERROR_HANDLE_EOF`. -/
theorem readFullFrom_of_nil {len : Nat} {buf bs : List UInt8} {s s' : σ} (h : buf.length < len)
    (hr : src.readFile s ((len - buf.length) % 2 ^ 32) = some (bs, s')) (hz : bs.length = 0) :
    readFullFrom src len buf s = .error .endOfFile := by
  rw [readFullFrom, if_pos h, hr]
  exact if_pos hz

/-- A call that delivers bytes appends them, and the loop goes on. -/
theorem readFullFrom_of_some {len : Nat} {buf bs : List UInt8} {s s' : σ} (h : buf.length < len)
    (hr : src.readFile s ((len - buf.length) % 2 ^ 32) = some (bs, s')) (hz : bs.length ≠ 0) :
    readFullFrom src len buf s = readFullFrom src len (buf ++ bs) s' := by
  rw [readFullFrom, if_pos h, hr]
  exact if_neg hz

/-! ## What the loop returns -/

variable (src)

/-- The run of the loop as the source sees it: asked each time for the rest of the `len` bytes,
cast to a `DWORD`, the source delivers `more` after the buffer `buf`, with no failed call and no
empty delivery, and ends in the state `s'`. -/
inductive Delivers (len : Nat) : List UInt8 → σ → List UInt8 → σ → Prop
  /-- The buffer holds the bytes asked for. -/
  | done {buf : List UInt8} {s : σ} : len ≤ buf.length → Delivers len buf s [] s
  /-- A call delivers some bytes, and the run goes on from there. -/
  | next {buf bs more : List UInt8} {s s' s'' : σ} : buf.length < len →
      src.readFile s ((len - buf.length) % 2 ^ 32) = some (bs, s') → bs ≠ [] →
      Delivers len (buf ++ bs) s' more s'' → Delivers len buf s (bs ++ more) s''

variable {src}

/-- The loop succeeds exactly on a run in which the source delivers the rest of the bytes with no
failure and no empty delivery, and the buffer then holds what it delivered, in order. -/
theorem readFullFrom_eq_ok_iff {len : Nat} {buf out : List UInt8} {s s' : σ} :
    readFullFrom src len buf s = .ok (out, s') ↔
      ∃ more, out = buf ++ more ∧ Delivers src len buf s more s' := by
  constructor
  · induction buf, s using readFullFrom.induct src len with
    | case1 buf s h hr => rw [readFullFrom_of_none h hr]; intro h; cases h
    | case2 buf s h bs s₁ hr hz => rw [readFullFrom_of_nil h hr hz]; intro h; cases h
    | case3 buf s h bs s₁ hr hz ih =>
      rw [readFullFrom_of_some h hr hz]
      intro hok
      obtain ⟨more, rfl, hd⟩ := ih hok
      exact ⟨bs ++ more, by rw [List.append_assoc],
        .next h hr (fun h' => hz (by rw [h', List.length_nil])) hd⟩
    | case4 buf s h =>
      rw [readFullFrom_of_le s h]
      intro hok
      cases hok
      exact ⟨[], (List.append_nil _).symm, .done (by omega)⟩
  · rintro ⟨more, rfl, hd⟩
    induction hd with
    | done h => rw [List.append_nil, readFullFrom_of_le _ (by omega)]
    | next h hr hne _ ih =>
      rw [readFullFrom_of_some h hr (by simpa using hne), ih, List.append_assoc]

/-- A run never overfills the buffer: it ends with exactly `len` bytes. -/
theorem Delivers.length_eq {len : Nat} {buf more : List UInt8} {s s' : σ}
    (hd : Delivers src len buf s more s') (hb : buf.length ≤ len) :
    (buf ++ more).length = len := by
  induction hd with
  | done h => simp only [List.append_nil]; omega
  | @next b _ _ _ _ _ h hr _ _ ih =>
    have hle := src.readFile_le _ _ _ _ hr
    have hmod := Nat.mod_le (len - b.length) (2 ^ 32)
    rw [← List.append_assoc]
    exact ih (by simp only [List.length_append]; omega)

/-- `ReadFull` succeeds exactly on a run in which the source delivers the `len` bytes with no
failure and no empty delivery; the buffer then holds exactly `len` bytes, those delivered, in
order. -/
theorem readFull_eq_ok_iff {len : Nat} {buf : List UInt8} {s s' : σ} :
    readFull src s len = .ok (buf, s') ↔ Delivers src len [] s buf s' := by
  rw [readFull, readFullFrom_eq_ok_iff]
  exact ⟨fun ⟨more, h, hd⟩ => by rwa [h, List.nil_append], fun hd => ⟨buf, rfl, hd⟩⟩

/-- A `ReadFull` that succeeds fills exactly `len` bytes. -/
theorem readFull_length {len : Nat} {buf : List UInt8} {s s' : σ}
    (h : readFull src s len = .ok (buf, s')) : buf.length = len := by
  simpa using (readFull_eq_ok_iff.mp h).length_eq (Nat.zero_le _)

/-- `ReadFull` never asks for more than the rest of `len` modulo `2 ^ 32`, so it fails on every
request of `2 ^ 32` bytes or more, whatever the source delivers. -/
theorem readFullFrom_of_two_pow_le {len : Nat} (hlen : 2 ^ 32 ≤ len) :
    ∀ (buf : List UInt8) (s : σ), buf.length ≤ len % 2 ^ 32 →
      ∀ out s', readFullFrom src len buf s ≠ .ok (out, s') := by
  intro buf s
  induction buf, s using readFullFrom.induct src len with
  | case1 buf s h hr => intro _ _ _; rw [readFullFrom_of_none h hr]; exact nofun
  | case2 buf s h bs s₁ hr hz => intro _ _ _; rw [readFullFrom_of_nil h hr hz]; exact nofun
  | case3 buf s h bs s₁ hr hz ih =>
    intro hb out s'
    have hle := src.readFile_le _ _ _ _ hr
    have hmod : (len - buf.length) % 2 ^ 32 = len % 2 ^ 32 - buf.length := by omega
    rw [readFullFrom_of_some h hr hz]
    exact ih (by simp only [List.length_append]; omega) out s'
  | case4 buf s h => intro hb; omega

/-- `ReadAt` succeeds exactly when the seek does and the source then delivers the `len` bytes. -/
theorem readAt_eq_ok_iff {len pos : Nat} {buf : List UInt8} {s s' : σ} :
    readAt src s len pos = .ok (buf, s') ↔
      ∃ s₁, src.seek s pos = some s₁ ∧ Delivers src len [] s₁ buf s' := by
  unfold readAt
  cases src.seek s pos with
  | none => simp
  | some s₁ => simp [readFull_eq_ok_iff]

/-! ## A regular file -/

/-- A regular file of the bytes `f`, its state the file pointer: a read delivers what is left of
the bytes asked for and moves the pointer past them, and a seek to any position succeeds. -/
def fileSource (f : List UInt8) : ByteSource Nat where
  readFile pos n := some ((f.drop pos).take n, pos + ((f.drop pos).take n).length)
  readFile_le _ _ _ _ h := by
    simp only [Option.some.injEq, Prod.mk.injEq] at h
    rw [← h.1, List.length_take]
    exact Nat.min_le_left _ _
  seek _ pos := some pos

/-- On a regular file the seek of `ReadAt` always succeeds. -/
theorem readAt_fileSource (f : List UInt8) (s len pos : Nat) :
    readAt (fileSource f) s len pos = readFull (fileSource f) pos len := rfl

/-- On a regular file, `ReadFull` of fewer than `2 ^ 32` bytes from `pos` returns the bytes there
when the file holds them, and otherwise reaches the end of the file. -/
theorem readFull_fileSource (f : List UInt8) (pos : Nat) {len : Nat} (hlen : len < 2 ^ 32) :
    readFull (fileSource f) pos len =
      if len ≤ f.length - pos then .ok ((f.drop pos).take len, pos + len)
      else .error .endOfFile := by
  have hm : ((f.drop pos).take len).length = min len (f.length - pos) := by
    rw [List.length_take, List.length_drop]
  unfold readFull
  by_cases h0 : len = 0
  · subst h0
    rw [readFullFrom_of_le _ (by simp), if_pos (Nat.zero_le _), List.take_zero, Nat.add_zero]
  have hr : (fileSource f).readFile pos ((len - ([] : List UInt8).length) % 2 ^ 32) =
      some ((f.drop pos).take len, pos + min len (f.length - pos)) := by
    rw [List.length_nil, Nat.sub_zero, Nat.mod_eq_of_lt hlen, ← hm]
    rfl
  by_cases hz : min len (f.length - pos) = 0
  · rw [readFullFrom_of_nil (by rw [List.length_nil]; omega) hr (by omega), if_neg (by omega)]
  rw [readFullFrom_of_some (by rw [List.length_nil]; omega) hr (by omega), List.nil_append]
  by_cases hle : len ≤ f.length - pos
  · rw [readFullFrom_of_le _ (by omega), if_pos hle, min_eq_left hle]
  · have hend : f.length ≤ pos + min len (f.length - pos) := by omega
    have hr₂ : (fileSource f).readFile (pos + min len (f.length - pos))
        ((len - ((f.drop pos).take len).length) % 2 ^ 32) =
        some ([], pos + min len (f.length - pos)) := by
      show some (_, _) = _
      rw [List.drop_eq_nil_of_le hend, List.take_nil]
      rfl
    rw [readFullFrom_of_nil (by omega) hr₂ rfl, if_neg hle]

/-- `readFull_length` on a regular file of three bytes, read two at a time from the start. -/
theorem readFull_length_fileSource :
    readFull (fileSource [1, 2, 3]) 0 2 = .ok ([1, 2], 2) ∧ [(1 : UInt8), 2].length = 2 :=
  have h : readFull (fileSource [1, 2, 3]) 0 2 = .ok ([1, 2], 2) := by
    rw [readFull_fileSource _ _ (by decide)]
    rfl
  ⟨h, readFull_length h⟩

/-- `Read` reports in `outlen` the count it asked for, not the count delivered: on a file of three
bytes, a read of ten from the start delivers the three and reports ten. -/
theorem read_outlen :
    (∀ (s : σ) (len : Nat) (bs : List UInt8) (n : Nat) (s' : σ),
      read src s len = .ok (bs, n, s') → n = len) ∧
    read (fileSource [1, 2, 3]) 0 10 = .ok ([1, 2, 3], 10, 3) := by
  refine ⟨fun s len bs n s' h => ?_, rfl⟩
  unfold read at h
  split at h
  · cases h
  · cases h
    rfl

end Abslw.Pe
