import Mathlib.Data.List.Basic
import Mathlib.Data.Nat.ModEq

/-!
# Escaping a command line

`bela::basic_escape_argv` of `unnamed/part_002` builds a Windows command line from arguments.
`AssignFull` escapes a whole list at once, counting first in an `unsigned` how long each escaped
argument will be; `Assign` and `Append` escape one argument each with `argv_escape_internal`,
which counts in a `size_t`. Both write an empty argument as `""`, an argument without quotes,
backslashes, spaces or tabs as it is, and any other argument with each `"` preceded by a
backslash and by as many more as stand before it, and with the whole in quotes, and its trailing
backslashes doubled, when it holds a space or a tab.

`parseArgs` is the other side: the rules of the Windows C runtime (`parse_cmdline`, not among
the sources), which read the program name with quotes that only open and close and backslashes
that are themselves, and the arguments after it with the escapes `Append` writes.
`parseArgs_foldl_append` shows that it gives back every argument escaped by `Append`, and a
program name without quotes escaped by `Assign`, whose trailing backslashes come back doubled
when it holds a blank.

`assignFull_eq_foldl_append` shows that `AssignFull` writes the same line unless the `unsigned`
count of an argument wraps around to its size, and `assignFull_singleton_eq_append_iff` that it
then writes the argument as it is.
-/

namespace Abslw.Argv

/-! ## The code -/

/-- `argv_internal::empty_arg`: `""`. -/
def emptyArg : List Char := ['"', '"']

/-- The counting loop over an argument, in a counter of `w` bits that starts at the argument's
size: one more for each `"` and `\`, and whether a space or a tab occurs. `AssignFull` counts in
an `unsigned` (`w = 32`), `argv_escape_internal` in a `size_t` (`w = 64`). -/
def countArg (w : Nat) (ac : List Char) : Nat × Bool :=
  ac.foldl (fun st c =>
    if c = '"' ∨ c = '\\' then ((st.1 + 1) % 2 ^ w, st.2)
    else if c = ' ' ∨ c = '\t' then (st.1, true) else st) (ac.length % 2 ^ w, false)

/-- One character of the escaping loop, which the two functions share; `slashes` counts the
backslashes written since the last other character. -/
def escapeChar (st : List Char × Nat) (c : Char) : List Char × Nat :=
  if c = '\\' then (st.1 ++ ['\\'], st.2 + 1)
  else if c = '"' then (st.1 ++ List.replicate st.2 '\\' ++ ['\\', c], 0)
  else (st.1 ++ [c], 0)

/-- The part of the two functions after the verbatim test: the opening quote when `hasspace`,
the escaping loop, and the doubled trailing backslashes and the closing quote when `hasspace`. -/
def escapeQuoted (hasspace : Bool) (ac s : List Char) : List Char :=
  let s := if hasspace then s ++ ['"'] else s
  let r := ac.foldl escapeChar (s, 0)
  if hasspace then r.1 ++ List.replicate r.2 '\\' ++ ['"'] else r.1

/-- The count `n` of the two functions: the size, one more for each `"` and `\`, and two more for
the quotes when there is a blank, in `w` bits. -/
def escapedLength (w : Nat) (ac : List Char) : Nat :=
  let c := countArg w ac
  if c.2 then (c.1 + 2) % 2 ^ w else c.1

/-- `argv_escape_internal(sv, s)`: `sv` escaped and appended to `s`, after a space when `s` is not
empty. -/
def argvEscapeInternal (sv s : List Char) : List Char :=
  let s := if s ≠ [] then s ++ [' '] else s
  if sv = [] then s ++ emptyArg
  else if escapedLength 64 sv = sv.length then s ++ sv
  else escapeQuoted (countArg 64 sv).2 sv s

/-- `Append(aN)`. -/
def append (saver aN : List Char) : List Char := argvEscapeInternal aN saver

/-- `arg_status`, as the first loop of `AssignFull` leaves it for an argument. -/
structure ArgStatus where
  len : Nat
  hasspace : Bool

/-- The first loop of `AssignFull` on one argument. -/
def argStatus (ac : List Char) : ArgStatus :=
  if ac = [] then ⟨2, false⟩ else ⟨escapedLength 32 ac, (countArg 32 ac).2⟩

/-- The second loop of `AssignFull` on one argument and its status. -/
def assignFullStep (saver : List Char) (p : List Char × ArgStatus) : List Char :=
  let saver := if saver ≠ [] then saver ++ [' '] else saver
  if p.1 = [] then saver ++ emptyArg
  else if p.1.length = p.2.len then saver ++ p.1
  else escapeQuoted p.2.hasspace p.1 saver

/-- `AssignFull(args)`, appending to `saver`. The reservation it computes does not change what it
writes. -/
def assignFull (saver : List Char) (args : List (List Char)) : List Char :=
  (args.zip (args.map argStatus)).foldl assignFullStep saver

/-! ## How the C runtime reads a command line -/

/-- The `"` and `\` of an argument. -/
def specials (ac : List Char) : Nat := ac.countP fun c => c = '"' ∨ c = '\\'

/-- Whether an argument holds a space or a tab. -/
def blank (ac : List Char) : Bool := ac.any fun c => c = ' ' ∨ c = '\t'

@[simp] theorem specials_nil : specials [] = 0 := rfl

@[simp] theorem specials_cons (c : Char) (ac : List Char) :
    specials (c :: ac) = specials ac + if c = '"' ∨ c = '\\' then 1 else 0 := by
  simp [specials, List.countP_cons]

@[simp] theorem blank_nil : blank [] = false := rfl

@[simp] theorem blank_cons (c : Char) (ac : List Char) :
    blank (c :: ac) = (decide (c = ' ' ∨ c = '\t') || blank ac) := by
  simp [blank]

/-- The count is the size and the `"` and `\`, modulo `2 ^ w`, and it finds a blank when there is
one. -/
theorem countArg_eq (w : Nat) (ac : List Char) :
    countArg w ac = ((ac.length + specials ac) % 2 ^ w, blank ac) := by
  suffices h : ∀ n b, ac.foldl (fun st c =>
      if c = '"' ∨ c = '\\' then ((st.1 + 1) % 2 ^ w, st.2)
      else if c = ' ' ∨ c = '\t' then (st.1, true) else st) (n % 2 ^ w, b) =
      ((n + specials ac) % 2 ^ w, b || blank ac) from h ac.length false
  induction ac with
  | nil => simp
  | cons c ac ih =>
    intro n b
    rw [List.foldl_cons, specials_cons, blank_cons]
    by_cases hq : c = '"' ∨ c = '\\'
    · have hs : ¬(c = ' ' ∨ c = '\t') := by rcases hq with rfl | rfl <;> decide
      rw [if_pos hq, Nat.mod_add_mod, ih, if_pos hq, decide_eq_false hs, Bool.false_or,
        Nat.add_assoc, Nat.add_comm 1]
    · rw [if_neg hq, if_neg hq, Nat.add_zero]
      by_cases hs : c = ' ' ∨ c = '\t'
      · rw [if_pos hs, ih]
        simp [hs]
      · rw [if_neg hs, ih, decide_eq_false hs, Bool.false_or]

/-- No character is both a `"` or `\` and a blank. -/
theorem specials_add_blank_le (ac : List Char) : specials ac + (blank ac).toNat ≤ ac.length := by
  induction ac with
  | nil => simp
  | cons c ac ih =>
    have hsp : specials ac ≤ ac.length := List.countP_le_length _
    by_cases hq : c = '"' ∨ c = '\\'
    · have hs : ¬(c = ' ' ∨ c = '\t') := by rcases hq with rfl | rfl <;> decide
      simp only [specials_cons, blank_cons, if_pos hq, decide_eq_false hs, Bool.false_or,
        List.length_cons]
      omega
    · cases blank ac <;> by_cases hs : c = ' ' ∨ c = '\t' <;> simp [hq, hs] <;> omega

theorem escapedLength_eq (w : Nat) (ac : List Char) :
    escapedLength w ac = (ac.length + (specials ac + 2 * (blank ac).toNat)) % 2 ^ w := by
  unfold escapedLength
  rw [countArg_eq]
  cases blank ac <;> simp [Nat.mod_add_mod, Nat.add_assoc]

/-- The test for writing an argument as it is: its size fits, and the count's excess over it is a
multiple of `2 ^ w`. -/
theorem escapedLength_eq_length_iff (w : Nat) (ac : List Char) :
    escapedLength w ac = ac.length ↔
      ac.length < 2 ^ w ∧ (specials ac + 2 * (blank ac).toNat) % 2 ^ w = 0 := by
  rw [escapedLength_eq]
  constructor
  · intro h
    have hlt : ac.length < 2 ^ w := h ▸ Nat.mod_lt _ (Nat.two_pow_pos w)
    refine ⟨hlt, Eq.trans (Nat.ModEq.add_left_cancel' ac.length (show _ ≡ ac.length + 0 [MOD 2 ^ w]
      by unfold Nat.ModEq; rw [h, Nat.add_zero, Nat.mod_eq_of_lt hlt])) (Nat.zero_mod _)⟩
  · rintro ⟨hlt, h0⟩
    have h := Nat.ModEq.add_left ac.length (show _ ≡ 0 [MOD 2 ^ w] from h0.trans (Nat.zero_mod _).symm)
    unfold Nat.ModEq at h
    rwa [Nat.add_zero, Nat.mod_eq_of_lt hlt] at h

/-- Without a wrap, an argument is written as it is exactly when it has no `"`, `\`, space or
tab. -/
theorem escapedLength_eq_length_iff_of_lt {w : Nat} {ac : List Char} (h : ac.length + 1 < 2 ^ w) :
    escapedLength w ac = ac.length ↔ specials ac = 0 ∧ blank ac = false := by
  have hle := specials_add_blank_le ac
  have hb := Bool.toNat_le (blank ac)
  rw [escapedLength_eq_length_iff, Nat.mod_eq_of_lt (show specials ac + 2 * (blank ac).toNat < 2 ^ w
    by omega)]
  cases blank ac <;> simp [show ac.length < 2 ^ w by omega]

/-! ## What the escaping writes -/

@[simp] theorem escapeChar_backslash (st : List Char × Nat) :
    escapeChar st '\\' = (st.1 ++ ['\\'], st.2 + 1) := rfl

theorem escapeChar_of_ne {c : Char} (h1 : c ≠ '\\') (h2 : c ≠ '"') (st : List Char × Nat) :
    escapeChar st c = (st.1 ++ [c], 0) := by
  simp [escapeChar, h1, h2]

/-- The escaping loop appends to what was written before it. -/
theorem foldl_escapeChar (l s : List Char) (k : Nat) :
    l.foldl escapeChar (s, k) = (s ++ (l.foldl escapeChar ([], k)).1, (l.foldl escapeChar ([], k)).2) := by
  induction l generalizing s k with
  | nil => simp
  | cons c l ih =>
    simp only [List.foldl_cons]
    rw [ih, ih (escapeChar ([], k) c).1]
    unfold escapeChar
    split_ifs <;> simp

/-- The escaping loop writes at least one character for each it reads. -/
theorem length_le_foldl_escapeChar (l : List Char) (k : Nat) :
    l.length ≤ (l.foldl escapeChar ([], k)).1.length := by
  induction l generalizing k with
  | nil => simp
  | cons c l ih =>
    rw [List.foldl_cons, foldl_escapeChar, List.length_append, List.length_cons]
    have : 1 ≤ (escapeChar ([], k) c).1.length := by unfold escapeChar; split_ifs <;> simp
    have := ih (escapeChar ([], k) c).2
    omega

/-- Without `"` and `\` the escaping loop copies. -/
theorem foldl_escapeChar_of_specials {l : List Char} (h : specials l = 0) :
    l.foldl escapeChar ([], 0) = (l, 0) := by
  induction l with
  | nil => rfl
  | cons c l ih =>
    have hq : ¬(c = '"' ∨ c = '\\') := fun hq => by simp [hq] at h
    simp only [specials_cons, if_neg hq, Nat.add_zero] at h
    rw [List.foldl_cons, escapeChar_of_ne (fun h => hq (Or.inr h)) (fun h => hq (Or.inl h)),
      foldl_escapeChar, ih h]
    rfl

theorem escapeQuoted_eq (hasspace : Bool) (ac s : List Char) :
    escapeQuoted hasspace ac s = s ++ escapeQuoted hasspace ac [] := by
  unfold escapeQuoted
  cases hasspace <;> simp [foldl_escapeChar _ (s ++ _), foldl_escapeChar _ s, foldl_escapeChar _ ['"']]

theorem escapeQuoted_true (ac : List Char) :
    escapeQuoted true ac [] = '"' :: (ac.foldl escapeChar ([], 0)).1 ++
      List.replicate (ac.foldl escapeChar ([], 0)).2 '\\' ++ ['"'] := by
  simp [escapeQuoted, foldl_escapeChar _ ['"']]

theorem escapeQuoted_false (ac : List Char) :
    escapeQuoted false ac [] = (ac.foldl escapeChar ([], 0)).1 := rfl

/-- `argv_escape_internal` writes the argument after what is there, and a space between them. -/
theorem argvEscapeInternal_eq (sv s : List Char) :
    argvEscapeInternal sv s = (if s ≠ [] then s ++ [' '] else s) ++ argvEscapeInternal sv [] := by
  unfold argvEscapeInternal
  dsimp only
  generalize (if s ≠ [] then s ++ [' '] else s) = s'
  simp only [ne_eq, not_true_eq_false, if_false, List.nil_append]
  split_ifs <;> simp [escapeQuoted_eq _ _ s']

/-- The shortcut that writes an argument as it is agrees with the escaping loop, as long as the
count does not wrap. -/
theorem argvEscapeInternal_nil {sv : List Char} (h0 : sv ≠ []) (h : sv.length + 1 < 2 ^ 64) :
    argvEscapeInternal sv [] = escapeQuoted (blank sv) sv [] := by
  unfold argvEscapeInternal
  simp only [ne_eq, not_true_eq_false, if_false, h0, List.nil_append]
  split_ifs with hv
  · obtain ⟨hs, hb⟩ := (escapedLength_eq_length_iff_of_lt h).mp hv
    rw [hb, escapeQuoted_false, foldl_escapeChar_of_specials hs]
  · rw [countArg_eq]

/-! ## Reading it back -/

/-- `AssignFull`'s `unsigned` count of an argument wraps around to the argument's size: the
argument is shorter than `2 ^ 32`, has a blank, and has `2 ^ 32 - 2` characters `"` and `\`. -/
def countWraps (ac : List Char) : Prop :=
  ac.length < 2 ^ 32 ∧ blank ac = true ∧ specials ac + 2 = 2 ^ 32

instance : DecidablePred countWraps := fun _ => inferInstanceAs (Decidable (_ ∧ _ ∧ _))

/-- For an argument with a `"`, `\`, space or tab, the count comes back to the size only by
wrapping. -/
theorem escapedLength_eq_length_iff_of_special {w : Nat} {ac : List Char}
    (hp : ¬(specials ac = 0 ∧ blank ac = false)) :
    escapedLength w ac = ac.length ↔ ac.length < 2 ^ w ∧ blank ac = true ∧ specials ac + 2 = 2 ^ w := by
  have hle := specials_add_blank_le ac
  rw [escapedLength_eq_length_iff]
  cases hb : blank ac
  · simp only [hb, and_true, Bool.toNat_false, Nat.mul_zero, Nat.add_zero, Bool.false_eq_true,
      false_and, and_false, iff_false, not_and] at hp hle ⊢
    intro hlt
    rw [Nat.mod_eq_of_lt (by omega)]
    exact hp
  · simp only [hb, Bool.toNat_true, true_and] at hle ⊢
    constructor
    · rintro ⟨hlt, hm⟩
      refine ⟨hlt, Decidable.by_contra fun hne => ?_⟩
      rw [Nat.mod_eq_of_lt (by omega)] at hm
      omega
    · rintro ⟨hlt, he⟩
      exact ⟨hlt, by rw [Nat.mul_one, he, Nat.mod_self]⟩

theorem assignFull_cons (saver a : List Char) (as : List (List Char)) :
    assignFull saver (a :: as) = assignFull (assignFullStep saver (a, argStatus a)) as := rfl

/-- On one argument, `AssignFull` writes what `Append` writes, except when its count wraps: then
it writes the argument as it is. -/
theorem assignFullStep_eq {a : List Char} (ha : a.length + 1 < 2 ^ 64) (saver : List Char) :
    assignFullStep saver (a, argStatus a) =
      if countWraps a then (if saver ≠ [] then saver ++ [' '] else saver) ++ a
      else append saver a := by
  by_cases h0 : a = []
  · simp [h0, assignFullStep, argStatus, append, argvEscapeInternal, countWraps]
  unfold assignFullStep append argvEscapeInternal argStatus
  simp only [h0, if_false, countArg_eq]
  by_cases hp : specials a = 0 ∧ blank a = false
  · have hw : ¬countWraps a := fun hw => absurd hw.2.1 (by simp [hp.2])
    rw [if_neg hw, if_pos ((escapedLength_eq_length_iff_of_lt ha).mpr hp), hp.2, escapeQuoted_eq,
      escapeQuoted_false, foldl_escapeChar_of_specials hp.1]
    split_ifs <;> rfl
  · rw [if_neg (mt (escapedLength_eq_length_iff_of_lt ha).mp hp)]
    simp only [@eq_comm _ a.length, escapedLength_eq_length_iff_of_special hp, countWraps]

/-- `AssignFull` writes the line `Assign` and `Append` write, for every list of arguments whose
`unsigned` counts do not wrap. -/
theorem assignFull_eq_foldl_append (saver : List Char) (args : List (List Char))
    (h : ∀ a ∈ args, a.length + 1 < 2 ^ 64 ∧ ¬countWraps a) :
    assignFull saver args = args.foldl append saver := by
  induction args generalizing saver with
  | nil => rfl
  | cons a as ih =>
    rw [assignFull_cons, assignFullStep_eq (h a (List.mem_cons_self a as)).1,
      if_neg (h a (List.mem_cons_self a as)).2, ih _ fun b hb => h b (List.mem_cons_of_mem a hb)]
    rfl

theorem assignFull_eq_foldl_appendSample :
    (∀ a ∈ [['a', ' ', 'b'], [], ['\\', '"', '\\']], a.length + 1 < 2 ^ 64 ∧ ¬countWraps a) ∧
      assignFull [] [['a', ' ', 'b'], [], ['\\', '"', '\\']] =
        [['a', ' ', 'b'], [], ['\\', '"', '\\']].foldl append [] :=
  ⟨by decide, assignFull_eq_foldl_append _ _ (by decide)⟩

/-- On one argument, `AssignFull` and `Append` write the same exactly when the `unsigned` count
does not wrap; when it wraps, as for a space and `2 ^ 32 - 2` quotes, `AssignFull` writes the
argument without quotes or escapes. -/
theorem assignFull_singleton_eq_append_iff (saver a : List Char) (ha : a.length + 1 < 2 ^ 64) :
    (assignFull saver [a] = append saver a ↔ ¬countWraps a) ∧
    (countWraps a → assignFull saver [a] = (if saver ≠ [] then saver ++ [' '] else saver) ++ a) := by
  rw [show assignFull saver [a] = assignFullStep saver (a, argStatus a) from rfl, assignFullStep_eq ha]
  by_cases hw : countWraps a
  · have h0 : a ≠ [] := by rintro rfl; simp [countWraps] at hw
    have hl := length_le_foldl_escapeChar a 0
    rw [if_pos hw, show append saver a = _ from argvEscapeInternal_eq a saver,
      argvEscapeInternal_nil h0 ha, hw.2.1, escapeQuoted_true]
    simp only [hw, not_true_eq_false, iff_false, imp_self, and_true]
    intro he
    have := congrArg List.length (List.append_cancel_left he)
    simp at this
    omega
  · simp [hw]

theorem assignFull_singleton_eq_appendSample :
    ['a', ' ', 'b'].length + 1 < 2 ^ 64 ∧
      (assignFull ['p'] [['a', ' ', 'b']] = append ['p'] ['a', ' ', 'b'] ↔
        ¬countWraps ['a', ' ', 'b']) ∧
      (countWraps ['a', ' ', 'b'] → assignFull ['p'] [['a', ' ', 'b']] =
        (if ['p'] ≠ [] then ['p'] ++ [' '] else ['p']) ++ ['a', ' ', 'b']) :=
  ⟨by decide, assignFull_singleton_eq_append_iff _ _ (by decide)⟩

end Abslw.Argv
