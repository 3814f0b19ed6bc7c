import Abslw.Endian

/-!
# Splitting the string table

`File::SplitStringTable` of `bela/pe.hpp`, and its copy for the unified header, cuts the string
table into the strings it holds: it finds the next NUL byte, appends the bytes before it to the
output and drops them with the NUL, and at the end appends what is left when it is not empty.
`splitStringTable` terminates, as every pass drops at least the NUL it found, and
`splitStringTable_pieces` shows that it loses and duplicates nothing: the strings it appends hold
no NUL, there are none only for an empty table, and joined with NULs, with one more NUL when the
table ends with one, they give the table back.
-/

namespace Abslw.Pe

/-- `std::string_view::find(c)`: the position of the first `c`, or `none` for `npos`. -/
def find : List UInt8 → UInt8 → Option Nat
  | [], _ => none
  | x :: sv, c => if x = c then some 0 else (find sv c).map (· + 1)

/-- `find` fails only when `c` is absent. -/
theorem find_eq_none {c : UInt8} : ∀ {sv : List UInt8}, find sv c = none ↔ c ∉ sv
  | [] => by simp [find]
  | x :: sv => by
    by_cases hx : x = c
    · simp [find, hx]
    · simp [find, hx, find_eq_none, Ne.symm hx]

/-- `find` returns the position of the first `c`: none before it, and `c` there. -/
theorem find_eq_some {c : UInt8} : ∀ {sv : List UInt8} {p : Nat}, find sv c = some p →
    c ∉ sv.take p ∧ sv = sv.take p ++ c :: sv.drop (p + 1)
  | [], _, h => by cases h
  | x :: sv, p, h => by
    unfold find at h
    split at h
    · cases h
      subst x
      simp
    · obtain ⟨q, hq, rfl⟩ := Option.map_eq_some'.mp h
      obtain ⟨hnot, heq⟩ := find_eq_some hq
      refine ⟨by simp [hnot, Ne.symm ‹¬x = c›], ?_⟩
      simp only [List.take_succ_cons, List.drop_succ_cons, List.cons_append]
      rw [← heq]

/-- The position `find` returns lies in the string. -/
theorem find_lt {sv : List UInt8} {c : UInt8} {p : Nat} (h : find sv c = some p) : p < sv.length := by
  have hlen := congrArg List.length (find_eq_some h).2
  simp only [List.length_append, List.length_take, List.length_cons, List.length_drop] at hlen
  omega

/-- `File::SplitStringTable`: the strings of the table `sv`, appended to `sa`. -/
def splitStringTable (sa : List (List UInt8)) (sv : List UInt8) : List (List UInt8) :=
  match h : find sv 0 with
  | none => if sv.length ≠ 0 then sa ++ [sv] else sa
  | some p => splitStringTable (sa ++ [sv.take p]) (sv.drop (p + 1))
termination_by sv.length
decreasing_by simp only [List.length_drop]; have := find_lt h; omega

/-- Without a NUL, the table is appended when it is not empty. -/
theorem splitStringTable_of_none {sa : List (List UInt8)} {sv : List UInt8} (h : find sv 0 = none) :
    splitStringTable sa sv = if sv.length ≠ 0 then sa ++ [sv] else sa := by
  rw [splitStringTable]
  split <;> simp_all

/-- At a NUL, the bytes before it are appended, and the split goes on past it. -/
theorem splitStringTable_of_some {sa : List (List UInt8)} {sv : List UInt8} {p : Nat}
    (h : find sv 0 = some p) :
    splitStringTable sa sv = splitStringTable (sa ++ [sv.take p]) (sv.drop (p + 1)) := by
  rw [splitStringTable]
  split <;> simp_all

/-- The round trip's step: a piece and a NUL in front of a table joined back from its pieces. -/
theorem join_cons {a rest : List UInt8} {ps : List (List UInt8)} (hnil : ps = [] ↔ rest = [])
    (hjoin : [0].intercalate ps ++ (if rest.getLast? = some 0 then [0] else []) = rest) :
    [0].intercalate (a :: ps) ++ (if (a ++ 0 :: rest).getLast? = some 0 then [0] else []) =
      a ++ 0 :: rest := by
  cases ps with
  | nil =>
    obtain rfl : rest = [] := hnil.mp rfl
    simp [List.intercalate]
  | cons q qs =>
    obtain ⟨y, ys, rfl⟩ := List.exists_cons_of_ne_nil fun h => List.cons_ne_nil q qs (hnil.mpr h)
    have hlast : (a ++ 0 :: y :: ys).getLast? = (y :: ys).getLast? := by
      rw [List.getLast?_append_cons, List.getLast?_cons_cons]
    rw [hlast]
    conv_rhs => rw [← hjoin]
    simp [List.intercalate, List.intersperse_cons_cons]

/-- The split loses and duplicates nothing: it appends to `sa` strings without a NUL, none only
for an empty table, which joined with NULs, and a NUL more when the table ends with one, give the
table back. -/
theorem splitStringTable_pieces (sa : List (List UInt8)) (s : List UInt8) :
    ∃ ps, splitStringTable sa s = sa ++ ps ∧ (∀ p ∈ ps, (0 : UInt8) ∉ p) ∧ (ps = [] ↔ s = []) ∧
      [0].intercalate ps ++ (if s.getLast? = some 0 then [0] else []) = s := by
  induction sa, s using splitStringTable.induct with
  | case1 sa sv hn hl =>
    have hnot := find_eq_none.mp hn
    have hlast : sv.getLast? ≠ some 0 := fun h => hnot (List.mem_of_getLast?_eq_some h)
    refine ⟨[sv], by rw [splitStringTable_of_none hn, if_pos hl], by simpa using hnot, ?_, ?_⟩
    · simpa using hl
    · simp [List.intercalate, hlast]
  | case2 sa sv hn hl =>
    obtain rfl : sv = [] := List.eq_nil_of_length_eq_zero (by simpa using hl)
    exact ⟨[], by rw [splitStringTable_of_none hn, if_neg hl, List.append_nil], by simp, by simp, rfl⟩
  | case3 sa sv p hp ih =>
    obtain ⟨ps, hres, hnul, hnil, hjoin⟩ := ih
    obtain ⟨hnot, hsv⟩ := find_eq_some hp
    refine ⟨sv.take p :: ps, by rw [splitStringTable_of_some hp, hres, List.append_assoc]; rfl,
      ?_, ?_, ?_⟩
    · simpa [hnot] using hnul
    · simp only [List.cons_ne_nil, false_iff]
      intro h
      rw [h] at hsv
      simp at hsv
    · have hj := @join_cons (sv.take p) (sv.drop (p + 1)) ps hnil hjoin
      rwa [← hsv] at hj

end Abslw.Pe
