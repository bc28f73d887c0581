import Mathlib.Data.List.Basic
import Mathlib.Data.List.TakeWhile

/-!
# C strings in a buffer

A buffer is the list of its characters and a pointer an offset into it, so that the functions that
cut a string in place are functions of the buffer. The string at a pointer ends before the first 0
behind it. The lemmas are about a buffer written as `pre ++ s ++ 0 :: post`: the string `s` stands
behind `pre`.
-/

namespace CString
variable {α : Type u} [Zero α] [DecidableEq α]

/-- The string at `p`. -/
def str (buf : List α) (p : Nat) : List α := (buf.drop p).takeWhile (· ≠ 0)

/-- What `strsep` returns: the token, the pointer it leaves behind, and the buffer. -/
structure Cut (α : Type u) where
  token : Option Nat
  rest : Option Nat
  buf : List α

/-- `strsep(&p, delim)` for one delimiter, which it overwrites. -/
def strsep (delim : α) (buf : List α) : Option Nat → Cut α
  | none => ⟨none, none, buf⟩
  | some p =>
    if delim ∈ str buf p then
      let i := p + (str buf p).idxOf delim
      ⟨some p, some (i + 1), buf.set i 0⟩
    else ⟨some p, none, buf⟩

/-- What is left to cut at `p`: nothing once the pointer is NULL. -/
def left (buf : List α) : Option Nat → Nat
  | none => 0
  | some p => buf.length - p + 1

/-- `strrchr(p, c)`: the last occurrence in the string at `p`. -/
def strrchr (buf : List α) (p : Nat) (c : α) : Option Nat :=
  if c ∈ str buf p then some (p + ((str buf p).length - 1 - (str buf p).reverse.idxOf c)) else none

/-- `strlen`: if there is no 0 in the buffer it goes on behind it, up to the first 0 there, `behind`
characters later. -/
def strlen (behind : Nat) (buf : List α) : Nat :=
  if 0 ∈ buf then (str buf 0).length else buf.length + behind

/-- Write the string `s` with its 0 at `p`; `none` if that goes beyond the end of the buffer. -/
def put (buf : List α) (p : Nat) (s : List α) : Option (List α) :=
  if p + s.length < buf.length then
    some (buf.take p ++ (s ++ 0 :: buf.drop (p + s.length + 1)))
  else none

/-- The string `s` in a zeroed buffer of `n` characters. -/
def padded (n : Nat) (s : List α) : List α := s ++ List.replicate (n - s.length) 0

variable {buf pre s t post : List α} {delim c : α} {p n : Nat}

theorem takeWhile_eq_iff : (s ++ 0 :: post).takeWhile (· ≠ 0) = s ↔ 0 ∉ s := by
  constructor
  · intro h hmem
    rw [← h] at hmem
    simpa using List.mem_takeWhile_imp hmem
  · intro h
    have hpos : ∀ a ∈ s, decide (a ≠ 0) = true := by
      intro a ha
      simp only [decide_eq_true_eq]
      rintro rfl
      exact h ha
    rw [List.takeWhile_append_of_pos hpos]
    simp

/-- A `NUL` behind a text ends it, if there is none before. -/
theorem takeWhile_append_zero : (s ++ 0 :: post).takeWhile (· ≠ 0) = s.takeWhile (· ≠ 0) := by
  induction s with
  | nil => simp
  | cons a s ih => by_cases ha : a = 0 <;> simp_all

theorem str_append (hs : 0 ∉ s) : str (pre ++ (s ++ 0 :: post)) pre.length = s := by
  rw [str, List.drop_left]
  exact takeWhile_eq_iff.mpr hs

omit [Zero α] [DecidableEq α] in
theorem getElem?_last (hs : s ≠ []) :
    (pre ++ (s ++ t))[pre.length + s.length - 1]? = s.getLast? := by
  have hpos : 0 < s.length := List.length_pos_iff.mpr hs
  rw [Nat.add_sub_assoc hpos, List.getElem?_append_right (Nat.le_add_right ..),
    Nat.add_sub_cancel_left, List.getElem?_append_left (Nat.sub_one_lt_of_lt hpos),
    List.getLast?_eq_getElem?]

theorem str_set_of_lt {i : Nat} (h : i < p) (a : α) : str (buf.set i a) p = str buf p := by
  rw [str, str, List.drop_set_of_lt h]

/-- The delimiter is cut out, and the rest is a string of its own. -/
theorem strsep_append (hs : 0 ∉ s) (hd : delim ∉ s) (hd0 : delim ≠ 0) (ht : 0 ∉ t) :
    strsep delim (pre ++ (s ++ delim :: (t ++ 0 :: post))) (some pre.length) =
      ⟨some pre.length, some (pre.length + s.length + 1), pre ++ (s ++ 0 :: (t ++ 0 :: post))⟩ := by
  have hstr : str (pre ++ (s ++ delim :: (t ++ 0 :: post))) pre.length = s ++ delim :: t := by
    have hnul : 0 ∉ s ++ delim :: t := by simp [hs, ht, Ne.symm hd0]
    have h : str (pre ++ (s ++ delim :: t ++ 0 :: post)) pre.length = s ++ delim :: t :=
      str_append hnul
    simpa using h
  have hidx : (s ++ delim :: t).idxOf delim = s.length := by
    rw [List.idxOf_append_of_notMem hd, List.idxOf_cons_self, Nat.add_zero]
  simp only [strsep, hstr, hidx]
  rw [if_pos (by simp)]
  simp

theorem strsep_last (hs : 0 ∉ s) (hd : delim ∉ s) :
    strsep delim (pre ++ (s ++ 0 :: post)) (some pre.length) =
      ⟨some pre.length, none, pre ++ (s ++ 0 :: post)⟩ := by
  simp only [strsep, str_append hs]
  rw [if_neg hd]

/-- Each token that is cut leaves less. -/
theorem left_strsep_lt {opts : Option Nat} (h : (strsep delim buf opts).token = some p) :
    left (strsep delim buf opts).buf (strsep delim buf opts).rest < left buf opts := by
  cases opts with
  | none => cases h
  | some q =>
    simp only [strsep]
    split_ifs with hmem
    · have hidx : (str buf q).idxOf delim < (str buf q).length := List.idxOf_lt_length_iff.mpr hmem
      have hlen : (str buf q).length ≤ buf.length - q := by
        rw [← List.length_drop]
        exact (List.takeWhile_sublist _).length_le
      simp only [left, List.length_set]
      omega
    · exact Nat.succ_pos _

omit [Zero α] in
/-- A text is one token, or a token, the delimiter and a text. -/
@[elab_as_elim]
theorem sep_induction {P : List α → Prop} (d : α) (s : List α) (last : ∀ s, d ∉ s → P s)
    (cut : ∀ t s, d ∉ t → P s → P (t ++ d :: s)) : P s := by
  induction hlen : s.length using Nat.strong_induction_on generalizing s with
  | _ n ih =>
    by_cases hmem : d ∈ s
    · obtain ⟨t, rest, rfl, ht⟩ := List.eq_append_cons_of_mem hmem
      exact cut t rest ht (ih rest.length (by simp at hlen; omega) rest rfl)
    · exact last s hmem

theorem strrchr_of_notMem (hs : 0 ∉ s) (hc : c ∉ s) :
    strrchr (pre ++ (s ++ 0 :: post)) pre.length c = none := by
  rw [strrchr, str_append hs, if_neg hc]

theorem strrchr_append (hs : 0 ∉ s) (ht : 0 ∉ t) (hc0 : c ≠ 0) (hc : c ∉ t) :
    strrchr (pre ++ ((s ++ c :: t) ++ 0 :: post)) pre.length c = some (pre.length + s.length) := by
  have hnul : 0 ∉ s ++ c :: t := by simp [hs, ht, Ne.symm hc0]
  have hidx : (s ++ c :: t).reverse.idxOf c = t.length := by
    rw [List.reverse_append, List.reverse_cons, List.append_assoc,
      List.idxOf_append_of_notMem (by simpa using hc)]
    simp
  rw [strrchr, str_append hnul, if_pos (by simp), hidx]
  simp only [List.length_append, List.length_cons]
  congr 1
  omega

/-! ## Appending to the string in a zeroed buffer -/

omit [DecidableEq α] in
theorem padded_eq (h : s.length < n) :
    padded n s = s ++ 0 :: List.replicate (n - s.length - 1) 0 := by
  rw [padded, ← List.replicate_succ]
  congr 2
  omega

theorem str_padded (hs : 0 ∉ s) (h : s.length < n) : str (padded n s) 0 = s := by
  have hstr : str ([] ++ (s ++ 0 :: List.replicate (n - s.length - 1) 0)) 0 = s := str_append hs
  rwa [List.nil_append, ← padded_eq h] at hstr

theorem strlen_padded {behind : Nat} (hs : 0 ∉ s) (h : s.length < n) :
    strlen behind (padded n s) = s.length := by
  have hmem : 0 ∈ padded n s := by simp [padded_eq h]
  rw [strlen, if_pos hmem, str_padded hs h]

omit [DecidableEq α] in
theorem length_padded (h : s.length ≤ n) : (padded n s).length = n := by
  rw [padded, List.length_append, List.length_replicate]
  omega

omit [DecidableEq α] in
theorem put_padded (h : s.length + t.length < n) :
    put (padded n s) s.length t = some (padded n (s ++ t)) := by
  have hst : (s ++ t).length < n := by rwa [List.length_append]
  have hdrop : (padded n s).drop (s.length + t.length + 1) =
      List.replicate (n - (s ++ t).length - 1) 0 := by
    have hnil : s.drop (s.length + (t.length + 1)) = [] := List.drop_eq_nil_of_le (by omega)
    rw [padded, Nat.add_assoc, List.drop_append, hnil, List.nil_append, List.drop_replicate,
      List.length_append]
    congr 1
    omega
  rw [put, length_padded (by omega), if_pos h, hdrop, padded_eq hst, padded, List.take_left,
    List.append_assoc]

omit [DecidableEq α] in
theorem put_eq_none (h : buf.length ≤ p + s.length) : put buf p s = none := by
  rw [put, if_neg (by omega)]

end CString
