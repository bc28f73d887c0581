import Mathlib.Data.Nat.Digits.Lemmas

/-!
# Numerals

Numbers as text in a base up to 16: `print` writes a number without leading zeros, `read` reads a
text that is a numeral as a whole, and `scan` the numeral that a text starts with. `hex` writes
bytes, two digits each.
-/

namespace Numeral

def digitChar (d : Nat) : UInt8 := if d < 10 then .ofNat (48 + d) else .ofNat (87 + d)

/-- The value of a digit, a letter of either case. -/
def digitVal (b : Nat) (c : UInt8) : Option Nat :=
  let v :=
    if 48 ≤ c ∧ c ≤ 57 then c.toNat - 48
    else if 97 ≤ c ∧ c ≤ 102 then c.toNat - 87
    else if 65 ≤ c ∧ c ≤ 70 then c.toNat - 55
    else b
  if v < b then some v else none

def print (b n : Nat) : List UInt8 :=
  if n = 0 then [48] else (Nat.digits b n).reverse.map digitChar

/-- With leading zeros, up to a width of `w`. -/
def printPad (b w n : Nat) : List UInt8 := (print b n).leftpad w 48

def hex (bs : List UInt8) : List UInt8 :=
  bs.flatMap fun b => [digitChar (b.toNat / 16), digitChar (b.toNat % 16)]

def read (b : Nat) (s : List UInt8) : Option Nat :=
  if s = [] then none else (s.mapM (digitVal b)).map fun ds => Nat.ofDigits b ds.reverse

def scan (b : Nat) (s : List UInt8) : Option Nat :=
  read b (s.takeWhile fun c => (digitVal b c).isSome)

/-- An integer, with its sign if it is negative. -/
def printInt (i : Int) : List UInt8 :=
  if i < 0 then 45 :: print 10 i.natAbs else print 10 i.natAbs

def scanInt (s : List UInt8) : Option Int :=
  match s with
  | 45 :: s => (scan 10 s).map fun n : Nat => -(n : Int)
  | 43 :: s => (scan 10 s).map Int.ofNat
  | s => (scan 10 s).map Int.ofNat

variable {b n : Nat}

theorem digitVal_digitChar {d : Nat} (hb : b ≤ 16) (hd : d < b) :
    digitVal b (digitChar d) = some d := by
  have h : ∀ d < 16, ∀ b ≤ 16, d < b → digitVal b (digitChar d) = some d := by decide
  exact h d (by omega) b hb hd

theorem mapM_digitVal {ds : List Nat} (hb : b ≤ 16) (h : ∀ d ∈ ds, d < b) :
    (ds.map digitChar).mapM (digitVal b) = some ds := by
  induction ds with
  | nil => rfl
  | cons d ds ih =>
    rw [List.map_cons, List.mapM_cons, digitVal_digitChar hb (h d (by simp)),
      ih fun d hd => h d (by simp [hd])]
    rfl

theorem print_ne_nil : print b n ≠ [] := by
  rw [print]
  split_ifs with h
  · simp
  · simpa [Nat.digits_eq_nil_iff_eq_zero] using h

theorem exists_print (hb : 1 < b) :
    ∃ ds : List Nat, print b n = ds.map digitChar ∧ (∀ d ∈ ds, d < b) ∧
      Nat.ofDigits b ds.reverse = n := by
  rw [print]
  split_ifs with h
  · exact ⟨[0], rfl, by simp; omega, by simp [h]⟩
  · refine ⟨(Nat.digits b n).reverse, rfl, fun d hd => ?_, ?_⟩
    · exact Nat.digits_lt_base hb (List.mem_reverse.mp hd)
    · rw [List.reverse_reverse, Nat.ofDigits_digits]

theorem read_print (hb : 1 < b) (hb' : b ≤ 16) : read b (print b n) = some n := by
  obtain ⟨ds, hprint, hds, hn⟩ := exists_print (b := b) (n := n) hb
  rw [read, if_neg print_ne_nil, hprint, mapM_digitVal hb' hds, Option.map_some, hn]

theorem digitVal_of_mem_print {c : UInt8} (hb : 1 < b) (hb' : b ≤ 16) (hc : c ∈ print b n) :
    (digitVal b c).isSome = true := by
  obtain ⟨ds, hprint, hds, -⟩ := exists_print (b := b) (n := n) hb
  rw [hprint] at hc
  obtain ⟨d, hd, rfl⟩ := List.mem_map.mp hc
  rw [digitVal_digitChar hb' (hds d hd)]
  rfl

/-- A numeral is read up to the first character that is no digit. -/
theorem scan_print_append {c : UInt8} {rest : List UInt8} (hb : 1 < b) (hb' : b ≤ 16)
    (hc : digitVal b c = none) : scan b (print b n ++ c :: rest) = some n := by
  rw [scan, List.takeWhile_append_of_pos fun _ => digitVal_of_mem_print hb hb',
    List.takeWhile_cons_of_neg (by simp [hc]), List.append_nil, read_print hb hb']

theorem scanInt_of_ne {c : UInt8} {s : List UInt8} (h : c ≠ 45) (h' : c ≠ 43) :
    scanInt (c :: s) = (scan 10 (c :: s)).map Int.ofNat := by
  rw [scanInt]
  · intro t ht
    exact h (List.cons.inj ht).1
  · intro t ht
    exact h' (List.cons.inj ht).1

theorem scanInt_printInt_append (i : Int) {c : UInt8} {rest : List UInt8}
    (hc : digitVal 10 c = none) : scanInt (printInt i ++ c :: rest) = some i := by
  rw [printInt]
  split_ifs with hi
  · rw [List.cons_append, scanInt, scan_print_append (by decide) (by decide) hc, Option.map_some]
    congr 1
    omega
  · obtain ⟨d, s, hprint⟩ := List.exists_cons_of_ne_nil (print_ne_nil (b := 10) (n := i.natAbs))
    have hdigit : (digitVal 10 d).isSome = true :=
      digitVal_of_mem_print (n := i.natAbs) (by decide) (by decide) (by simp [hprint])
    have hminus : d ≠ 45 := by
      rintro rfl
      exact absurd hdigit (by decide)
    have hplus : d ≠ 43 := by
      rintro rfl
      exact absurd hdigit (by decide)
    have hscan : scan 10 (print 10 i.natAbs ++ c :: rest) = some i.natAbs :=
      scan_print_append (by decide) (by decide) hc
    rw [hprint, List.cons_append] at hscan ⊢
    rw [scanInt_of_ne hminus hplus, hscan, Option.map_some]
    exact congrArg some (Int.natAbs_of_nonneg (not_lt.mp hi))

theorem length_print_le {k : Nat} (hb : 1 < b) (hk : 0 < k) (hn : n < b ^ k) :
    (print b n).length ≤ k := by
  rw [print]
  split_ifs with h
  · exact hk
  · rw [List.length_map, List.length_reverse]
    exact (Nat.digits_length_le_iff hb n).mpr hn

theorem printInt_ne_nil (i : Int) : printInt i ≠ [] := by
  rw [printInt]
  split_ifs
  · exact List.cons_ne_nil _ _
  · exact print_ne_nil

theorem length_printInt_le {k : Nat} {i : Int} (hk : 0 < k) (hi : i.natAbs < 10 ^ k) :
    (printInt i).length ≤ k + 1 := by
  have hlen := length_print_le (by decide) hk hi
  rw [printInt]
  split_ifs
  · exact Nat.succ_le_succ hlen
  · exact Nat.le_succ_of_le hlen

/-! ## Two digits a byte -/

theorem printPad_two (hb : 1 < b) (hn : n < b * b) :
    printPad b 2 n = [digitChar (n / b), digitChar (n % b)] := by
  rw [printPad, print]
  split_ifs with h
  · subst h
    simp [digitChar]
  by_cases hlt : n < b
  · rw [Nat.digits_of_lt b n h hlt, Nat.div_eq_of_lt hlt, Nat.mod_eq_of_lt hlt]
    rfl
  · have hdiv : n / b ≠ 0 := Nat.div_ne_zero_iff.mpr ⟨by omega, not_lt.mp hlt⟩
    have hdigit : n / b < b := Nat.div_lt_of_lt_mul hn
    rw [Nat.digits_def' hb (Nat.pos_of_ne_zero h), Nat.digits_of_lt b (n / b) hdiv hdigit]
    rfl

theorem hex_cons (c : UInt8) (bs : List UInt8) :
    hex (c :: bs) = printPad 16 2 c.toNat ++ hex bs := by
  rw [printPad_two (by decide) c.toNat_lt]
  rfl

theorem length_printPad_two (c : UInt8) : (printPad 16 2 c.toNat).length = 2 := by
  rw [printPad_two (by decide) c.toNat_lt]
  rfl

theorem length_hex (bs : List UInt8) : (hex bs).length = 2 * bs.length := by
  induction bs with
  | nil => rfl
  | cons c bs ih =>
    rw [hex_cons, List.length_append, length_printPad_two, ih, List.length_cons]
    omega

theorem digitChar_inj {d e : Nat} (hd : d < 16) (he : e < 16) (h : digitChar d = digitChar e) :
    d = e := by
  have hval := digitVal_digitChar (Nat.le_refl 16) hd
  rw [h, digitVal_digitChar (Nat.le_refl 16) he] at hval
  exact (Option.some.inj hval).symm

theorem digitChar_ne_zero {d : Nat} (hd : d < 16) : digitChar d ≠ 0 := by
  intro h
  have hval := digitVal_digitChar (Nat.le_refl 16) hd
  rw [h] at hval
  cases hval

theorem zero_notMem_printPad_two (c : UInt8) : 0 ∉ printPad 16 2 c.toNat := by
  have hlt : c.toNat < 256 := c.toNat_lt
  have hhi : digitChar (c.toNat / 16) ≠ 0 := digitChar_ne_zero (by omega)
  have hlo : digitChar (c.toNat % 16) ≠ 0 := digitChar_ne_zero (by omega)
  rw [printPad_two (by decide) hlt]
  simp [hhi.symm, hlo.symm]

theorem zero_notMem_hex (bs : List UInt8) : 0 ∉ hex bs := by
  induction bs with
  | nil => simp [hex]
  | cons c bs ih =>
    rw [hex_cons, List.mem_append, not_or]
    exact ⟨zero_notMem_printPad_two c, ih⟩

theorem printPad_two_inj {c d : UInt8} (h : printPad 16 2 c.toNat = printPad 16 2 d.toNat) :
    c = d := by
  have hc : c.toNat < 256 := c.toNat_lt
  have hd : d.toNat < 256 := d.toNat_lt
  rw [printPad_two (by decide) hc, printPad_two (by decide) hd] at h
  simp only [List.cons.injEq, and_true] at h
  have hhi := digitChar_inj (by omega) (by omega) h.1
  have hlo := digitChar_inj (by omega) (by omega) h.2
  apply UInt8.toNat_inj.mp
  omega

theorem hex_injective : Function.Injective hex := by
  intro bs cs h
  induction bs generalizing cs with
  | nil =>
    have hlen := congrArg List.length h
    rw [length_hex, length_hex, List.length_nil] at hlen
    exact (List.length_eq_zero_iff.mp (by omega)).symm
  | cons c bs ih =>
    cases cs with
    | nil =>
      have hlen := congrArg List.length h
      rw [length_hex, length_hex, List.length_nil, List.length_cons] at hlen
      omega
    | cons d cs =>
      rw [hex_cons, hex_cons] at h
      obtain ⟨hcd, hrest⟩ := List.append_inj h (by rw [length_printPad_two, length_printPad_two])
      rw [printPad_two_inj hcd, ih hrest]

end Numeral
