import Mathlib.Algebra.Group.Nat.Defs
import Mathlib.Data.List.TakeWhile

/-!
# Byte strings and the numbers written in them

A `std::string` is a list of bytes.  The character classes are those of the
classic locale, which is the one a program runs in until it sets another.

`decimal` is what `ostream << n` and `std::to_string` write for an unsigned
number, and `stoul` is the other direction, `std::stoul` with base ten: it skips
white space, takes a sign, reads the longest run of digits and ignores the rest.
`stoul_decimal` says that the two agree on every number a `size_t` holds.
-/

namespace Cpp

abbrev Byte := UInt8
abbrev Bytes := List Byte

/-- The bytes of a string literal. -/
def ascii (s : String) : Bytes := s.toList.map fun c => UInt8.ofNat c.toNat

def nul : Byte := 0
def ht : Byte := 9
def lf : Byte := 10
def cr : Byte := 13
def sp : Byte := 32
def colon : Byte := 58
def slash : Byte := 47

/-- `std::isspace` in the classic locale: space, `\t`, `\n`, `\v`, `\f`, `\r`. -/
def isspace (b : Byte) : Bool := b == sp || (9 ≤ b && b ≤ 13)

/-- `std::isdigit`. -/
def isdigit (b : Byte) : Bool := 48 ≤ b && b ≤ 57

/-- The exceptions the modelled library calls throw. -/
inductive Exception
  | invalidArgument | outOfRange | lengthError | badAlloc | badCast
deriving DecidableEq, Repr

/-! ### Memory -/

/-- What the process may allocate: `std::string::max_size()`, which the signed
`std::streamsize` bounds, and the string lengths `operator new` has room for.  Only a
string whose length a client has announced is made of it; every other allocation
succeeds. -/
structure Memory where
  maxSize : Nat
  maxSize_lt : maxSize < 2 ^ 63
  available : Nat → Bool

namespace Memory

/-- Whether a string of `n` bytes can be constructed. -/
def CanHold (mem : Memory) (n : Nat) : Prop := n ≤ mem.maxSize ∧ mem.available n = true

instance (mem : Memory) (n : Nat) : Decidable (mem.CanHold n) :=
  inferInstanceAs (Decidable (_ ∧ _))

/-- `std::string(n, '\0')`. -/
def zeros (mem : Memory) (n : Nat) : Except Exception Bytes :=
  if mem.maxSize < n then .error .lengthError
  else if mem.available n then .ok (List.replicate n nul)
  else .error .badAlloc

theorem zeros_of_canHold {mem : Memory} {n : Nat} (h : mem.CanHold n) :
    mem.zeros n = .ok (List.replicate n nul) := by
  rw [zeros, if_neg (by have := h.1; omega), if_pos h.2]

end Memory

/-! ### Decimal numbers -/

/-- The decimal digits of an unsigned number. -/
def decimal (n : Nat) : Bytes := (Nat.toDigits 10 n).map fun c => UInt8.ofNat c.toNat

/-- The decimal form of a signed number. -/
def decimalInt (n : Int) : Bytes := if n < 0 then 45 :: decimal n.natAbs else decimal n.natAbs

/-- The number a run of digits writes. -/
def digitsValue (digits : Bytes) : Nat := digits.foldl (fun n b => 10 * n + (b.toNat - 48)) 0

theorem toNat_ofNat_of_isDigit {c : Char} (h : c.isDigit = true) :
    (UInt8.ofNat c.toNat).toNat = c.toNat ∧ 48 ≤ c.toNat ∧ c.toNat ≤ 57 := by
  have h1 : 48 ≤ c.val ∧ c.val ≤ 57 := by simpa [Char.isDigit] using h
  have h2 : 48 ≤ c.toNat := UInt32.le_iff_toNat_le.mp h1.1
  have h3 : c.toNat ≤ 57 := UInt32.le_iff_toNat_le.mp h1.2
  refine ⟨?_, h2, h3⟩
  rw [UInt8.toNat_ofNat']
  exact Nat.mod_eq_of_lt (by omega)

theorem isdigit_decimal (n : Nat) : ∀ b ∈ decimal n, isdigit b = true := by
  intro b hb
  obtain ⟨c, hc, rfl⟩ := List.mem_map.mp hb
  obtain ⟨h1, h2, h3⟩ :=
    toNat_ofNat_of_isDigit (Nat.isDigit_of_mem_toDigits (by decide) (by decide) hc)
  simp only [isdigit, Bool.and_eq_true, decide_eq_true_eq, UInt8.le_iff_toNat_le, h1]
  exact ⟨h2, h3⟩

theorem decimal_ne_nil (n : Nat) : decimal n ≠ [] := by
  simp [decimal, Nat.toDigits_ne_nil]

theorem foldl_digits : ∀ (l : List Char) (n : Nat), (∀ c ∈ l, c.isDigit = true) →
    (l.map fun c => UInt8.ofNat c.toNat).foldl (fun n b => 10 * n + (b.toNat - 48)) n
      = Nat.ofDigitChars 10 l n := by
  intro l
  induction l with
  | nil => intro n _; simp
  | cons c r ih =>
    intro n h
    rw [List.map_cons, List.foldl_cons, (toNat_ofNat_of_isDigit (h c (by simp))).1,
      ih _ (fun d hd => h d (by simp [hd])), Nat.ofDigitChars_cons]
    rfl

theorem digitsValue_decimal (n : Nat) : digitsValue (decimal n) = n := by
  rw [digitsValue, decimal, foldl_digits _ _
    (fun c hc => Nat.isDigit_of_mem_toDigits (by decide) (by decide) hc)]
  exact Nat.ofDigitChars_ten_toDigits

theorem isspace_eq_false_of_isdigit {b : Byte} (h : isdigit b = true) : isspace b = false := by
  simp only [isdigit, Bool.and_eq_true, decide_eq_true_eq, UInt8.le_iff_toNat_le] at h
  simp only [isspace, sp, Bool.or_eq_false_iff, beq_eq_false_iff_ne, ne_eq, Bool.and_eq_false_imp,
    decide_eq_true_eq, decide_eq_false_iff_not, UInt8.le_iff_toNat_le, ← UInt8.toNat_inj]
  have h48 : (48 : UInt8).toNat = 48 := rfl
  have h32 : (32 : UInt8).toNat = 32 := rfl
  have h13 : (13 : UInt8).toNat = 13 := rfl
  omega

/-! ### `std::stoul` -/

/-- One more than the largest `unsigned long`. -/
def ulongSize : Nat := 2 ^ 64

def minus : Byte := 45
def plus : Byte := 43

/-- What `strtoul` reads after white space: whether there is a minus sign, and
the run of digits. -/
def strtoul (str : Bytes) : Bool × Bytes :=
  match str.dropWhile isspace with
  | [] => (false, [])
  | c :: rest =>
    if c = minus then (true, rest.takeWhile isdigit)
    else if c = plus then (false, rest.takeWhile isdigit)
    else (false, (c :: rest).takeWhile isdigit)

/-- `std::stoul(str)`.  A minus sign negates the number in `unsigned long`, after
the range check. -/
def stoul (str : Bytes) : Except Exception Nat :=
  let (negative, digits) := strtoul str
  if digits = [] then .error .invalidArgument
  else if ulongSize ≤ digitsValue digits then .error .outOfRange
  else .ok (if negative then (ulongSize - digitsValue digits) % ulongSize else digitsValue digits)

theorem strtoul_decimal (n : Nat) : strtoul (decimal n) = (false, decimal n) := by
  have hd := isdigit_decimal n
  cases h : decimal n with
  | nil => exact absurd h (decimal_ne_nil n)
  | cons c rest =>
    rw [h] at hd
    have hc := hd c (by simp)
    have hall : (c :: rest).takeWhile isdigit = c :: rest :=
      List.takeWhile_eq_self_iff.mpr hd
    have hm : c ≠ minus := by rintro rfl; exact absurd hc (by decide)
    have hp : c ≠ plus := by rintro rfl; exact absurd hc (by decide)
    rw [strtoul, List.dropWhile_cons_of_neg (by simp [isspace_eq_false_of_isdigit hc])]
    simp only [if_neg hm, if_neg hp, hall]

/-- **A number written in decimal reads back.** -/
theorem stoul_decimal {n : Nat} (h : n < ulongSize) : stoul (decimal n) = .ok n := by
  simp only [stoul, strtoul_decimal, digitsValue_decimal]
  rw [if_neg (decimal_ne_nil n), if_neg (by omega)]
  rfl

example : stoul (ascii " -18446744073709551615x") = .ok 1 := by decide

end Cpp
