import Mathlib.Data.List.Induction
import Mathlib.Data.List.TakeWhile
import Mathlib.Tactic.Ring

/-!
# Hexadecimal numerals and lines of text

A text is a list of characters.  `digits w n` is the numeral of `n` with `w` upper-case digits, the
most significant one first; `numeral` is the number of a list of digits.

* `numeral_digits`             a numeral reads back as its number;
* `digits_numeral`             a numeral in upper case is that of its number;
* `take_digits`, `drop_digits`   the parts of a numeral are numerals of the parts;
* `strtol16_numeral`           the C reader with base 16 agrees on numerals;
* `getlines_unlines`           lines that end in a newline read back as they are.
-/

namespace HexText

/-! ## digits -/

def digit (d : Nat) : Char := "0123456789ABCDEF".toList.getD d '0'

/-- of either case -/
def digitVal (c : Char) : Option Nat :=
  if '0' ≤ c ∧ c ≤ '9' then some (c.toNat - 48)
  else if 'A' ≤ c ∧ c ≤ 'F' then some (c.toNat - 55)
  else if 'a' ≤ c ∧ c ≤ 'f' then some (c.toNat - 87)
  else none

/-- `isspace` of the C locale -/
def isSpace (c : Char) : Bool := c.toNat = 32 ∨ (9 ≤ c.toNat ∧ c.toNat ≤ 13)

theorem digit_spec {d : Nat} (h : d < 16) :
    digitVal (digit d) = some d ∧ isSpace (digit d) = false ∧ digit d ≠ '+' ∧ digit d ≠ '-' ∧
      digit d ≠ 'x' ∧ digit d ≠ 'X' ∧ digit d ≠ '\n' := by
  have hall : ∀ k : Fin 16, digitVal (digit k) = some k.val ∧ isSpace (digit k) = false ∧
      digit k ≠ '+' ∧ digit k ≠ '-' ∧ digit k ≠ 'x' ∧ digit k ≠ 'X' ∧ digit k ≠ '\n' := by decide
  exact hall ⟨d, h⟩

theorem digitVal_getD_lt (c : Char) : (digitVal c).getD 0 < 16 := by
  unfold digitVal
  split_ifs with h0 hA ha
  · have h : c.toNat ≤ 57 := h0.2
    show c.toNat - 48 < 16
    omega
  · have h : c.toNat ≤ 70 := hA.2
    show c.toNat - 55 < 16
    omega
  · have h : c.toNat ≤ 102 := ha.2
    show c.toNat - 87 < 16
    omega
  · exact Nat.succ_pos 15

/-! ## numerals -/

def digits : Nat → Nat → List Char
  | 0, _ => []
  | w + 1, n => digits w (n / 16) ++ [digit (n % 16)]

def numeral (cs : List Char) : Nat := cs.foldl (fun n c => 16 * n + (digitVal c).getD 0) 0

@[simp] theorem length_digits (w n : Nat) : (digits w n).length = w := by
  induction w generalizing n with
  | zero => rfl
  | succ w ih => rw [digits, List.length_append, ih, List.length_singleton]

theorem mem_digits {w n : Nat} {c : Char} (h : c ∈ digits w n) : ∃ d < 16, c = digit d := by
  induction w generalizing n with
  | zero => exact absurd h (by simp [digits])
  | succ w ih =>
    rw [digits, List.mem_append, List.mem_singleton] at h
    rcases h with h | h
    · exact ih h
    · exact ⟨n % 16, by omega, h⟩

theorem numeral_append_singleton (cs : List Char) (c : Char) :
    numeral (cs ++ [c]) = 16 * numeral cs + (digitVal c).getD 0 := by
  unfold numeral
  rw [List.foldl_append]
  rfl

theorem numeral_lt (cs : List Char) : numeral cs < 16 ^ cs.length := by
  induction cs using List.reverseRecOn with
  | nil => exact Nat.one_pos
  | append_singleton cs c ih =>
    have hc := digitVal_getD_lt c
    rw [numeral_append_singleton, List.length_append, List.length_singleton, pow_succ]
    omega

theorem numeral_digits (w n : Nat) : numeral (digits w n) = n % 16 ^ w := by
  induction w generalizing n with
  | zero => simp [digits, numeral, Nat.mod_one]
  | succ w ih =>
    rw [digits, numeral_append_singleton, ih, (digit_spec (Nat.mod_lt n (by omega))).1,
      Option.getD_some, pow_succ, Nat.mul_comm (16 ^ w) 16, Nat.mod_mul]
    omega

theorem digits_add (a b n : Nat) : digits (a + b) n = digits a (n / 16 ^ b) ++ digits b n := by
  induction b generalizing n with
  | zero => simp [digits]
  | succ b ih =>
    rw [← Nat.add_assoc, digits, ih, digits, List.append_assoc, Nat.div_div_eq_div_mul, pow_succ,
      Nat.mul_comm 16]

theorem take_digits (a b n : Nat) : (digits (a + b) n).take a = digits a (n / 16 ^ b) := by
  rw [digits_add, List.take_left' (length_digits a _)]

theorem drop_digits (a b n : Nat) : (digits (a + b) n).drop a = digits b n := by
  rw [digits_add, List.drop_left' (length_digits a _)]

theorem digits_mod (w n : Nat) : digits w (n % 16 ^ w) = digits w n := by
  induction w generalizing n with
  | zero => rfl
  | succ w ih =>
    have h1 : n % 16 ^ (w + 1) / 16 = n / 16 % 16 ^ w := by
      rw [pow_succ, Nat.mul_comm (16 ^ w) 16, Nat.mod_mul_right_div_self]
    have h2 : n % 16 ^ (w + 1) % 16 = n % 16 :=
      Nat.mod_mod_of_dvd n (Dvd.intro_left (16 ^ w) (pow_succ 16 w).symm)
    rw [digits, digits, h1, h2, ih]

theorem digits_inj {w m n : Nat} (hm : m < 16 ^ w) (hn : n < 16 ^ w)
    (h : digits w m = digits w n) : m = n := by
  have := congrArg numeral h
  rwa [numeral_digits, numeral_digits, Nat.mod_eq_of_lt hm, Nat.mod_eq_of_lt hn] at this

/-! ## numerals in upper case -/

def isUpperDigit (c : Char) : Bool :=
  decide ('0' ≤ c ∧ c ≤ '9') || decide ('A' ≤ c ∧ c ≤ 'F')

theorem exists_digit {c : Char} (h : isUpperDigit c = true) : ∃ d < 16, c = digit d := by
  have hdec : ∀ k < 10, digit k = Char.ofNat (k + 48) := by decide
  have hhex : ∀ k < 6, digit (k + 10) = Char.ofNat (k + 65) := by decide
  have hc := Char.ofNat_toNat c
  rw [isUpperDigit, Bool.or_eq_true, decide_eq_true_iff, decide_eq_true_iff] at h
  rcases h with ⟨hlo, hhi⟩ | ⟨hlo, hhi⟩
  · have h1 : 48 ≤ c.toNat := hlo
    have h2 : c.toNat ≤ 57 := hhi
    refine ⟨c.toNat - 48, by omega, ?_⟩
    rw [hdec _ (by omega), Nat.sub_add_cancel h1, hc]
  · have h1 : 65 ≤ c.toNat := hlo
    have h2 : c.toNat ≤ 70 := hhi
    refine ⟨c.toNat - 65 + 10, by omega, ?_⟩
    rw [hhex _ (by omega), Nat.sub_add_cancel h1, hc]

theorem isUpperDigit_digit {d : Nat} (h : d < 16) : isUpperDigit (digit d) = true := by
  have hall : ∀ k < 16, isUpperDigit (digit k) = true := by decide
  exact hall d h

theorem digits_numeral (cs : List Char) (h : ∀ c ∈ cs, isUpperDigit c = true) :
    digits cs.length (numeral cs) = cs := by
  induction cs using List.reverseRecOn with
  | nil => rfl
  | append_singleton cs c ih =>
    obtain ⟨d, hd, rfl⟩ := exists_digit (h c (by simp))
    have hdiv : (16 * numeral cs + d) / 16 = numeral cs := by omega
    have hmod : (16 * numeral cs + d) % 16 = d := by omega
    rw [numeral_append_singleton, (digit_spec hd).1, Option.getD_some, List.length_append,
      List.length_singleton, digits, hdiv, hmod,
      ih fun c hc => h c (List.mem_append_left _ hc)]

/-! ## `strtol` with base 16 -/

def strtolSign : List Char → Bool × List Char
  | [] => (false, [])
  | c :: s => if c = '-' then (true, s) else if c = '+' then (false, s) else (false, c :: s)

/-- an optional `0x` counts when a digit follows it -/
def strtolPrefix : List Char → List Char
  | z :: x :: d :: s =>
    if z = '0' ∧ (x = 'x' ∨ x = 'X') ∧ (digitVal d).isSome then d :: s else z :: x :: d :: s
  | s => s

/-- `none` when there is no digit to convert; what follows the digits is ignored -/
def strtol16 (s : List Char) : Option Int :=
  let (neg, s) := strtolSign (s.dropWhile isSpace)
  let ds := (strtolPrefix s).takeWhile fun c => (digitVal c).isSome
  if ds = [] then none else some (if neg then -(numeral ds : Int) else numeral ds)

theorem ne_of_isDigit {c d : Char} (h : (digitVal c).isSome) (hd : digitVal d = none) : c ≠ d := by
  rintro rfl
  rw [hd] at h
  exact absurd h Bool.false_ne_true

theorem isSpace_of_isDigit {c : Char} (h : (digitVal c).isSome) : isSpace c = false := by
  have hge : 48 ≤ c.toNat := by
    unfold digitVal at h
    split_ifs at h with h0 hA ha
    · exact h0.1
    · have h65 : 65 ≤ c.toNat := hA.1
      omega
    · have h97 : 97 ≤ c.toNat := ha.1
      omega
    · exact absurd h Bool.false_ne_true
  rw [isSpace, decide_eq_false_iff_not]
  omega

theorem dropWhile_isSpace {cs : List Char} (h : ∀ c ∈ cs, (digitVal c).isSome) :
    cs.dropWhile isSpace = cs := by
  cases cs with
  | nil => rfl
  | cons c s =>
    rw [List.dropWhile_cons_of_neg (by simp [isSpace_of_isDigit (h c List.mem_cons_self)])]

/-- a list of digits of either case, with nothing in front and nothing behind -/
theorem strtol16_numeral {cs : List Char} (hne : cs ≠ []) (h : ∀ c ∈ cs, (digitVal c).isSome) :
    strtol16 cs = some (numeral cs : Int) := by
  have hsign : strtolSign cs = (false, cs) := by
    cases cs with
    | nil => rfl
    | cons c s =>
      have hc := h c List.mem_cons_self
      rw [strtolSign, if_neg (ne_of_isDigit hc (by decide)), if_neg (ne_of_isDigit hc (by decide))]
  have hall : strtolPrefix cs = cs := by
    unfold strtolPrefix
    split
    · rename_i z x d s
      have hx := h x (by simp)
      rw [if_neg (by simp [ne_of_isDigit hx (d := 'x') (by decide),
        ne_of_isDigit hx (d := 'X') (by decide)])]
    · rfl
  have htake : (cs.takeWhile fun c => (digitVal c).isSome) = cs :=
    List.takeWhile_eq_self_iff.mpr h
  unfold strtol16
  rw [dropWhile_isSpace h, hsign]
  simp only [hall, htake, if_neg hne, Bool.false_eq_true, if_false]

theorem isDigit_of_mem_digits {w n : Nat} {c : Char} (h : c ∈ digits w n) :
    (digitVal c).isSome := by
  obtain ⟨d, hlt, rfl⟩ := mem_digits h
  rw [(digit_spec hlt).1]
  rfl

theorem length_strtolSign_le (s : List Char) : (strtolSign s).2.length ≤ s.length := by
  cases s with
  | nil => exact le_refl _
  | cons c s =>
    rw [strtolSign]
    split_ifs
    · exact Nat.le_succ _
    · exact Nat.le_succ _
    · exact le_refl _

theorem length_strtolPrefix_le (s : List Char) : (strtolPrefix s).length ≤ s.length := by
  unfold strtolPrefix
  split
  · split_ifs
    · exact Nat.le_succ_of_le (Nat.le_succ _)
    · exact le_refl _
  · exact le_refl _

/-- a converted text of `n` characters has at most `n` digits -/
theorem strtol16_lt {s : List Char} {v : Int} (h : strtol16 s = some v) :
    -16 ^ s.length < v ∧ v < 16 ^ s.length := by
  let t := (strtolSign (s.dropWhile isSpace)).2
  let ds := (strtolPrefix t).takeWhile fun c => (digitVal c).isSome
  have hlen : ds.length ≤ s.length :=
    calc ds.length ≤ (strtolPrefix t).length := (List.takeWhile_prefix _).length_le
      _ ≤ t.length := length_strtolPrefix_le t
      _ ≤ (s.dropWhile isSpace).length := length_strtolSign_le _
      _ ≤ s.length := (List.dropWhile_suffix _).length_le
  have hlt : numeral ds < 16 ^ s.length :=
    lt_of_lt_of_le (numeral_lt ds) (Nat.pow_le_pow_right (by omega) hlen)
  have hlt' : (numeral ds : Int) < 16 ^ s.length := by exact_mod_cast hlt
  have hvalue : (if ds = [] then none
      else some (if (strtolSign (s.dropWhile isSpace)).1 then -(numeral ds : Int)
        else numeral ds)) = some v := h
  by_cases hnil : ds = []
  · rw [if_pos hnil] at hvalue
    exact absurd hvalue (by simp)
  · rw [if_neg hnil, Option.some.injEq] at hvalue
    split_ifs at hvalue
    · omega
    · omega

/-! ## lines -/

/-- the lines that a `getline` loop reads: the rest behind the last newline counts only if it is
not empty -/
def getlinesFrom (line : List Char) : List Char → List (List Char)
  | [] => if line = [] then [] else [line]
  | c :: cs => if c = '\n' then line :: getlinesFrom [] cs else getlinesFrom (line ++ [c]) cs

def getlines (text : List Char) : List (List Char) := getlinesFrom [] text

def unlines (ls : List (List Char)) : List Char := ls.flatMap fun l => l ++ ['\n']

theorem getlinesFrom_append (line l rest : List Char) (h : '\n' ∉ l) :
    getlinesFrom line (l ++ '\n' :: rest) = (line ++ l) :: getlinesFrom [] rest := by
  induction l generalizing line with
  | nil => rw [List.nil_append, getlinesFrom, if_pos rfl, List.append_nil]
  | cons c l ih =>
    have hc : c ≠ '\n' := fun e => h (by rw [e]; exact List.mem_cons_self)
    rw [List.cons_append, getlinesFrom, if_neg hc, ih _ fun hm => h (List.mem_cons_of_mem _ hm),
      List.append_assoc]
    rfl

theorem getlines_unlines (ls : List (List Char)) (h : ∀ l ∈ ls, '\n' ∉ l) :
    getlines (unlines ls) = ls := by
  unfold getlines unlines
  induction ls with
  | nil => rfl
  | cons l ls ih =>
    rw [List.flatMap_cons, List.append_assoc, List.cons_append, List.nil_append,
      getlinesFrom_append _ _ _ (h l List.mem_cons_self), List.nil_append,
      ih fun l' hl' => h l' (List.mem_cons_of_mem _ hl')]

theorem newline_notMem_digits (w n : Nat) : '\n' ∉ digits w n := by
  intro h
  obtain ⟨d, hlt, he⟩ := mem_digits h
  exact (digit_spec hlt).2.2.2.2.2.2 he.symm

end HexText
