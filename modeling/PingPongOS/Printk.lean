import PingPongOS.Loops
import PingPongOS.RingBuffer

/-!
# `printk`

`printk` of `libc.c` reads its format once and writes characters to the console.  A format
and a string are given by the characters before their `NUL`, and what is printed by the
list of the characters that `putch` gets.  Reading an argument as another type than its
own is undefined in C, and a fault here.

The `%d` branch counts the digits with a divisor, and `width` down with them.  The two
`int`s and the `short` wrap.
-/

namespace PingPongOS

open Loops

/-- An argument after the format. -/
inductive Vararg
  | int (value : Int)
  | string (s : Option (List Char))
  | long (value : Nat)

/-- An argument that is missing or of another type, and a loop that would not end. -/
inductive PrintkFault
  | vaArg
  | endlessLoop
  deriving DecidableEq

/-- Conversion to `short`. -/
def toShort (a : Int) : Int := Int.bmod a (2 ^ 16)

/-- Negation of `int` values. -/
def negInt (a : Int) : Int := Int.bmod (-a) (2 ^ 32)

/-- The `char` that `putch` makes of an `int`. -/
def putchInt (c : Int) : Char := Char.ofNat (c % 256).toNat

/-- `va_arg(vargs, int)`. -/
def vaInt : List Vararg → Except PrintkFault (Int × List Vararg)
  | .int value :: vargs => .ok (value, vargs)
  | _ => .error .vaArg

/-- `va_arg(vargs, const char *)`. -/
def vaString : List Vararg → Except PrintkFault (Option (List Char) × List Vararg)
  | .string s :: vargs => .ok (s, vargs)
  | _ => .error .vaArg

/-- `va_arg(vargs, unsigned long)`. -/
def vaLong : List Vararg → Except PrintkFault (Nat × List Vararg)
  | .long value :: vargs => .ok (value, vargs)
  | _ => .error .vaArg

/-- The width modifier: the loop that reads the digits from `1` to `9`, with the rest of the
format. -/
def widthModifier (width : Int) : List Char → Int × List Char
  | [] => (width, [])
  | c :: fmt =>
      if '1' ≤ c ∧ c ≤ '9' then widthModifier (toShort (10 * width + (c.toNat - 48))) fmt
      else (width, c :: fmt)

/-- The whitespaces that are printed while `width` is positive. -/
def whitespaces (width : Int) : List Char := List.replicate width.toNat ' '

/-- The text with the whitespaces before or after it. -/
def aligned (leftAlign : Bool) (width : Int) (text : List Char) : List Char :=
  if leftAlign then text ++ whitespaces width else whitespaces width ++ text

/-- `%s`: the width goes down by one for each character of the string. -/
def printString (leftAlign : Bool) (width : Int) (s : Option (List Char)) : List Char :=
  let s := s.getD ['(', 'n', 'u', 'l', 'l', ')']
  aligned leftAlign (s.foldl (fun width _ => toShort (width - 1)) width) s

/-- `divisor *= 10; width--`, while `value / divisor > 9`. -/
def digitRound (value : Int) (s : Int × Int) : Option (Int × Int) :=
  if 9 < value.tdiv s.1 then some (mulInt s.1 10, toShort (s.2 - 1)) else none

/-- `putch('0' + value / divisor); value %= divisor; divisor /= 10`, while `divisor > 0`; the
state is the value, the divisor and what has been printed. -/
def printRound (s : Int × Int × List Char) : Option (Int × Int × List Char) :=
  if 0 < s.2.1 then
    some (s.1.tmod s.2.1, s.2.1.tdiv 10, s.2.2 ++ [putchInt (48 + s.1.tdiv s.2.1)])
  else none

/-- The value whose digits `%d` prints. -/
def magnitude (value : Int) : Int := if value < 0 then negInt value else value

/-- `%d` and `%i`, with a bound on the tests of their loops. -/
def printInt (leftAlign : Bool) (width value : Int) : Option (List Char) := do
  let width := toShort (width - 1)
  let width := if value < 0 then toShort (width - 1) else width
  let counted ← loop (digitRound (magnitude value)) 11 (1, width)
  let printed ← loop printRound 11 (magnitude value, counted.1, [])
  some (aligned leftAlign counted.2 ((if value < 0 then ['-'] else []) ++ printed.2.2))

/-- `%p`: sixteen hexadecimal digits. -/
def printPointer (value : Nat) : List Char :=
  if value = 0 then ['(', 'n', 'i', 'l', ')']
  else ['0', 'x'] ++ (List.range 16).map fun i => Nat.digitChar (value / 16 ^ (15 - i) % 16)

/-- The `switch` on the character after the modifiers, `none` being the `NUL`. -/
def printDirective (leftAlign : Bool) (width : Int) (c : Option Char) (vargs : List Vararg) :
    Except PrintkFault (List Char × List Vararg) :=
  match c with
  | none | some '%' => .ok (['%'], vargs)
  | some 'c' => do
      let c ← vaInt vargs
      .ok ([putchInt c.1], c.2)
  | some 's' => do
      let s ← vaString vargs
      .ok (printString leftAlign width s.1, s.2)
  | some 'i' | some 'd' => do
      let value ← vaInt vargs
      match printInt leftAlign width value.1 with
      | some text => .ok (text, value.2)
      | none => .error .endlessLoop
  | some 'p' => do
      let value ← vaLong vargs
      .ok (printPointer value.1, value.2)
  | some _ => .ok (['%', '?'], vargs)

/-- The loop of `printk` over the format, in which every round takes a character at least. -/
def printkLoop : Nat → List Char → List Vararg → Except PrintkFault (List Char)
  | _, [], _ => .ok []
  | 0, _ :: _, _ => .error .endlessLoop
  | rounds + 1, c :: fmt, vargs =>
      if c = '%' then do
        let leftAlign := decide (fmt.head? = some '-')
        let modified := widthModifier 0 (if leftAlign then fmt.tail else fmt)
        let printed ← printDirective leftAlign modified.1 modified.2.head? vargs
        .ok (printed.1 ++ (← printkLoop rounds modified.2.tail printed.2))
      else do .ok (c :: (← printkLoop rounds fmt vargs))

/-- `printk`. -/
def printk (fmt : List Char) (vargs : List Vararg) : Except PrintkFault (List Char) :=
  printkLoop fmt.length fmt vargs

/-! ## Counting the digits -/

variable {width value w : Int} {n i k : Nat} {leftAlign : Bool}

/-- The shortest decimal representation. -/
def decimal (value : Int) : List Char :=
  if value < 0 then '-' :: Nat.toDigits 10 value.natAbs else Nat.toDigits 10 value.natAbs

/-- The text, padded with blanks to `width` characters. -/
def padded (leftAlign : Bool) (width : Int) (text : List Char) : List Char :=
  if leftAlign then text ++ List.replicate (width - text.length).toNat ' '
  else List.replicate (width - text.length).toNat ' ' ++ text

/-- The digit-counting loop ends after nine rounds at most, and after each round the divisor
is the next power of ten. -/
def DigitLoopEnds (value width : Int) : Prop :=
  ∃ n ≤ 9, (∃ w, rounds (digitRound value) n (1, width) = some (10 ^ n, w) ∧
      digitRound value (10 ^ n, w) = none) ∧
    ∀ i ≤ n, ∃ w, rounds (digitRound value) i (1, width) = some (10 ^ i, w)

theorem toShort_sub (a b : Int) : toShort (toShort a - b) = toShort (a - b) := Int.bmod_sub_bmod

/-- A number has more than `i + 1` digits where `10 ^ i` goes into it more than nine times. -/
theorem lt_length_toDigits : i + 1 < (Nat.toDigits 10 n).length ↔ 9 < n / 10 ^ i := by
  have hpow : 0 < 10 ^ i := Nat.pow_pos (by decide)
  have hlen := Nat.length_toDigits_le_iff (b := 10) (n := n) (k := i + 1) (by decide) (by omega)
  have hdiv : 9 < n / 10 ^ i ↔ 10 ^ (i + 1) ≤ n := by
    rw [Nat.pow_succ', ← Nat.le_div_iff_mul_le hpow]
    omega
  rw [hdiv]
  omega

/-- An `int` has ten digits at most. -/
theorem length_toDigits_int (hn : n < 2 ^ 31) : (Nat.toDigits 10 n).length ≤ 10 :=
  (Nat.length_toDigits_le_iff (by decide) (by decide)).mpr (Nat.lt_trans hn (by decide))

/-- One round: the next power of ten fits in an `int` as long as there is one more digit. -/
theorem digitRound_pow (hn : n < 2 ^ 31) :
    digitRound n (10 ^ i, w) =
      if i + 1 < (Nat.toDigits 10 n).length then some (10 ^ (i + 1), toShort (w - 1))
      else none := by
  have hdiv : (n : Int).tdiv (10 ^ i) = ((n / 10 ^ i : Nat) : Int) := by
    rw [Int.ofNat_tdiv]
    push_cast
    rfl
  unfold digitRound
  simp only [hdiv]
  by_cases hmore : i + 1 < (Nat.toDigits 10 n).length
  · have hi : i < 9 := by have := length_toDigits_int hn; omega
    have hmul : mulInt (10 ^ i) 10 = 10 ^ (i + 1) := by interval_cases i <;> rfl
    rw [if_pos (by exact_mod_cast lt_length_toDigits.mp hmore), if_pos hmore, hmul]
  · rw [if_neg (by exact_mod_cast mt lt_length_toDigits.mpr hmore), if_neg hmore]

/-- The state after `i` rounds. -/
theorem digitRounds (hn : n < 2 ^ 31) (hi : i < (Nat.toDigits 10 n).length) :
    rounds (digitRound n) i (1, toShort w) = some (10 ^ i, toShort (w - i)) := by
  induction i with
  | zero =>
      rw [rounds, Int.natCast_zero, Int.sub_zero]
      rfl
  | succ i ih =>
      apply rounds_snoc (ih (by omega))
      rw [digitRound_pow hn, if_pos hi, toShort_sub]
      push_cast
      rw [Int.sub_sub]

/-- **The digit-counting loop** of a number that is not negative. -/
theorem digitLoop_natCast (hn : n < 2 ^ 31) :
    DigitLoopEnds n (toShort w) ∧
      loop (digitRound n) 11 (1, toShort w) =
        some (10 ^ ((Nat.toDigits 10 n).length - 1),
          toShort (w - ((Nat.toDigits 10 n).length - 1 : Nat))) := by
  have hpos : 0 < (Nat.toDigits 10 n).length := Nat.length_toDigits_pos
  have hlen := length_toDigits_int hn
  have hlast := digitRounds (w := w) hn (i := (Nat.toDigits 10 n).length - 1) (by omega)
  have hend : digitRound n (10 ^ ((Nat.toDigits 10 n).length - 1),
      toShort (w - ((Nat.toDigits 10 n).length - 1 : Nat))) = none := by
    rw [digitRound_pow hn, if_neg (by omega)]
  exact ⟨⟨_, by omega, ⟨_, hlast, hend⟩, fun i hi => ⟨_, digitRounds hn (by omega)⟩⟩,
    loop_of_rounds hlast hend (by omega)⟩

/-! ## Printing them -/

/-- The digit that `putch` gets. -/
theorem putchInt_digit {d : Nat} (hd : d < 10) : putchInt (48 + d) = Nat.digitChar d := by
  interval_cases d <;> rfl

/-- The last `k + 1` digits of a number, with leading zeros. -/
def lastDigits : Nat → Nat → List Char
  | 0, n => [Nat.digitChar n]
  | k + 1, n => Nat.digitChar (n / 10 ^ (k + 1)) :: lastDigits k (n % 10 ^ (k + 1))

/-- The last digit apart. -/
theorem lastDigits_succ (k n : Nat) :
    lastDigits (k + 1) n = lastDigits k (n / 10) ++ [Nat.digitChar (n % 10)] := by
  induction k generalizing n with
  | zero => simp [lastDigits]
  | succ k ih =>
      have hfirst : n / 10 ^ (k + 1 + 1) = n / 10 / 10 ^ (k + 1) := by
        rw [Nat.div_div_eq_div_mul, ← Nat.pow_succ']
      have hmid : n % 10 ^ (k + 1 + 1) / 10 = n / 10 % 10 ^ (k + 1) := by
        rw [Nat.pow_succ', Nat.mod_mul_right_div_self]
      have hlast : n % 10 ^ (k + 1 + 1) % 10 = n % 10 :=
        Nat.mod_mod_of_dvd n (Dvd.intro_left (10 ^ (k + 1)) rfl)
      rw [lastDigits, ih, hfirst, hmid, hlast]
      rfl

/-- A number of `k + 1` digits has no leading zero. -/
theorem lastDigits_eq_toDigits (hk : (Nat.toDigits 10 n).length = k + 1) :
    lastDigits k n = Nat.toDigits 10 n := by
  induction k generalizing n with
  | zero =>
      have hlt : n < 10 := by
        have := Nat.length_toDigits_le_iff (b := 10) (n := n) (k := 1) (by decide) (by decide)
        omega
      rw [lastDigits, Nat.toDigits_of_lt_base hlt]
  | succ k ih =>
      have hle : 10 ≤ n := by
        by_contra hlt
        rw [Nat.toDigits_of_lt_base (by omega)] at hk
        simp at hk
      rw [Nat.toDigits_of_base_le (by decide) hle] at hk ⊢
      rw [lastDigits_succ, ih (by simpa using hk)]

/-- **The digit-printing loop.** -/
theorem printRounds (out : List Char) (hn : n < 10 ^ (k + 1)) :
    ∃ v, rounds printRound (k + 1) (n, 10 ^ k, out) = some (v, 0, out ++ lastDigits k n) := by
  induction k generalizing n out with
  | zero =>
      refine ⟨(n : Int).tmod 1, ?_⟩
      have hdigit : putchInt (48 + (n : Int).tdiv (10 ^ 0)) = Nat.digitChar n := by
        rw [Int.pow_zero, Int.tdiv_one]
        exact putchInt_digit (by omega)
      rw [rounds, printRound, if_pos (show (0 : Int) < 10 ^ 0 by decide), Option.bind_some, rounds,
        hdigit]
      rfl
  | succ k ih =>
      have hpow : 0 < 10 ^ (k + 1) := Nat.pow_pos (by decide)
      have hfirst : n / 10 ^ (k + 1) < 10 := by
        rw [Nat.div_lt_iff_lt_mul hpow, ← Nat.pow_succ']
        exact hn
      obtain ⟨v, hv⟩ := ih (n := n % 10 ^ (k + 1))
        (out ++ [Nat.digitChar (n / 10 ^ (k + 1))]) (Nat.mod_lt _ hpow)
      refine ⟨v, rounds_succ_some.mpr ⟨_, ?_, hv.trans ?_⟩⟩
      · have hdivisor : ((10 : Int) ^ (k + 1)).tdiv 10 = 10 ^ k := by
          rw [Int.pow_succ, Int.mul_tdiv_cancel _ (by decide)]
        have hquotient : (n : Int).tdiv (10 ^ (k + 1)) = ((n / 10 ^ (k + 1) : Nat) : Int) := by
          rw [Int.ofNat_tdiv]
          push_cast
          rfl
        have hrest : (n : Int).tmod (10 ^ (k + 1)) = ((n % 10 ^ (k + 1) : Nat) : Int) := by
          rw [Int.ofNat_tmod]
          push_cast
          rfl
        rw [printRound, if_pos (by positivity)]
        simp only [hdivisor, hquotient, hrest, putchInt_digit hfirst]
      · rw [List.append_assoc]
        rfl

/-- Both loops of a number that is not negative. -/
theorem printLoops (hn : n < 2 ^ 31) :
    ∃ v, loop printRound 11 ((n : Int), 10 ^ ((Nat.toDigits 10 n).length - 1), []) =
      some (v, 0, Nat.toDigits 10 n) := by
  have hlen := length_toDigits_int hn
  obtain ⟨k, hk⟩ : ∃ k, (Nat.toDigits 10 n).length = k + 1 :=
    Nat.exists_eq_succ_of_ne_zero (Nat.pos_iff_ne_zero.mp Nat.length_toDigits_pos)
  have hlt : n < 10 ^ (k + 1) :=
    (Nat.length_toDigits_le_iff (by decide) (Nat.succ_pos k)).mp (Nat.le_of_eq hk)
  obtain ⟨v, hv⟩ := printRounds [] hlt
  refine ⟨v, ?_⟩
  rw [hk, ← lastDigits_eq_toDigits hk]
  exact loop_of_rounds hv rfl (by omega)

/-! ## What `%d` prints -/

/-- A numeral has eleven characters at most. -/
theorem length_decimal (hv : -2 ^ 31 < value ∧ value < 2 ^ 31) : (decimal value).length ≤ 11 := by
  have hlen := length_toDigits_int (n := value.natAbs) (by omega)
  unfold decimal
  split
  · rw [List.length_cons]
    omega
  · omega

theorem magnitude_eq (hv : -2 ^ 31 < value ∧ value < 2 ^ 31) :
    magnitude value = value.natAbs := by
  unfold magnitude negInt
  split
  · rw [Int.bmod_eq_of_le (by omega) (by omega)]
    omega
  · omega

/-- **The `%d` branch**, for every value that can be negated. -/
theorem printInt_eq (hv : -2 ^ 31 < value ∧ value < 2 ^ 31) :
    printInt leftAlign width value =
      some (aligned leftAlign (toShort (width - (decimal value).length)) (decimal value)) := by
  have hn : value.natAbs < 2 ^ 31 := by omega
  have hmag := magnitude_eq hv
  have hpos : 0 < (Nat.toDigits 10 value.natAbs).length := Nat.length_toDigits_pos
  obtain ⟨v, hprint⟩ := printLoops hn
  by_cases hneg : value < 0
  · have hcount := (digitLoop_natCast (w := width - 1 - 1) hn).2
    have hwidth : width - 1 - 1 - ((Nat.toDigits 10 value.natAbs).length - 1 : Nat) =
        width - (decimal value).length := by
      rw [decimal, if_pos hneg, List.length_cons]
      omega
    unfold printInt
    simp only [if_pos hneg, toShort_sub, hmag, hcount, hprint, hwidth, bind, Option.bind]
    rw [decimal, if_pos hneg]
    rfl
  · have hcount := (digitLoop_natCast (w := width - 1) hn).2
    have hwidth : width - 1 - ((Nat.toDigits 10 value.natAbs).length - 1 : Nat) =
        width - (decimal value).length := by
      rw [decimal, if_neg hneg]
      omega
    unfold printInt
    simp only [if_neg hneg, hmag, hcount, hprint, hwidth, bind, Option.bind]
    rw [decimal, if_neg hneg]
    rfl

/-- **The value that cannot be negated** is printed as `-0`. -/
theorem printInt_min :
    printInt leftAlign width (-2 ^ 31) =
      some (aligned leftAlign (toShort (width - 2)) ['-', '0']) := by
  have hmag : magnitude (-2 ^ 31) = -2 ^ 31 := rfl
  have hcount (w : Int) : loop (digitRound (-2 ^ 31)) 11 (1, w) = some (1, w) := rfl
  have hprint : loop printRound 11 (-2 ^ 31, 1, []) = some (0, 0, ['0']) := rfl
  have hneg : (-2 ^ 31 : Int) < 0 := by decide
  unfold printInt
  simp only [if_pos hneg, hmag, hcount, hprint, toShort_sub, bind, Option.bind]
  rw [Int.sub_sub]
  rfl

/-- **The digit-counting loop** ends for every value. -/
theorem digitLoop_ends (hv : -2 ^ 31 ≤ value ∧ value < 2 ^ 31) (width : Int) :
    DigitLoopEnds (magnitude value) (toShort width) := by
  by_cases hmin : value = -2 ^ 31
  · subst hmin
    exact ⟨0, by decide, ⟨toShort width, rfl, rfl⟩, fun i hi =>
      ⟨toShort width, by rw [Nat.le_zero.mp hi]; rfl⟩⟩
  · rw [magnitude_eq ⟨by omega, hv.2⟩]
    exact (digitLoop_natCast (by omega)).1

/-- The value is rendered in decimal and padded to `width`, and its digits are counted
without a division by zero or an overflow. -/
def IntRendered (leftAlign : Bool) (width value : Int) : Prop :=
  printInt leftAlign width value = some (padded leftAlign width (decimal value)) ∧
    ∀ w, DigitLoopEnds (magnitude value) (toShort w)

/-- Texts with whitespaces are the same where the whitespaces are. -/
theorem aligned_inj {a b : Int} {text : List Char} :
    aligned leftAlign a text = aligned leftAlign b text ↔ a.toNat = b.toNat := by
  constructor
  · intro h
    have hlen := congrArg List.length h
    cases leftAlign <;> simp [aligned, whitespaces] at hlen <;> exact hlen
  · intro h
    rw [aligned, aligned, whitespaces, whitespaces, h]

/-- Neither `-0` nor what is left of it ends or begins like the numeral of the least value. -/
theorem aligned_min_ne (a b : Int) :
    aligned leftAlign a ['-', '0'] ≠ aligned leftAlign b (decimal (-2 ^ 31)) := by
  have hdecimal : decimal (-2 ^ 31) = ['-', '2', '1', '4', '7', '4', '8', '3', '6', '4', '8'] := by
    decide
  rw [hdecimal]
  intro h
  cases leftAlign with
  | true =>
      have hsecond := congrArg (fun text => text[1]?) h
      simp [aligned] at hsecond
  | false =>
      have hlast := congrArg List.getLast? h
      simp [aligned] at hlast

/-- **When an integer is rendered right.**  The numeral comes out padded to the width,
whatever the alignment, if and only if the value can be negated and counting its characters
down from the width stays within a `short`. -/
theorem intRendered_iff (leftAlign : Bool) (hw : -2 ^ 15 ≤ width ∧ width < 2 ^ 15)
    (hv : -2 ^ 31 ≤ value ∧ value < 2 ^ 31) :
    IntRendered leftAlign width value ↔
      value ≠ -2 ^ 31 ∧ -2 ^ 15 ≤ width - (decimal value).length := by
  have hpadded : padded leftAlign width (decimal value) =
      aligned leftAlign (width - (decimal value).length) (decimal value) := rfl
  unfold IntRendered
  rw [and_iff_left (digitLoop_ends hv), hpadded]
  by_cases hmin : value = -2 ^ 31
  · rw [hmin, printInt_min, Option.some.injEq]
    exact iff_of_false (aligned_min_ne _ _) fun h => h.1 rfl
  · have hlen := length_decimal ⟨by omega, hv.2⟩
    rw [printInt_eq ⟨by omega, hv.2⟩, Option.some.injEq, aligned_inj, and_iff_right hmin]
    by_cases hlow : -2 ^ 15 ≤ width - (decimal value).length
    · have hsame : toShort (width - (decimal value).length) = width - (decimal value).length :=
        Int.bmod_eq_of_le (by omega) (by omega)
      exact iff_of_true (by rw [hsame]) hlow
    · -- the width counter has come around to the largest values of a `short`
      have hwrap : toShort (width - (decimal value).length) =
          width - (decimal value).length + 2 ^ 16 := by
        unfold toShort
        rw [← Int.add_bmod_right]
        exact Int.bmod_eq_of_le (by omega) (by omega)
      rw [hwrap]
      exact iff_of_false (by omega) hlow

/-- A negative value in five characters. -/
theorem intRendered_iff_five : IntRendered false 5 (-42) ∧
    printInt false 5 (-42) = some [' ', ' ', '-', '4', '2'] :=
  have hrendered := (intRendered_iff false (by decide) (by decide)).mpr (by decide)
  ⟨hrendered, hrendered.1.trans (by decide)⟩

/-- **The least `int`** is printed as `-0`. -/
theorem intRendered_min : ¬ ∀ leftAlign width value, -2 ^ 15 ≤ width ∧ width < 2 ^ 15 →
    -2 ^ 31 ≤ value ∧ value < 2 ^ 31 → IntRendered leftAlign width value := by
  intro hall
  have hmin := (hall false 0 (-2 ^ 31) (by decide) (by decide)).1
  rw [printInt_min, Option.some.injEq] at hmin
  exact absurd hmin (by decide)

/-- A width that a `short` does not hold leaves the counter at its least value. -/
example : widthModifier 0 ['3', '2', '7', '6', '8', 'd'] = (-2 ^ 15, ['d']) := by decide

end PingPongOS
