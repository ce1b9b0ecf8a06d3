import PingPongOS.Printk

/-!
# The formats of `printk`

A format is built here from ordinary characters and the directives `%d`, `%i` and `%s`,
each with a width and an alignment or without.  The loop that reads a width takes the
digits from `1` to `9` only.  A width without a `0` is obeyed; in one with a `0` the digit
is taken for the conversion, so that `%?` and the rest of the directive are printed and its
argument is left for the next one.
-/

namespace PingPongOS

/-- `%d`, `%i` and `%s`. -/
inductive Conversion
  | d
  | i
  | s
  deriving DecidableEq

/-- The character of a conversion. -/
def Conversion.char : Conversion → Char
  | .d => 'd'
  | .i => 'i'
  | .s => 's'

/-- `%[-]w{d,i,s}`, with a width from 1 to 32767 or without one. -/
structure Directive where
  leftAlign : Bool
  width : Option Nat
  bounds : ∀ w ∈ width, 1 ≤ w ∧ w < 2 ^ 15
  conversion : Conversion

/-- The numeral of the width. -/
def Directive.numeral (d : Directive) : List Char := d.width.elim [] (Nat.toDigits 10)

/-- An ordinary character, which is neither `%` nor `NUL`, or a directive. -/
inductive Piece
  | ordinary (c : Char) (hc : c ≠ '%' ∧ c.toNat ≠ 0)
  | directive (d : Directive)

/-- The characters of a piece. -/
def Piece.text : Piece → List Char
  | .ordinary c _ => [c]
  | .directive d =>
      '%' :: ((if d.leftAlign then ['-'] else []) ++ (d.numeral ++ [d.conversion.char]))

/-- The format of the pieces. -/
def formatOf (pieces : List Piece) : List Char := pieces.flatMap Piece.text

/-- The arguments that a conversion is for: an `int` above `INT_MIN`, a string shorter than
32768. -/
def Conversion.Takes : Conversion → Vararg → Prop
  | .d, .int value | .i, .int value => -2 ^ 31 < value ∧ value < 2 ^ 31
  | .s, .string (some text) => text.length < 2 ^ 15
  | _, _ => False

/-- Each directive has its argument, and there are no others. -/
def Matches : List Piece → List Vararg → Prop
  | [], [] => True
  | .ordinary _ _ :: pieces, vargs => Matches pieces vargs
  | .directive d :: pieces, arg :: vargs => d.conversion.Takes arg ∧ Matches pieces vargs
  | _, _ => False

/-- The numeral or the string that an argument stands for. -/
def Vararg.text : Vararg → List Char
  | .int value => decimal value
  | .string (some s) => s
  | _ => []

/-- The format with each directive replaced by its argument's text, padded to the width. -/
def replaced : List Piece → List Vararg → List Char
  | .ordinary c _ :: pieces, vargs => c :: replaced pieces vargs
  | .directive d :: pieces, arg :: vargs =>
      padded d.leftAlign (d.width.getD 0) arg.text ++ replaced pieces vargs
  | _, _ => []

/-! ## The loop over the format -/

variable {c : Char} {fmt rest ds : List Char} {vargs : List Vararg} {width : Int}
  {leftAlign : Bool} {m n w : Nat} {pieces : List Piece} {d : Directive}

/-- The width modifier leaves no more of the format than there was. -/
theorem length_widthModifier (width : Int) (fmt : List Char) :
    (widthModifier width fmt).2.length ≤ fmt.length := by
  induction fmt generalizing width with
  | nil => exact Nat.le_refl 0
  | cons c fmt ih =>
      rw [widthModifier]
      split
      · exact Nat.le_succ_of_le (ih _)
      · exact Nat.le_refl _

/-- Nor does the directive. -/
theorem length_modified (leftAlign : Bool) (fmt : List Char) :
    (widthModifier 0 (if leftAlign then fmt.tail else fmt)).2.tail.length ≤ fmt.length := by
  have hmod := length_widthModifier 0 (if leftAlign then fmt.tail else fmt)
  have htail : (if leftAlign then fmt.tail else fmt).length ≤ fmt.length := by
    split
    · simp
    · exact Nat.le_refl _
  rw [List.length_tail]
  omega

/-- **More rounds than characters** change nothing. -/
theorem printkLoop_rounds (hm : fmt.length ≤ m) (hn : fmt.length ≤ n) :
    printkLoop m fmt vargs = printkLoop n fmt vargs := by
  induction m generalizing fmt vargs n with
  | zero =>
      obtain rfl := List.length_eq_zero_iff.mp (Nat.le_zero.mp hm)
      cases n <;> rfl
  | succ m ih =>
      cases fmt with
      | nil => cases n <;> rfl
      | cons c fmt =>
          obtain ⟨n, rfl⟩ : ∃ k, n = k + 1 :=
            Nat.exists_eq_succ_of_ne_zero (by rw [List.length_cons] at hn; omega)
          rw [List.length_cons] at hm hn
          rw [printkLoop, printkLoop]
          by_cases hc : c = '%'
          · rw [if_pos hc, if_pos hc]
            have hlen := length_modified (decide (fmt.head? = some '-')) fmt
            simp only [ih (Nat.le_trans hlen (Nat.le_of_succ_le_succ hm))
              (Nat.le_trans hlen (Nat.le_of_succ_le_succ hn))]
          · rw [if_neg hc, if_neg hc, ih (by omega) (show fmt.length ≤ n by omega)]

/-- An ordinary character is printed. -/
theorem printk_ordinary (hc : c ≠ '%') :
    printk (c :: fmt) vargs = (printk fmt vargs).map (c :: ·) := by
  unfold printk
  rw [List.length_cons, printkLoop, if_neg hc]
  cases printkLoop fmt.length fmt vargs <;> rfl

/-- A directive, its modifiers read. -/
theorem printk_percent (hleft : decide (fmt.head? = some '-') = leftAlign)
    (hmod : widthModifier 0 (if leftAlign then fmt.tail else fmt) = (width, rest)) :
    printk ('%' :: fmt) vargs = (printDirective leftAlign width rest.head? vargs).bind
      fun printed => (printk rest.tail printed.2).map (printed.1 ++ ·) := by
  have hlen : rest.tail.length ≤ fmt.length := by
    have h := length_modified leftAlign fmt
    rwa [hmod] at h
  unfold printk
  rw [List.length_cons, printkLoop, if_pos rfl]
  simp only [hleft, hmod]
  cases printDirective leftAlign width rest.head? vargs with
  | error e => rfl
  | ok printed =>
      change (printkLoop fmt.length rest.tail printed.2 >>= _) = Except.map _ _
      rw [printkLoop_rounds hlen (Nat.le_refl _)]
      cases printkLoop rest.tail.length rest.tail printed.2 <;> rfl

/-! ## The width -/

/-- A digit of a width that the loop takes. -/
def TakenDigit (c : Char) : Prop := '1' ≤ c ∧ c ≤ '9'

instance (c : Char) : Decidable (TakenDigit c) := by
  unfold TakenDigit
  infer_instance

theorem takenDigit_iff : TakenDigit c ↔ 49 ≤ c.toNat ∧ c.toNat ≤ 57 := by
  unfold TakenDigit
  rw [Char.le_def, Char.le_def, UInt32.le_iff_toNat_le, UInt32.le_iff_toNat_le]
  rfl

theorem widthModifier_taken (h : TakenDigit c) : widthModifier width (c :: fmt) =
    widthModifier (toShort (10 * width + (c.toNat - 48))) fmt := if_pos h

theorem widthModifier_stops (h : ¬ TakenDigit c) :
    widthModifier width (c :: fmt) = (width, c :: fmt) := if_neg h

/-- A digit of a numeral is `0` or taken. -/
theorem takenDigit_of_mem (hc : c ∈ Nat.toDigits 10 w) (hzero : c ≠ '0') : TakenDigit c := by
  have hdigit := Nat.isDigit_of_mem_toDigits (by decide) (by decide) hc
  have hne : c.toNat ≠ 48 := fun h => hzero (Char.toNat_inj.mp h)
  simp only [Char.isDigit, Bool.and_eq_true, decide_eq_true_eq, ge_iff_le,
    UInt32.le_iff_toNat_le] at hdigit
  rw [takenDigit_iff]
  change 48 ≤ c.toNat ∧ c.toNat ≤ 57 at hdigit
  omega

/-- The loop stops at the first character it does not take. -/
theorem widthModifier_rest (hds : ∀ c ∈ ds, TakenDigit c)
    (hrest : ∀ c ∈ rest.head?, ¬ TakenDigit c) :
    (widthModifier width (ds ++ rest)).2 = rest := by
  induction ds generalizing width with
  | nil =>
      cases rest with
      | nil => rfl
      | cons c rest => rw [List.nil_append, widthModifier_stops (hrest c rfl)]
  | cons c ds ih =>
      rw [List.cons_append, widthModifier_taken (hds c List.mem_cons_self)]
      exact ih fun x hx => hds x (List.mem_cons_of_mem c hx)

theorem le_ofDigitChars (ds : List Char) (w : Nat) : w ≤ Nat.ofDigitChars 10 ds w := by
  rw [Nat.ofDigitChars_eq_ofDigitChars_zero]
  exact Nat.le_add_right_of_le (Nat.le_mul_of_pos_left w (Nat.pow_pos (by decide)))

/-- The width read, which fits in a `short`. -/
theorem widthModifier_width (hds : ∀ c ∈ ds, TakenDigit c)
    (hrest : ∀ c ∈ rest.head?, ¬ TakenDigit c) (hfits : Nat.ofDigitChars 10 ds w < 2 ^ 15) :
    (widthModifier w (ds ++ rest)).1 = Nat.ofDigitChars 10 ds w := by
  induction ds generalizing w with
  | nil =>
      cases rest with
      | nil => simp [widthModifier]
      | cons c rest =>
          rw [List.nil_append, widthModifier_stops (hrest c rfl)]
          simp
  | cons c ds ih =>
      have hc := takenDigit_iff.mp (hds c List.mem_cons_self)
      rw [Nat.ofDigitChars_cons] at hfits ⊢
      have hle := le_ofDigitChars ds (10 * w + (c.toNat - '0'.toNat))
      have hshort : toShort (10 * w + (c.toNat - 48)) =
          ((10 * w + (c.toNat - '0'.toNat) : Nat) : Int) := by
        rw [show '0'.toNat = 48 from rfl] at hle hfits ⊢
        unfold toShort
        rw [Int.bmod_eq_of_le (by omega) (by omega)]
        omega
      rw [List.cons_append, widthModifier_taken (hds c List.mem_cons_self), hshort]
      exact ih (fun x hx => hds x (List.mem_cons_of_mem c hx)) hfits

/-! ## One directive -/

/-- A digit of the width that is not `0` is taken. -/
theorem takenDigit_numeral (hc : c ∈ d.numeral) (hzero : c ≠ '0') : TakenDigit c := by
  unfold Directive.numeral at hc
  cases hw : d.width with
  | none =>
      rw [hw] at hc
      exact absurd hc List.not_mem_nil
  | some w =>
      rw [hw] at hc
      exact takenDigit_of_mem hc hzero

/-- What follows the alignment of a directive. -/
theorem head_modifiers (d : Directive) (rest : List Char) :
    decide (((if d.leftAlign then ['-'] else []) ++
      (d.numeral ++ d.conversion.char :: rest)).head? = some '-') = d.leftAlign := by
  cases hleft : d.leftAlign with
  | true => rfl
  | false =>
      simp only [Bool.false_eq_true, if_false, List.nil_append, decide_eq_false_iff_not]
      cases hnum : d.numeral with
      | nil =>
          rw [List.nil_append, List.head?_cons, Option.some.injEq]
          cases d.conversion <;> decide
      | cons c ds =>
          rw [List.cons_append, List.head?_cons, Option.some.injEq]
          rintro rfl
          have hmem : '-' ∈ d.numeral := by
            rw [hnum]
            exact List.mem_cons_self
          exact absurd (takenDigit_numeral hmem (by decide)) (by decide)

/-- The characters of a directive, before the rest of the format. -/
theorem text_directive (d : Directive) (rest : List Char) :
    (Piece.directive d).text ++ rest =
      '%' :: ((if d.leftAlign then ['-'] else []) ++ (d.numeral ++ d.conversion.char :: rest)) := by
  simp [Piece.text]

/-- The format after the alignment. -/
theorem tail_modifiers (d : Directive) (rest : List Char) :
    (if d.leftAlign then
      ((if d.leftAlign then ['-'] else []) ++ (d.numeral ++ d.conversion.char :: rest)).tail
    else (if d.leftAlign then ['-'] else []) ++ (d.numeral ++ d.conversion.char :: rest)) =
      d.numeral ++ d.conversion.char :: rest := by
  cases d.leftAlign <;> rfl

/-- The conversions are no digits. -/
theorem not_takenDigit_char (d : Directive) (rest : List Char) :
    ∀ c ∈ (d.conversion.char :: rest).head?, ¬ TakenDigit c := by
  intro c hc
  obtain rfl := Option.some.inj hc
  cases d.conversion <;> decide

/-- A width without a `0` is read. -/
theorem widthModifier_numeral (hzero : '0' ∉ d.numeral) (rest : List Char) :
    widthModifier 0 (d.numeral ++ d.conversion.char :: rest) =
      (((d.width.getD 0 : Nat) : Int), d.conversion.char :: rest) := by
  have hds : ∀ c ∈ d.numeral, TakenDigit c := fun c hc =>
    takenDigit_numeral hc fun h => hzero (h ▸ hc)
  have hvalue : Nat.ofDigitChars 10 d.numeral 0 = d.width.getD 0 ∧ d.width.getD 0 < 2 ^ 15 := by
    unfold Directive.numeral
    cases hw : d.width with
    | none => exact ⟨rfl, by decide⟩
    | some w => exact ⟨Nat.ofDigitChars_toDigits (by decide) (by decide), (d.bounds w hw).2⟩
  refine Prod.ext ?_ (widthModifier_rest hds (not_takenDigit_char d rest))
  have hwidth := widthModifier_width (w := 0) hds (not_takenDigit_char d rest)
    (by rw [hvalue.1]; exact hvalue.2)
  rw [hvalue.1] at hwidth
  exact hwidth

/-- **A directive whose width has no `0`.** -/
theorem printk_directive (hzero : '0' ∉ d.numeral) (rest : List Char) (vargs : List Vararg) :
    printk ((Piece.directive d).text ++ rest) vargs =
      (printDirective d.leftAlign (d.width.getD 0 : Nat) (some d.conversion.char) vargs).bind
        fun printed => (printk rest printed.2).map (printed.1 ++ ·) := by
  rw [text_directive]
  exact printk_percent (head_modifiers d rest)
    ((congrArg (widthModifier 0) (tail_modifiers d rest)).trans (widthModifier_numeral hzero rest))

/-- Ordinary characters are printed. -/
theorem printk_append (hds : ∀ c ∈ ds, c ≠ '%') (rest : List Char) (vargs : List Vararg) :
    printk (ds ++ rest) vargs = (printk rest vargs).map (ds ++ ·) := by
  induction ds with
  | nil => cases h : printk rest vargs <;> simp [h, Except.map]
  | cons c ds ih =>
      rw [List.cons_append, printk_ordinary (hds c List.mem_cons_self),
        ih fun x hx => hds x (List.mem_cons_of_mem c hx)]
      cases printk rest vargs <;> rfl

/-- A numeral with a `0` in it is large for its length. -/
theorem lt_of_zero_mem (hw : 1 ≤ w) (hzero : '0' ∈ Nat.toDigits 10 w) :
    (Nat.toDigits 10 w).length + 2 < w := by
  obtain ⟨m, hm⟩ : ∃ m, (Nat.toDigits 10 w).length = m + 1 :=
    Nat.exists_eq_succ_of_ne_zero (Nat.pos_iff_ne_zero.mp Nat.length_toDigits_pos)
  have hm1 : m ≠ 0 := by
    rintro rfl
    have hlt : w < 10 := (Nat.length_toDigits_le_iff (b := 10) (by decide) Nat.one_pos).mp hm.le
    rw [Nat.toDigits_of_lt_base hlt, List.mem_singleton, Nat.zero_eq_digitChar] at hzero
    omega
  have hpow : 10 ^ m ≤ w := by
    have := Nat.length_toDigits_le_iff (b := 10) (n := w) (k := m) (by decide) (by omega)
    omega
  obtain ⟨j, rfl⟩ := Nat.exists_eq_succ_of_ne_zero hm1
  have hj : j < 10 ^ j := Nat.lt_pow_self (by decide)
  rw [Nat.pow_succ] at hpow
  omega

/-- **A directive whose width has a `0`** takes no argument, and prints fewer characters than
its width. -/
theorem printk_zero (hzero : '0' ∈ d.numeral) : ∃ junk, junk.length < d.width.getD 0 ∧
    ∀ rest vargs, printk ((Piece.directive d).text ++ rest) vargs =
      (printk rest vargs).map (junk ++ ·) := by
  obtain ⟨before, after, hsplit, hbefore⟩ := List.eq_append_cons_of_mem hzero
  refine ⟨['%', '?'] ++ (after ++ [d.conversion.char]), ?_, fun rest vargs => ?_⟩
  · unfold Directive.numeral at hzero hsplit
    cases hw : d.width with
    | none =>
        rw [hw] at hzero
        exact absurd hzero List.not_mem_nil
    | some w =>
        rw [hw] at hzero hsplit
        have hlarge := lt_of_zero_mem (d.bounds w hw).1 hzero
        have hlen := congrArg List.length hsplit
        simp only [Option.elim_some, List.length_append, List.length_cons, List.length_nil,
          Option.getD_some] at hlen ⊢
        omega
  · have hmod : (widthModifier 0 (d.numeral ++ d.conversion.char :: rest)).2 =
        '0' :: (after ++ d.conversion.char :: rest) := by
      rw [hsplit, List.append_assoc, List.cons_append]
      apply widthModifier_rest
      · intro c hc
        have hmem : c ∈ d.numeral := by
          rw [hsplit]
          exact List.mem_append_left _ hc
        exact takenDigit_numeral hmem fun h => hbefore (h ▸ hc)
      · intro c hc
        obtain rfl := Option.some.inj hc
        decide
    have hplain : ∀ c ∈ after ++ [d.conversion.char], c ≠ '%' := by
      intro c hc
      rcases List.mem_append.mp hc with hmem | hmem
      · rintro rfl
        have hnum : '%' ∈ d.numeral := by
          rw [hsplit]
          exact List.mem_append_right _ (List.mem_cons_of_mem _ hmem)
        exact absurd (takenDigit_numeral hnum (by decide)) (by decide)
      · rw [List.mem_singleton.mp hmem]
        cases d.conversion <;> decide
    have hrest : after ++ d.conversion.char :: rest = (after ++ [d.conversion.char]) ++ rest := by
      simp
    obtain ⟨x, hx⟩ : ∃ x, widthModifier 0 (d.numeral ++ d.conversion.char :: rest) =
        (x, '0' :: (after ++ d.conversion.char :: rest)) := ⟨_, Prod.ext rfl hmod⟩
    rw [text_directive, printk_percent (head_modifiers d rest)
      ((congrArg (widthModifier 0) (tail_modifiers d rest)).trans hx)]
    change (printk (after ++ d.conversion.char :: rest) vargs).map (['%', '?'] ++ ·) = _
    rw [hrest, printk_append hplain]
    cases printk rest vargs <;> simp [Except.map]

/-! ## The arguments -/

/-- The width goes down by one for each character. -/
theorem foldl_width (width : Int) (text : List Char) (hlo : -2 ^ 15 ≤ width - text.length)
    (hhi : width < 2 ^ 15) :
    text.foldl (fun width _ => toShort (width - 1)) width = width - text.length := by
  induction text generalizing width with
  | nil => simp
  | cons c text ih =>
      rw [List.length_cons] at hlo ⊢
      have hshort : toShort (width - 1) = width - 1 := Int.bmod_eq_of_le (by omega) (by omega)
      rw [List.foldl_cons, hshort, ih (width - 1) (by omega) (by omega)]
      omega

/-- **A directive with its argument.** -/
theorem printDirective_takes {arg : Vararg} (h : d.conversion.Takes arg) (vargs : List Vararg) :
    printDirective d.leftAlign (d.width.getD 0 : Nat) (some d.conversion.char) (arg :: vargs) =
      .ok (padded d.leftAlign (d.width.getD 0) arg.text, vargs) := by
  have hwidth : d.width.getD 0 < 2 ^ 15 := by
    cases hw : d.width with
    | none => decide
    | some w => exact (d.bounds w hw).2
  have hint : ∀ value, -2 ^ 31 < value ∧ value < 2 ^ 31 →
      printInt d.leftAlign (d.width.getD 0 : Nat) value =
        some (padded d.leftAlign (d.width.getD 0) (decimal value)) := by
    intro value hv
    have hlen := length_decimal hv
    have hshort : toShort ((d.width.getD 0 : Nat) - (decimal value).length) =
        (d.width.getD 0 : Nat) - (decimal value).length :=
      Int.bmod_eq_of_le (by omega) (by omega)
    rw [printInt_eq hv, hshort]
    rfl
  cases hconv : d.conversion with
  | d | i =>
      rw [hconv] at h
      cases arg with
      | int value =>
          have hprint := hint value h
          simp only [Conversion.char, printDirective, vaInt, hprint, bind, Except.bind]
          rfl
      | string _ | long _ => exact h.elim
  | s =>
      rw [hconv] at h
      match arg, h with
      | .string (some text), h =>
        have hlen : text.length < 2 ^ 15 := h
        have hfold := foldl_width (d.width.getD 0 : Nat) text (by omega) (by omega)
        simp only [Conversion.char, printDirective, vaString, printString, Option.getD_some, hfold,
          bind, Except.bind]
        rfl

/-- **Formats whose widths have no `0`** print what they ask for. -/
theorem printk_replaced (hzero : ∀ d, .directive d ∈ pieces → '0' ∉ d.numeral)
    (hargs : Matches pieces vargs) :
    printk (formatOf pieces) vargs = .ok (replaced pieces vargs) := by
  induction pieces generalizing vargs with
  | nil => rfl
  | cons p pieces ih =>
      have hzero' : ∀ d, .directive d ∈ pieces → '0' ∉ d.numeral := fun d hd =>
        hzero d (List.mem_cons_of_mem p hd)
      change printk (p.text ++ formatOf pieces) vargs = _
      cases p with
      | ordinary c hc =>
          change printk (c :: formatOf pieces) vargs = _
          rw [printk_ordinary hc.1, ih hzero' (by simpa [Matches] using hargs)]
          rfl
      | directive d =>
          cases vargs with
          | nil => exact hargs.elim
          | cons arg vargs =>
              obtain ⟨htakes, hrest⟩ := hargs
              rw [printk_directive (hzero d List.mem_cons_self), printDirective_takes htakes]
              change (printk (formatOf pieces) vargs).map _ = _
              rw [ih hzero' hrest]
              rfl

/-! ## Widths with a zero -/

/-- An argument that prints as little as any: `0`, or the empty string. -/
def Conversion.least : Conversion → Vararg
  | .d | .i => .int 0
  | .s => .string (some [])

/-- The least argument for each directive. -/
def leastArgs : List Piece → List Vararg
  | [] => []
  | .ordinary _ _ :: pieces => leastArgs pieces
  | .directive d :: pieces => d.conversion.least :: leastArgs pieces

/-- The number of directives whose width has a `0`. -/
def zeroWidths (pieces : List Piece) : Nat :=
  pieces.countP fun
    | .ordinary _ _ => false
    | .directive d => decide ('0' ∈ d.numeral)

theorem matches_leastArgs (pieces : List Piece) : Matches pieces (leastArgs pieces) := by
  induction pieces with
  | nil => trivial
  | cons p pieces ih =>
      cases p with
      | ordinary c hc => simpa [Matches, leastArgs] using ih
      | directive d =>
          refine ⟨?_, ih⟩
          cases d.conversion <;> simp [Conversion.Takes, Conversion.least]

theorem length_padded (leftAlign : Bool) (w : Nat) (text : List Char) :
    w ≤ (padded leftAlign w text).length := by
  unfold padded
  split <;> simp <;> omega

/-- A conversion reads a least argument as its own, or as one of another type. -/
theorem printDirective_least {args : List Vararg}
    (hargs : ∀ a ∈ args, ∃ v : Conversion, a = v.least)
    {printed : List Char × List Vararg}
    (h : printDirective d.leftAlign (d.width.getD 0 : Nat) (some d.conversion.char) args =
      .ok printed) :
    printed.1 = padded d.leftAlign (d.width.getD 0) d.conversion.least.text ∧
      ∀ a ∈ printed.2, a ∈ args := by
  cases args with
  | nil =>
      cases hconv : d.conversion <;> rw [hconv] at h <;>
        exact absurd h
          (by simp [Conversion.char, printDirective, vaInt, vaString, bind, Except.bind])
  | cons arg args =>
      by_cases hsame : arg = d.conversion.least
      · have htakes : d.conversion.Takes arg := by
          rw [hsame]
          cases d.conversion <;> simp [Conversion.Takes, Conversion.least]
        rw [printDirective_takes htakes] at h
        rw [← Except.ok.inj h, hsame]
        exact ⟨rfl, fun a ha => List.mem_cons_of_mem _ ha⟩
      · obtain ⟨v, rfl⟩ := hargs arg List.mem_cons_self
        cases hconv : d.conversion <;> rw [hconv] at h hsame <;> cases v <;>
          first
          | exact absurd rfl hsame
          | exact absurd h
              (by simp [Conversion.char, Conversion.least, printDirective, vaInt, vaString, bind,
                Except.bind])

theorem map_eq_ok {ε α β : Type} {f : α → β} {x : Except ε α} {b : β} (h : x.map f = .ok b) :
    ∃ a, x = .ok a ∧ f a = b := by
  cases x with
  | error e => exact absurd h (by simp [Except.map])
  | ok a => exact ⟨a, rfl, Except.ok.inj h⟩

/-- **With the least arguments** a width with a `0` makes the output shorter. -/
theorem length_printk_least {args : List Vararg} {out : List Char}
    (hargs : ∀ a ∈ args, ∃ v : Conversion, a = v.least)
    (h : printk (formatOf pieces) args = .ok out) :
    out.length + zeroWidths pieces ≤ (replaced pieces (leastArgs pieces)).length := by
  induction pieces generalizing args out with
  | nil =>
      obtain rfl := Except.ok.inj h
      exact Nat.le_refl 0
  | cons p pieces ih =>
      change printk (p.text ++ formatOf pieces) args = _ at h
      cases p with
      | ordinary c hc =>
          change printk (c :: formatOf pieces) args = _ at h
          rw [printk_ordinary hc.1] at h
          obtain ⟨out', hrest, rfl⟩ := map_eq_ok h
          have hle := ih hargs hrest
          have hzeros : zeroWidths (.ordinary c hc :: pieces) = zeroWidths pieces :=
            List.countP_cons_of_neg (by simp)
          rw [hzeros, List.length_cons]
          change _ ≤ (replaced pieces (leastArgs pieces)).length + 1
          omega
      | directive d =>
          have hreplaced : (replaced (.directive d :: pieces)
              (leastArgs (.directive d :: pieces))).length =
                (padded d.leftAlign (d.width.getD 0) d.conversion.least.text).length +
                  (replaced pieces (leastArgs pieces)).length := List.length_append
          rw [hreplaced]
          by_cases hzero : '0' ∈ d.numeral
          · have hzeros : zeroWidths (.directive d :: pieces) = zeroWidths pieces + 1 :=
              List.countP_cons_of_pos (by simpa using hzero)
            obtain ⟨junk, hjunk, hprint⟩ := printk_zero hzero
            rw [hprint] at h
            have hwide := length_padded d.leftAlign (d.width.getD 0) d.conversion.least.text
            obtain ⟨out', hrest, rfl⟩ := map_eq_ok h
            have hle := ih hargs hrest
            rw [hzeros, List.length_append]
            omega
          · have hzeros : zeroWidths (.directive d :: pieces) = zeroWidths pieces :=
              List.countP_cons_of_neg (by simpa using hzero)
            rw [printk_directive hzero] at h
            cases hprinted : printDirective d.leftAlign (d.width.getD 0 : Nat)
                (some d.conversion.char) args with
            | error e =>
                rw [hprinted] at h
                exact absurd h (by simp [Except.bind])
            | ok printed =>
                obtain ⟨htext, hargs'⟩ := printDirective_least hargs hprinted
                rw [hprinted] at h
                change (printk (formatOf pieces) printed.2).map _ = _ at h
                obtain ⟨out', hrest, rfl⟩ := map_eq_ok h
                have hle := ih (fun a ha => hargs a (hargs' a ha)) hrest
                rw [hzeros, List.length_append, htext]
                omega

/-- **When the widths of a format are obeyed.**  A format prints every list of matching
arguments as it asks for, if and only if no width in it has the digit `0`. -/
theorem widths_obeyed_iff (pieces : List Piece) :
    (∀ vargs, Matches pieces vargs →
      printk (formatOf pieces) vargs = .ok (replaced pieces vargs)) ↔
      ∀ d, .directive d ∈ pieces → '0' ∉ d.numeral := by
  constructor
  · intro hall d hd hzero
    have hleast : ∀ a ∈ leastArgs pieces, ∃ v : Conversion, a = v.least := by
      intro a ha
      clear hall hd
      induction pieces with
      | nil => exact absurd ha List.not_mem_nil
      | cons p pieces ih =>
          cases p with
          | ordinary c hc => exact ih ha
          | directive d =>
              rcases List.mem_cons.mp ha with rfl | hmem
              · exact ⟨d.conversion, rfl⟩
              · exact ih hmem
    have hlen := length_printk_least hleast (hall _ (matches_leastArgs pieces))
    have hpos : 0 < zeroWidths pieces :=
      List.countP_pos_iff.mpr ⟨.directive d, hd, by simpa using hzero⟩
    omega
  · exact fun hzero vargs hargs => printk_replaced hzero hargs

/-- `%10d`. -/
def widthTen : Directive where
  leftAlign := false
  width := some 10
  bounds := by simp
  conversion := .d

/-- **A width of ten**: `%10d` prints `%?d`. -/
theorem width_ten_ignored : ¬ ∀ pieces vargs, Matches pieces vargs →
    printk (formatOf pieces) vargs = .ok (replaced pieces vargs) := by
  intro hall
  have hten := hall [.directive widthTen] [.int 42] ⟨by constructor <;> decide, trivial⟩
  have hprint : printk (formatOf [.directive widthTen]) [.int 42] = .ok ['%', '?', 'd'] := rfl
  rw [hprint, Except.ok.injEq] at hten
  exact absurd (congrArg List.length hten) (by decide)

end PingPongOS
