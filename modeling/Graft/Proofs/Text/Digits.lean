import Graft.Text.Numeral

/-!
# Numbers in writing

A number written with zeros before it to a width consists of digits (`isDigit_of_mem_zeroPadded`),
and comes off digit by digit at its end (`zeroPadded_succ`). Unless it has more digits than a
numeral may have, it is read back:

> `toInt?_zeroPadded`: a number is read back, whatever the zeros before it.

On the other side, a text that is read as a whole number holds nothing but the characters of
numerals (`isNumeral_of_toInt?`).
-/

namespace Graft

namespace Text

variable {t : Text} {c : CodePoint} {n width : Nat}

/-! ## Digits -/

theorem digitValue?_digit : ∀ {n : Nat}, n < 10 → digitValue? (digit n) = some n := by
  decide

theorem isDigit_digit : ∀ {n : Nat}, n < 10 → (digit n).isDigit = true := by
  decide

theorem toNat_digit : ∀ {n : Nat}, n < 10 → (digit n).toNat - '0'.toNat = n := by
  decide

/-- A digit is the digit of its value. -/
theorem exists_digit (h : c.isDigit = true) : ∃ n < 10, c = digit n := by
  cases c with
  | lone half => cases h
  | char c =>
    have hc : '0'.toNat ≤ c.toNat ∧ c.toNat ≤ '9'.toNat := Char.isDigit_iff_toNat.1 h
    have hten : ∀ n < 10, (Nat.digitChar n).toNat = n + '0'.toNat := by decide
    have hlt : c.toNat - '0'.toNat < 10 := by
      have : '9'.toNat = '0'.toNat + 9 := rfl
      omega
    refine ⟨_, hlt, congrArg CodePoint.char (Char.toNat_inj.1 ?_)⟩
    rw [hten _ hlt]
    omega

theorem digitValue?_of_isDigit (h : c.isDigit = true) :
    digitValue? c = some (c.toNat - '0'.toNat) := by
  obtain ⟨n, hn, rfl⟩ := exists_digit h
  rw [digitValue?_digit hn, toNat_digit hn]

theorem isMargin_of_isDigit (h : c.isDigit = true) : isMargin c = false := by
  obtain ⟨n, hn, rfl⟩ := exists_digit h
  have hten : ∀ n < 10, isMargin (digit n) = false := by decide
  exact hten n hn

theorem isDigit_of_mem_ofNat (h : c ∈ ofNat n) : c.isDigit = true := by
  obtain ⟨d, hd, rfl⟩ := List.mem_map.1 h
  exact Nat.isDigit_of_mem_toDigits (by decide) (by decide) hd

/-! ## Zeros before a number -/

/-- A character that is the digit of no value is not among the digits of a number in any base. -/
theorem not_mem_toDigits {base : Nat} (hbase : 1 < base) (hc : ∀ k, digit k ≠ c) (n : Nat) :
    c ∉ (Nat.toDigits base n).map .char := by
  induction n using Nat.strongRecOn with
  | _ n ih =>
    rw [Nat.toDigits_eq_if hbase]
    split
    · rw [List.map_singleton, List.mem_singleton]
      exact (hc n).symm
    · next hn =>
      rw [List.map_append, List.map_singleton, List.mem_append, List.mem_singleton, not_or]
      exact ⟨ih (n / base) (Nat.div_lt_self (by omega) hbase), (hc _).symm⟩

theorem not_mem_zeroPadded {base : Nat} (hbase : 1 < base) (hc : ∀ k, digit k ≠ c)
    (width n : Nat) : c ∉ padLeft width (.char '0') ((Nat.toDigits base n).map .char) := by
  rw [padLeft, List.mem_append, not_or]
  refine ⟨fun hmem => ?_, not_mem_toDigits hbase hc n⟩
  exact hc 0 (List.eq_of_mem_replicate hmem).symm

theorem isDigit_of_mem_zeroPadded (h : c ∈ padLeft width (.char '0') (ofNat n)) :
    c.isDigit = true := by
  rcases List.mem_append.1 h with h | h
  · rw [List.eq_of_mem_replicate h]
    rfl
  · exact isDigit_of_mem_ofNat h

theorem zeroPadded_ne_nil : padLeft width (.char '0') (ofNat n) ≠ [] := by
  intro h
  have hn : Nat.toDigits 10 n = [] := List.map_eq_nil_iff.1 (List.append_eq_nil_iff.1 h).2
  rw [Nat.toDigits_eq_if (by decide)] at hn
  split at hn
  · cases hn
  · simp at hn

/-- The last digit comes off at the end, and the others make a tenth of the number. -/
theorem zeroPadded_succ (hwidth : 0 < width) :
    padLeft (width + 1) (.char '0') (ofNat n) =
      padLeft width (.char '0') (ofNat (n / 10)) ++ [digit (n % 10)] := by
  unfold padLeft ofNat
  rw [Nat.toDigits_eq_if (by decide : 1 < 10) (n := n)]
  split
  · next hn =>
    have hzero : n / 10 = 0 := Nat.div_eq_of_lt hn
    rw [hzero, Nat.mod_eq_of_lt hn, show Nat.toDigits 10 0 = ['0'] from rfl]
    simp only [List.map_singleton, List.length_singleton, Nat.add_sub_cancel]
    have hreplicate : List.replicate width (CodePoint.char '0') =
        List.replicate (width - 1) (.char '0') ++ [.char '0'] := by
      rw [← List.replicate_succ', Nat.sub_add_cancel hwidth]
    rw [hreplicate, digit]
  · rw [List.map_append, List.length_append, List.map_singleton, List.length_singleton,
      Nat.add_sub_add_right, List.append_assoc, digit]

/-! ## Reading -/

theorem dropRight_eq_self {p : CodePoint → Bool} (h : ∀ c ∈ t, p c = false) :
    dropRight p t = t := by
  unfold dropRight
  have hkept : t.reverse.dropWhile p = t.reverse := by
    cases hr : t.reverse with
    | nil => rfl
    | cons c r =>
      have hc : c ∈ t := List.mem_reverse.1 (hr ▸ List.mem_cons_self)
      rw [List.dropWhile_cons_of_neg (by simp [h c hc])]
  rw [hkept, List.reverse_reverse]

theorem digitsOf?_cons {r : Text} (h : c.isDigit = true) (hr : r ≠ [])
    (hhead : r.head? ≠ some (.char '_')) :
    digitsOf? (c :: r) = (digitsOf? r).map ((c.toNat - '0'.toNat) :: ·) := by
  cases r with
  | nil => exact absurd rfl hr
  | cons d s =>
    have hd : d ≠ .char '_' := fun he => hhead (congrArg some he)
    rw [digitsOf?, digitValue?_of_isDigit h]
    · cases digitsOf? (d :: s) with
      | none => rfl
      | some ds => rfl
    · intro he
      cases he
    · intro s' he
      cases he
      exact hd rfl

/-- A run of digits is read as the list of their values. -/
theorem digitsOf?_of_isDigit (ht : t ≠ []) (h : ∀ c ∈ t, c.isDigit = true) :
    digitsOf? t = some (t.map fun c => c.toNat - '0'.toNat) := by
  induction t with
  | nil => exact absurd rfl ht
  | cons c r ih =>
    have hc := h c List.mem_cons_self
    have hr := fun d hd => h d (List.mem_cons_of_mem c hd)
    cases r with
    | nil =>
      rw [digitsOf?, digitValue?_of_isDigit hc]
      rfl
    | cons d s =>
      have hd : (d :: s).head? ≠ some (.char '_') := by
        intro he
        cases he
        exact absurd (hr (.char '_') List.mem_cons_self) (by decide)
      rw [digitsOf?_cons hc (by simp) hd, ih (by simp) hr]
      rfl

/-- The number that a run of the digits 0 to 9 writes. -/
def valueOf (t : Text) : Nat :=
  valueOfDigits (t.map fun c => c.toNat - '0'.toNat)

/-- A run of digits is read as the number that they write. -/
theorem toInt?_of_isDigit (ht : t ≠ []) (h : ∀ c ∈ t, c.isDigit = true)
    (hlength : t.length ≤ maxDigits) : toInt? t = some (Int.ofNat (valueOf t)) := by
  have hmargin : dropRight isMargin (t.dropWhile isMargin) = t := by
    have hstart : t.dropWhile isMargin = t := by
      cases t with
      | nil => rfl
      | cons c r =>
        rw [List.dropWhile_cons_of_neg
          (by simp [isMargin_of_isDigit (h c List.mem_cons_self)])]
    rw [hstart]
    exact dropRight_eq_self fun c hc => isMargin_of_isDigit (h c hc)
  have hread : toNat? t = some (valueOf t) := by
    simp only [toNat?, digitsOf?_of_isDigit ht h, Option.bind_eq_bind, Option.bind_some,
      List.length_map, if_pos hlength]
    rfl
  unfold toInt?
  rw [hmargin]
  -- a sign is no digit, so the text is read as it is
  split
  · exact absurd (h (.char '-') List.mem_cons_self) (by decide)
  · exact absurd (h (.char '+') List.mem_cons_self) (by decide)
  · rw [hread]
    rfl

theorem valueOf_map (cs : List Char) : valueOf (cs.map .char) = Nat.ofDigitChars 10 cs 0 := by
  rw [valueOf, valueOfDigits, List.map_map, List.foldl_map]
  rfl

theorem valueOf_ofNat : valueOf (ofNat n) = n := by
  rw [ofNat, valueOf_map, Nat.ofDigitChars_ten_toDigits]

theorem valueOf_zeroPadded : valueOf (padLeft width (.char '0') (ofNat n)) = n := by
  rw [padLeft, ofNat, ← List.map_replicate, ← List.map_append, valueOf_map,
    Nat.ofDigitChars_append, Nat.ofDigitChars_replicate_zero, Nat.mul_zero]
  exact Nat.ofDigitChars_ten_toDigits

/-- A number is read back, whatever the zeros before it. -/
theorem toInt?_zeroPadded (hlength : (padLeft width (.char '0') (ofNat n)).length ≤ maxDigits) :
    toInt? (padLeft width (.char '0') (ofNat n)) = some n := by
  have hdigits : ∀ c ∈ padLeft width (.char '0') (ofNat n), c.isDigit = true :=
    fun c hc => isDigit_of_mem_zeroPadded hc
  rw [toInt?_of_isDigit zeroPadded_ne_nil hdigits hlength, valueOf_zeroPadded]
  rfl

/-- The characters of numerals: digits of any script, underscores, signs and margins. -/
def isNumeral (c : CodePoint) : Bool :=
  (digitValue? c).isSome || c == .char '_' || c == .char '-' || c == .char '+' || isMargin c

theorem isNumeral_of_digitsOf? {ds : List Nat} (h : digitsOf? t = some ds) (hc : c ∈ t) :
    isNumeral c = true := by
  fun_induction digitsOf? t generalizing ds with
  | case1 => cases hc
  | case2 d =>
    obtain ⟨v, hv, -⟩ := Option.map_eq_some_iff.1 h
    rw [List.mem_singleton.1 hc, isNumeral, hv]
    rfl
  | case3 d r ih =>
    obtain ⟨v, hv, h⟩ := Option.bind_eq_some_iff.1 h
    obtain ⟨vs, hvs, -⟩ := Option.bind_eq_some_iff.1 h
    rcases List.mem_cons.1 hc with rfl | hc
    · rw [isNumeral, hv]
      rfl
    · rcases List.mem_cons.1 hc with rfl | hc
      · rfl
      · exact ih hvs hc
  | case4 d r _ _ ih =>
    obtain ⟨v, hv, h⟩ := Option.bind_eq_some_iff.1 h
    obtain ⟨vs, hvs, -⟩ := Option.bind_eq_some_iff.1 h
    rcases List.mem_cons.1 hc with rfl | hc
    · rw [isNumeral, hv]
      rfl
    · exact ih hvs hc

theorem isNumeral_of_toNat? (h : toNat? t = some n) (hc : c ∈ t) : isNumeral c = true := by
  obtain ⟨ds, hds, -⟩ := Option.bind_eq_some_iff.1 h
  exact isNumeral_of_digitsOf? hds hc

theorem mem_dropWhile_or {p : CodePoint → Bool} (h : c ∈ t) : c ∈ t.dropWhile p ∨ p c = true := by
  induction t with
  | nil => cases h
  | cons d r ih =>
    by_cases hd : p d = true
    · rw [List.dropWhile_cons_of_pos hd]
      rcases List.mem_cons.1 h with rfl | h
      · exact .inr hd
      · exact ih h
    · rw [List.dropWhile_cons_of_neg hd]
      exact .inl h

/-- A text that is read as a whole number holds nothing but the characters of numerals. -/
theorem isNumeral_of_toInt? {i : Int} (h : toInt? t = some i) (hc : c ∈ t) :
    isNumeral c = true := by
  have hinner : c ∈ dropRight isMargin (t.dropWhile isMargin) ∨ isMargin c = true := by
    rcases mem_dropWhile_or (p := isMargin) hc with hc | hc
    · rcases mem_dropWhile_or (p := isMargin) (List.mem_reverse.2 hc) with hc | hc
      · exact .inl (List.mem_reverse.2 hc)
      · exact .inr hc
    · exact .inr hc
  rcases hinner with hinner | hmargin
  · unfold toInt? at h
    split at h
    · next r hr =>
      obtain ⟨n, hn, -⟩ := Option.map_eq_some_iff.1 h
      rw [hr] at hinner
      rcases List.mem_cons.1 hinner with rfl | hinner
      · rfl
      · exact isNumeral_of_toNat? hn hinner
    · next r hr =>
      obtain ⟨n, hn, -⟩ := Option.map_eq_some_iff.1 h
      rw [hr] at hinner
      rcases List.mem_cons.1 hinner with rfl | hinner
      · rfl
      · exact isNumeral_of_toNat? hn hinner
    · obtain ⟨n, hn, -⟩ := Option.map_eq_some_iff.1 h
      exact isNumeral_of_toNat? hn hinner
  · rw [isNumeral, hmargin, Bool.or_true]

end Text

end Graft
