import Graft.Moment
import Graft.Proofs.Text.Digits
import Mathlib.Algebra.Group.Nat.Defs

/-!
# Stamps are read back

The fields of a stamp stand next to each other without anything between them, and each can be read
off in several ways. The first way for the first field is the right one each time, as every field
has all of its digits:

> `ofStamp?_stamp`: the stamp of a moment of the years 1000 to 9999 is read as that moment.

In a stamp there are digits and two letters only (`of_mem_stamp`).
-/

namespace Graft

namespace Moment

variable {n : Nat} {t r : Text} {m : Moment}

/-- Moments that are written with a year of four digits. -/
structure IsStamped (m : Moment) : Prop where
  real : m.isReal = true
  first : 1000 ≤ m.year
  last : m.year ≤ 9999

instance (m : Moment) : Decidable m.IsStamped :=
  decidable_of_iff (m.isReal = true ∧ 1000 ≤ m.year ∧ m.year ≤ 9999)
    ⟨fun ⟨h, h', h''⟩ => ⟨h, h', h''⟩, fun h => ⟨h.real, h.first, h.last⟩⟩

/-- The parts of a moment make it up. -/
theorem parts_injective : Function.Injective parts := by
  rintro ⟨⟩ ⟨⟩ h
  simpa [parts] using h

/-! ## Digits of numbers of a known width -/

theorem padded_succ {width : Nat} (h : 0 < width) :
    padded (width + 1) n = padded width (n / 10) ++ [Text.digit (n % 10)] :=
  Text.zeroPadded_succ h

theorem padded_one (h : n < 10) : padded 1 n = [Text.digit n] := by
  rw [padded, Text.padLeft, Text.ofNat, Nat.toDigits_eq_if (by decide), if_pos h]
  rfl

theorem padded_two (h : n < 100) :
    padded 2 n = [Text.digit (n / 10), Text.digit (n % 10)] := by
  rw [padded_succ (by decide), padded_one (by omega)]
  rfl

theorem padded_four (h : n < 10000) :
    padded 4 n = [Text.digit (n / 1000), Text.digit (n / 100 % 10),
      Text.digit (n / 10 % 10), Text.digit (n % 10)] := by
  rw [padded_succ (by decide), padded_succ (by decide), padded_two (by omega)]
  simp only [Nat.div_div_eq_div_mul, List.cons_append, List.nil_append]

theorem padded_six (h : n < 1000000) :
    padded 6 n = [Text.digit (n / 100000), Text.digit (n / 10000 % 10),
      Text.digit (n / 1000 % 10), Text.digit (n / 100 % 10),
      Text.digit (n / 10 % 10), Text.digit (n % 10)] := by
  rw [padded_succ (by decide), padded_succ (by decide), padded_four (by omega)]
  simp only [Nat.div_div_eq_div_mul, List.cons_append, List.nil_append]

/-- A number of four digits needs no zeros before it. -/
theorem ofNat_eq_padded (h : 1000 ≤ n) : Text.ofNat n = padded 4 n := by
  have hlength : 4 ≤ (Nat.toDigits 10 n).length := by
    rcases Nat.lt_or_ge (Nat.toDigits 10 n).length 4 with hlt | hge
    · have hle : (Nat.toDigits 10 n).length ≤ 3 := by omega
      rw [Nat.length_toDigits_le_iff (by decide) (by decide)] at hle
      omega
    · exact hge
  rw [padded, Text.padLeft, Text.ofNat, List.length_map, Nat.sub_eq_zero_of_le hlength]
  rfl

/-! ## Fields -/

namespace Field

theorem head?_flatMap {α β : Type} {as : List α} {a : α} {b : β} {g : α → List β}
    (ha : as.head? = some a) (hb : (g a).head? = some b) : (as.flatMap g).head? = some b := by
  obtain ⟨others, rfl⟩ := List.head?_eq_some_iff.1 ha
  obtain ⟨more, hmore⟩ := List.head?_eq_some_iff.1 hb
  rw [List.flatMap_cons, hmore]
  rfl

theorem head?_map {α β : Type} {as : List α} {a : α} (g : α → β) (ha : as.head? = some a) :
    (as.map g).head? = some (g a) := by
  rw [List.head?_map, ha]
  rfl

/-- Two fields one after the other, each read in the first way that there is. -/
theorem head?_followedBy {f g : Field} {s : Text} {k : Nat} (hf : (f t).head? = some (n, r))
    (hg : (g r).head? = some (k, s)) : (followedBy f g t).head? = some (10 * n + k, s) :=
  head?_flatMap hf (head?_map _ hg)

theorem followedBy_eq_nil {f g : Field} (hf : f t = []) : followedBy f g t = [] := by
  rw [followedBy, hf]
  rfl

theorem head?_oneOf {f : Field} {fs : List Field} (hf : (f t).head? = some (n, r)) :
    (oneOf (f :: fs) t).head? = some (n, r) :=
  head?_flatMap rfl hf

theorem oneOf_of_eq_nil {f : Field} {fs : List Field} (hf : f t = []) :
    oneOf (f :: fs) t = oneOf fs t := by
  rw [oneOf, List.flatMap_cons, hf]
  rfl

theorem head?_sequence {f : Field} {fs : List Field} {ns : List Nat} {s : Text}
    (hf : (f t).head? = some (n, r)) (hfs : (sequence fs r).head? = some (ns, s)) :
    (sequence (f :: fs) t).head? = some (n :: ns, s) :=
  head?_flatMap hf (head?_map _ hfs)

theorem digit_cons (h : n < 10) : digit (Text.digit n :: r) = [(n, r)] := by
  rw [digit, Text.digitValue?_digit h]
  rfl

theorem between_cons {low high : Nat} (h : n < 10) :
    between low high (Text.digit n :: r) = if low ≤ n ∧ n ≤ high then [(n, r)] else [] := by
  have hvalue := Text.toNat_digit h
  simp only [between, hvalue, Text.isDigit_digit h, true_and]

/-- Two digits, where the first is between two bounds and the second between others. -/
theorem head?_between_between {a b c e : Nat} (h : n < 100) (htens : a ≤ n / 10 ∧ n / 10 ≤ b)
    (hones : c ≤ n % 10 ∧ n % 10 ≤ e) :
    (followedBy (between a b) (between c e) (padded 2 n ++ r)).head? = some (n, r) := by
  rw [padded_two h]
  have hfirst : (between a b ([Text.digit (n / 10), Text.digit (n % 10)] ++ r)).head? =
      some (n / 10, Text.digit (n % 10) :: r) := by
    rw [List.cons_append, between_cons (by omega), if_pos htens]
    rfl
  have hsecond : (between c e (Text.digit (n % 10) :: r)).head? = some (n % 10, r) := by
    rw [between_cons (by omega), if_pos hones]
    rfl
  rw [head?_followedBy hfirst hsecond, Nat.div_add_mod]

theorem head?_between_digit {a b : Nat} (h : n < 100) (htens : a ≤ n / 10 ∧ n / 10 ≤ b) :
    (followedBy (between a b) digit (padded 2 n ++ r)).head? = some (n, r) := by
  rw [padded_two h]
  have hfirst : (between a b ([Text.digit (n / 10), Text.digit (n % 10)] ++ r)).head? =
      some (n / 10, Text.digit (n % 10) :: r) := by
    rw [List.cons_append, between_cons (by omega), if_pos htens]
    rfl
  have hsecond : (digit (Text.digit (n % 10) :: r)).head? = some (n % 10, r) := by
    rw [digit_cons (by omega)]
    rfl
  rw [head?_followedBy hfirst hsecond, Nat.div_add_mod]

/-- The first digit is not between two bounds. -/
theorem between_eq_nil {a b : Nat} (h : n < 100) (htens : n / 10 < a ∨ b < n / 10) :
    between a b (padded 2 n ++ r) = [] := by
  rw [padded_two h, List.cons_append, between_cons (by omega), if_neg (by omega)]

theorem head?_year (h : n < 10000) : (year (padded 4 n ++ r)).head? = some (n, r) := by
  rw [padded_four h]
  have hdigit : ∀ {k : Nat} {s : Text}, k < 10 →
      (digit (Text.digit k :: s)).head? = some (k, s) := by
    intro k s hk
    rw [digit_cons hk]
    rfl
  have hread := head?_followedBy (head?_followedBy (head?_followedBy
    (hdigit (show n / 1000 < 10 by omega)) (hdigit (show n / 100 % 10 < 10 by omega)))
    (hdigit (show n / 10 % 10 < 10 by omega)))
    (hdigit (s := r) (show n % 10 < 10 by omega))
  have hvalue : 10 * (10 * (10 * (n / 1000) + n / 100 % 10) + n / 10 % 10) + n % 10 = n := by
    omega
  rw [hvalue] at hread
  exact hread

theorem head?_month (hpos : 1 ≤ n) (h : n ≤ 12) :
    (month (padded 2 n ++ r)).head? = some (n, r) := by
  by_cases hn : 10 ≤ n
  · exact head?_oneOf (head?_between_between (by omega) (by omega) (by omega))
  · have hskip : followedBy (between 1 1) (between 0 2) (padded 2 n ++ r) = [] :=
      followedBy_eq_nil (between_eq_nil (by omega) (by omega))
    rw [month, oneOf_of_eq_nil hskip]
    exact head?_oneOf (head?_between_between (by omega) (by omega) (by omega))

theorem head?_day (hpos : 1 ≤ n) (h : n ≤ 31) : (day (padded 2 n ++ r)).head? = some (n, r) := by
  by_cases hthirty : 30 ≤ n
  · exact head?_oneOf (head?_between_between (by omega) (by omega) (by omega))
  · have hskip : followedBy (between 3 3) (between 0 1) (padded 2 n ++ r) = [] :=
      followedBy_eq_nil (between_eq_nil (by omega) (by omega))
    rw [day, oneOf_of_eq_nil hskip]
    by_cases hten : 10 ≤ n
    · exact head?_oneOf (head?_between_digit (by omega) (by omega))
    · have hskip : followedBy (between 1 2) digit (padded 2 n ++ r) = [] :=
        followedBy_eq_nil (between_eq_nil (by omega) (by omega))
      rw [oneOf_of_eq_nil hskip]
      exact head?_oneOf (head?_between_between (by omega) (by omega) (by omega))

theorem head?_hour (h : n ≤ 23) : (hour (padded 2 n ++ r)).head? = some (n, r) := by
  by_cases hn : 20 ≤ n
  · exact head?_oneOf (head?_between_between (by omega) (by omega) (by omega))
  · have hskip : followedBy (between 2 2) (between 0 3) (padded 2 n ++ r) = [] :=
      followedBy_eq_nil (between_eq_nil (by omega) (by omega))
    rw [hour, oneOf_of_eq_nil hskip]
    exact head?_oneOf (head?_between_digit (by omega) (by omega))

theorem head?_minute (h : n ≤ 59) : (minute (padded 2 n ++ r)).head? = some (n, r) :=
  head?_oneOf (head?_between_digit (by omega) (by omega))

theorem head?_second (h : n ≤ 59) : (second (padded 2 n ++ r)).head? = some (n, r) := by
  have hskip : followedBy (between 6 6) (between 0 1) (padded 2 n ++ r) = [] :=
    followedBy_eq_nil (between_eq_nil (by omega) (by omega))
  rw [second, oneOf_of_eq_nil hskip]
  exact head?_oneOf (head?_between_digit (by omega) (by omega))

theorem head?_fractionOf_succ (place : Nat) {k rest : Nat} {s : Text} (hn : n < 10)
    (h : (fractionOf (place - 1) k t).head? = some (rest, s)) :
    (fractionOf place (k + 1) (Text.digit n :: t)).head? =
      some (n * 10 ^ (place - 1) + rest, s) := by
  have hdigit : (between 0 9 (Text.digit n :: t)).head? = some (n, t) := by
    rw [between_cons hn, if_pos (by omega)]
    rfl
  exact head?_flatMap hdigit (head?_map _ h)

theorem head?_fraction (h : n < 1000000) : (fraction (padded 6 n ++ r)).head? = some (n, r) := by
  refine head?_oneOf ?_
  rw [padded_six h]
  have hend : (fractionOf 0 0 r).head? = some (0, r) := rfl
  have hread := head?_fractionOf_succ 6 (show n / 100000 < 10 by omega) <|
    head?_fractionOf_succ _ (show n / 10000 % 10 < 10 by omega) <|
    head?_fractionOf_succ _ (show n / 1000 % 10 < 10 by omega) <|
    head?_fractionOf_succ _ (show n / 100 % 10 < 10 by omega) <|
    head?_fractionOf_succ _ (show n / 10 % 10 < 10 by omega) <|
    head?_fractionOf_succ _ (show n % 10 < 10 by omega) hend
  have hvalue : n / 100000 * 10 ^ (6 - 1) + (n / 10000 % 10 * 10 ^ (6 - 1 - 1) +
      (n / 1000 % 10 * 10 ^ (6 - 1 - 1 - 1) + (n / 100 % 10 * 10 ^ (6 - 1 - 1 - 1 - 1) +
      (n / 10 % 10 * 10 ^ (6 - 1 - 1 - 1 - 1 - 1) +
      (n % 10 * 10 ^ (6 - 1 - 1 - 1 - 1 - 1 - 1) + 0))))) = n := by
    omega
  rw [hvalue] at hread
  exact hread

theorem letter_upper (upper lower : CodePoint) :
    (letter upper lower (upper :: r)).head? = some (0, r) := by
  simp [letter]

end Field

/-! ## Stamps -/

/-- The stamp of a moment of the years 1000 to 9999 is read as that moment. -/
theorem ofStamp?_stamp (h : m.IsStamped) : ofStamp? m.stamp = some m := by
  have hreal : 1 ≤ m.year ∧ 1 ≤ m.month ∧ m.month ≤ 12 ∧ 1 ≤ m.day ∧
      m.day ≤ daysIn m.year m.month ∧ m.hour ≤ 23 ∧ m.minute ≤ 59 ∧ m.second ≤ 59 ∧
      m.microsecond ≤ 999999 := of_decide_eq_true h.real
  have hdays : daysIn m.year m.month ≤ 31 := by
    unfold daysIn
    split
    · split <;> decide
    · split <;> decide
  have hlast := h.last
  have hsequence : (Field.sequence stampFields m.stamp).head? = some ([m.year, m.month, m.day, 0,
      m.hour, m.minute, m.second, m.microsecond, 0], []) := by
    rw [stamp, ofNat_eq_padded h.first]
    simp only [List.append_assoc, List.cons_append]
    exact Field.head?_sequence (Field.head?_year (by omega)) <|
      Field.head?_sequence (Field.head?_month (by omega) (by omega)) <|
      Field.head?_sequence (Field.head?_day (by omega) (by omega)) <|
      Field.head?_sequence (Field.letter_upper (.char 'T') (.char 't')) <|
      Field.head?_sequence (Field.head?_hour (by omega)) <|
      Field.head?_sequence (Field.head?_minute (by omega)) <|
      Field.head?_sequence (Field.head?_second (by omega)) <|
      Field.head?_sequence (Field.head?_fraction (by omega)) <|
      Field.head?_sequence (Field.letter_upper (.char 'Z') (.char 'z')) rfl
  rw [ofStamp?, hsequence]
  exact if_pos h.real

/-- In a stamp there are digits and two letters only. -/
theorem of_mem_stamp {c : CodePoint} (h : c ∈ m.stamp) :
    c.isDigit = true ∨ c = .char 'T' ∨ c = .char 'Z' := by
  have hyear : ∀ {c}, c ∈ Text.ofNat m.year → c.isDigit = true :=
    fun hc => Text.isDigit_of_mem_ofNat hc
  have hpadded : ∀ {c width n}, c ∈ padded width n → c.isDigit = true :=
    fun hc => Text.isDigit_of_mem_zeroPadded hc
  simp only [stamp, List.mem_append, List.mem_cons, List.not_mem_nil, or_false] at h
  grind

theorem mem_stamp_T (m : Moment) : .char 'T' ∈ m.stamp := by
  simp [stamp]

end Moment

end Graft
