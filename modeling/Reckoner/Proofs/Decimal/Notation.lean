/-
# Plain notation is read back

`Spells cs c e` says that the characters `cs` are a numeral without sign and
exponent, with a digit in front of the point, for the number `c · 10^e`.  Plain
notation is always of that form, however the point falls:

    the number                 is written        read as
    12345 · 10^2               1234500           1234500 · 10^0
    12345 · 10^-2              123.45            12345 · 10^-2
    12345 · 10^-7              0.0012345         12345 · 10^-7

and a numeral of that form is read as the number it spells.  Only a number that
ends in zeros comes back with another pair of coefficient and exponent.
-/
import Reckoner.Decimal.Notation
import Reckoner.Decimal.Numeral
import Reckoner.Proofs.Decimal.Value

namespace Reckoner

/-! ## Digits as characters -/

theorem digitsValue_append_zeros (ds : List Char) (k : Nat) :
    digitsValue (ds ++ zeros k) = digitsValue ds * pow10 k := by
  have happend : digitsValue (ds ++ zeros k) = Nat.ofDigitChars 10 (zeros k) (digitsValue ds) :=
    Nat.ofDigitChars_append 0
  rw [happend, zeros, Nat.ofDigitChars_replicate_zero, Nat.mul_comm]
  rfl

theorem digitsValue_zeros_append (k : Nat) (ds : List Char) :
    digitsValue (zeros k ++ ds) = digitsValue ds := by
  have happend : digitsValue (zeros k ++ ds) =
      Nat.ofDigitChars 10 ds (Nat.ofDigitChars 10 (zeros k) 0) := Nat.ofDigitChars_append 0
  rw [happend, zeros, Nat.ofDigitChars_replicate_zero, Nat.mul_zero]
  rfl

theorem digitsValue_digitChars (n : Nat) : digitsValue (digitChars n) = n :=
  Nat.ofDigitChars_ten_toDigits

theorem isDigit_of_mem_digitChars {n : Nat} : ∀ c ∈ digitChars n, isDigit c = true :=
  fun _ h => Nat.isDigit_of_mem_toDigits (by decide) (by decide) h

theorem isDigit_of_mem_zeros {k : Nat} : ∀ c ∈ zeros k, isDigit c = true := by
  intro c h
  rw [List.eq_of_mem_replicate h]
  rfl

/-- A character that is no digit differs from every digit. -/
theorem ne_of_isDigit {c d : Char} (hc : isDigit c = true) (hd : isDigit d = false) : c ≠ d := by
  rintro rfl
  rw [hc] at hd
  cases hd

theorem takeWhile_digits {ds : List Char} (h : ∀ c ∈ ds, isDigit c = true) :
    ds.takeWhile isDigit = ds ∧ ds.dropWhile isDigit = [] := by
  have htake : (ds ++ []).takeWhile isDigit = ds ++ [] := List.takeWhile_append_of_pos h
  have hdrop : (ds ++ []).dropWhile isDigit = [] := List.dropWhile_append_of_pos h
  rw [List.append_nil] at htake hdrop
  exact ⟨htake, hdrop⟩

theorem takeWhile_digits_point {ds : List Char} (h : ∀ c ∈ ds, isDigit c = true)
    (rest : List Char) :
    (ds ++ '.' :: rest).takeWhile isDigit = ds ∧
      (ds ++ '.' :: rest).dropWhile isDigit = '.' :: rest := by
  have hpoint : ¬isDigit '.' = true := by decide
  rw [List.takeWhile_append_of_pos h, List.dropWhile_append_of_pos h,
    List.takeWhile_cons_of_neg hpoint, List.dropWhile_cons_of_neg hpoint, List.append_nil]
  exact ⟨rfl, rfl⟩

/-! ## What plain notation spells -/

/-- `Spells cs c e`: digits, and perhaps a point and more digits, that read as
`c · 10^e`. -/
inductive Spells : List Char → Nat → Int → Prop
  | whole {ds : List Char} :
      ds ≠ [] → (∀ c ∈ ds, isDigit c = true) → Spells ds (digitsValue ds) 0
  | point {ds fs : List Char} :
      ds ≠ [] → (∀ c ∈ ds, isDigit c = true) → fs ≠ [] → (∀ c ∈ fs, isDigit c = true) →
      Spells (ds ++ '.' :: fs) (digitsValue (ds ++ fs)) (-fs.length)

section

variable {ds : List Char}

/-- The point falls behind the digits. -/
theorem spells_shifted (hne : ds ≠ []) (hds : ∀ c ∈ ds, isDigit c = true) (k : Nat) :
    Spells (ds ++ zeros k) (digitsValue ds * pow10 k) 0 := by
  rw [← digitsValue_append_zeros]
  exact .whole (List.append_ne_nil_of_left_ne_nil hne _)
    (List.forall_mem_append.mpr ⟨hds, isDigit_of_mem_zeros⟩)

/-- The point falls among the digits, with `k` of them behind it. -/
theorem spells_split (hds : ∀ c ∈ ds, isDigit c = true) {k : Nat} (hk : 0 < k)
    (hlt : k < ds.length) :
    Spells (ds.take (ds.length - k) ++ '.' :: ds.drop (ds.length - k)) (digitsValue ds) (-k) := by
  have hwhole : ds.take (ds.length - k) ≠ [] := by
    refine List.ne_nil_of_length_pos ?_
    rw [List.length_take]
    omega
  have hlen : (ds.drop (ds.length - k)).length = k := by
    rw [List.length_drop]
    omega
  have hfraction : ds.drop (ds.length - k) ≠ [] := List.ne_nil_of_length_pos (hlen.symm ▸ hk)
  have h := Spells.point hwhole (fun c hc => hds c (List.mem_of_mem_take hc)) hfraction
    fun c hc => hds c (List.mem_of_mem_drop hc)
  rwa [List.take_append_drop, hlen] at h

/-- The point falls in front of the digits, which end at the `k`th place. -/
theorem spells_small (hne : ds ≠ []) (hds : ∀ c ∈ ds, isDigit c = true) {k : Nat}
    (hle : ds.length ≤ k) :
    Spells ('0' :: '.' :: zeros (k - ds.length) ++ ds) (digitsValue ds) (-k) := by
  have hlen : (zeros (k - ds.length) ++ ds).length = k := by
    rw [List.length_append, zeros, List.length_replicate]
    omega
  have hfraction : ∀ c ∈ zeros (k - ds.length) ++ ds, isDigit c = true :=
    List.forall_mem_append.mpr ⟨isDigit_of_mem_zeros, hds⟩
  have h := Spells.point (List.cons_ne_nil '0' []) (isDigit_of_mem_zeros (k := 1))
    (List.append_ne_nil_of_right_ne_nil _ hne) hfraction
  rw [hlen, show ['0'] = zeros 1 from rfl, digitsValue_zeros_append,
    digitsValue_zeros_append] at h
  exact h

/-- Wherever the point falls, digits around it spell the number they stand for. -/
theorem spells_placePoint (hne : ds ≠ []) (hds : ∀ c ∈ ds, isDigit c = true) (e : Int) :
    Spells (placePoint ds e) (digitsValue ds * pow10 e.toNat) (e - e.toNat) := by
  unfold placePoint
  dsimp only
  split
  · next he =>
      rw [show e - (e.toNat : Int) = 0 by omega]
      exact spells_shifted hne hds e.toNat
  · next he =>
      have hbehind : e = -((-e).toNat : Int) := by omega
      have hpos : 0 < (-e).toNat := by omega
      rw [show e.toNat = 0 by omega, pow10_eq, Nat.pow_zero, Nat.mul_one, Int.natCast_zero,
        Int.sub_zero]
      generalize (-e).toNat = behind at hbehind hpos
      subst hbehind
      split
      · next hlt => exact spells_split hds hpos hlt
      · next hge => exact spells_small hne hds (Nat.le_of_not_lt hge)

end

namespace Decimal

/-- What is read from a magnitude in plain notation. -/
def readBack (x : Decimal) : Decimal := x.canonical.abs.padded x.canonical.exp.toNat

theorem spells_plainMagnitude (x : Decimal) :
    Spells x.plainMagnitude x.readBack.coeff x.readBack.exp := by
  have h := spells_placePoint Nat.toDigits_ne_nil
    (isDigit_of_mem_digitChars (n := x.canonical.coeff)) x.canonical.exp
  rw [show Nat.toDigits 10 x.canonical.coeff = digitChars x.canonical.coeff from rfl,
    digitsValue_digitChars] at h
  exact h

theorem toRat_readBack (x : Decimal) :
    x.toRat = if x.negative then -x.readBack.toRat else x.readBack.toRat := by
  rw [← toRat_canonical x, readBack, toRat_padded, ← x.negative_canonical]
  exact toRat_abs x.canonical

theorem significant_readBack {p : Nat} (hp : 0 < p) {x : Decimal} (h : x.significant ≤ p) :
    x.readBack.significant ≤ p :=
  (significant_le_iff hp).mpr ⟨_, _, (digitCount_le_iff hp).mp h, rfl⟩

end Decimal

/-! ## Reading what is spelt -/

namespace Spells

variable {cs : List Char} {c : Nat} {e : Int}

theorem exists_cons (h : Spells cs c e) : ∃ d rest, cs = d :: rest ∧ isDigit d = true := by
  cases h with
  | @whole ds hne hds | @point ds _ hne hds =>
      obtain ⟨d, rest, rfl⟩ := List.exists_cons_of_ne_nil hne
      exact ⟨d, _, rfl, hds d List.mem_cons_self⟩

theorem decimal?_eq (h : Spells cs c e) : Numeral.decimal? cs = some (c, e) := by
  unfold Numeral.decimal?
  cases h with
  | whole hne hds =>
      rw [(takeWhile_digits hds).1, (takeWhile_digits hds).2]
      simp only [hne, false_and, if_false, List.append_nil]
      rfl
  | point hne hds _ hfs =>
      rw [(takeWhile_digits_point hds _).1, (takeWhile_digits_point hds _).2]
      simp only [(takeWhile_digits hfs).1, (takeWhile_digits hfs).2, hne, false_and, if_false,
        Numeral.scale?, Option.map_some, Int.zero_sub]

theorem underscore_not_mem (h : Spells cs c e) : '_' ∉ cs := by
  have hdigit : ∀ {ds : List Char}, (∀ c ∈ ds, isDigit c = true) → '_' ∉ ds :=
    fun hds hmem => ne_of_isDigit (hds _ hmem) (by decide) rfl
  cases h with
  | whole _ hds => exact hdigit hds
  | point _ hds _ hfs =>
      intro hmem
      rcases List.mem_append.mp hmem with hmem | hmem
      · exact hdigit hds hmem
      · rcases List.mem_cons.mp hmem with heq | hmem
        · exact absurd heq (by decide)
        · exact hdigit hfs hmem

end Spells

theorem Numeral.joinDigits_eq_self {cs : List Char} (h : '_' ∉ cs) : joinDigits cs = cs := by
  induction cs using joinDigits.induct with
  | case1 | case2 => exact absurd (List.mem_cons_of_mem _ List.mem_cons_self) h
  | case3 c rest hrest ih =>
      rw [joinDigits.eq_2 _ _ hrest, ih fun hmem => h (List.mem_cons_of_mem _ hmem)]
  | case4 => rfl

/-- What starts with a digit has no sign in front. -/
theorem Numeral.splitSign_digit {d : Char} (hd : isDigit d = true) (rest : List Char) :
    splitSign (d :: rest) = (false, d :: rest) := by
  unfold splitSign
  split
  · next h => exact absurd (List.cons.inj h).1 (ne_of_isDigit hd (by decide))
  · next h => exact absurd (List.cons.inj h).1 (ne_of_isDigit hd (by decide))
  · rfl

theorem Spells.read?_eq {cs : List Char} {c : Nat} {e : Int} (h : Spells cs c e) :
    Numeral.read? cs = some ⟨false, c, e⟩ := by
  obtain ⟨d, rest, hcs, hd⟩ := h.exists_cons
  have hsign : Numeral.splitSign cs = (false, cs) := by
    rw [hcs]
    exact Numeral.splitSign_digit hd rest
  simp only [Numeral.read?, hsign, Numeral.magnitude?,
    Numeral.joinDigits_eq_self h.underscore_not_mem, h.decimal?_eq, Option.map_some]

end Reckoner
