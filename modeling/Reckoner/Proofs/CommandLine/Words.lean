/-
# Words and what they are understood as

The value of an option is understood exactly if it is a text of one kind:

    precision?    a count that is a precision       (`precision?_eq_some_iff`)
    digits?       a count that is not zero          (`digits?_eq_some_iff`)
    style?        the word of a style               (`style?_eq_some_iff`)

A count is read as the nearest double.  This moves no count that is too large to be a precision
into the range of precisions, and no count but zero to zero.

So words can ask for any precision and for any number of digits (`ofWords_oneShot`).  The
other way round, what was understood as a number of digits is not zero, in
whatever words it came (`counts_of_ofWords`).
-/
import Reckoner.CommandLine.Options
import Reckoner.Proofs.Binary64
import Reckoner.Proofs.Decimal.Notation
import Reckoner.Proofs.Sequencing

namespace Reckoner

/-- The word that names a preset. -/
def Style.word : Style → String
  | .standard => "standard"
  | .spreadsheet => "spreadsheet"

namespace Text

theorem isBlank_of_isDigit {c : Char} (h : isDigit c = true) : isBlank c = false := by
  simp only [isDigit, Bool.and_eq_true, decide_eq_true_eq, Char.le_def, UInt32.le_iff_toNat_le] at h
  have hlow : 48 ≤ c.toNat := h.1
  have hhigh : c.toNat ≤ 57 := h.2
  simp only [isBlank, blankRanges, inRanges]
  grind

theorem dropWhile_isBlank {cs : List Char} (h : ∀ c ∈ cs, isBlank c = false) :
    cs.dropWhile isBlank = cs := by
  cases cs with
  | nil => rfl
  | cons c rest => rw [List.dropWhile_cons, h c List.mem_cons_self, if_neg Bool.false_ne_true]

theorem trim_of_digits {s : String} (h : ∀ c ∈ s.toList, isDigit c = true) : trim s = s := by
  have hfront : s.toList.dropWhile isBlank = s.toList :=
    dropWhile_isBlank fun c hc => isBlank_of_isDigit (h c hc)
  have hback : s.toList.reverse.dropWhile isBlank = s.toList.reverse :=
    dropWhile_isBlank fun c hc => isBlank_of_isDigit (h c (List.mem_reverse.mp hc))
  rw [trim, trimChars, hfront, hback, List.reverse_reverse, String.ofList_toList]

end Text

namespace CommandLine

/-! ## Counts -/

/-- `IsCount s n`: the text is a run of digits that denotes `n`, blanks around it aside. -/
def IsCount (s : String) (n : Nat) : Prop :=
  (Text.trim s).toList ≠ [] ∧ (∀ c ∈ (Text.trim s).toList, isDigit c = true) ∧
    digitsValue (Text.trim s).toList = n

theorem toList_toString (n : Nat) : (toString n).toList = digitChars n := String.toList_ofList

theorem isCount_toString (n : Nat) : IsCount (toString n) n := by
  have hdigits : ∀ c ∈ (toString n).toList, isDigit c = true := by
    rw [toList_toString]
    exact isDigit_of_mem_digitChars
  rw [IsCount, Text.trim_of_digits hdigits]
  refine ⟨?_, hdigits, ?_⟩
  · rw [toList_toString]
    exact Nat.toDigits_ne_nil
  · rw [toList_toString, digitsValue_digitChars]

theorem count?_eq_some_iff {s : String} {x : Binary64} :
    count? s = some x ↔ ∃ n, IsCount s n ∧ x = .ofNat n := by
  simp only [count?, IsCount]
  generalize (Text.trim s).toList = ds
  split
  · next h =>
      refine iff_of_false nofun ?_
      rintro ⟨n, ⟨hne, hall, -⟩, -⟩
      simp only [List.isEmpty_eq_false_iff.mpr hne, List.all_eq_true.mpr hall, Bool.not_true,
        Bool.or_false, Bool.false_eq_true] at h
  · next h =>
      simp only [Bool.or_eq_true, Bool.not_eq_true', not_or, Bool.not_eq_true,
        List.isEmpty_eq_false_iff, Bool.not_eq_false, List.all_eq_true] at h
      constructor
      · rintro ⟨⟩
        exact ⟨_, ⟨h.1, h.2, rfl⟩, rfl⟩
      · rintro ⟨_, ⟨-, -, rfl⟩, rfl⟩
        rfl

/-- A precision is asked for by its count, and by nothing else: no count that is out of range is
rounded into it. -/
theorem precision?_eq_some_iff {s : String} {p : Precision} :
    precision? s = some p ↔ IsCount s p.digits := by
  have hsmall : p.digits < 2 ^ 53 := Nat.lt_of_le_of_lt p.within (by decide)
  simp only [precision?, Precision.ofBinary64?, Option.bind_eq_some_iff, count?_eq_some_iff]
  constructor
  · rintro ⟨_, ⟨n, hcount, rfl⟩, m, hm, hp⟩
    unfold Precision.ofNat? at hp
    split at hp
    · next hrange =>
        cases hp
        rwa [Binary64.eq_of_toNat?_ofNat hm hsmall] at hcount
    · cases hp
  · intro hcount
    refine ⟨_, ⟨_, hcount, rfl⟩, p.digits, Binary64.toNat?_ofNat hsmall, ?_⟩
    simp only [Precision.ofNat?, p.positive, p.within, and_self, dite_true]

/-- Any count but zero is a number of digits, however large it is. -/
theorem digits?_eq_some_iff {s : String} {x : Binary64} :
    digits? s = some x ↔ ∃ n, IsCount s n ∧ 0 < n ∧ x = .ofNat n := by
  simp only [digits?, Option.filter_eq_some_iff, count?_eq_some_iff, Bool.not_eq_true',
    Bool.eq_false_iff]
  constructor
  · rintro ⟨⟨n, hcount, rfl⟩, hlt⟩
    exact ⟨n, hcount, Nat.pos_of_ne_zero (mt Binary64.ofNat_lt_one_iff.mpr hlt), rfl⟩
  · rintro ⟨n, hcount, hpos, rfl⟩
    exact ⟨⟨n, hcount, rfl⟩, mt Binary64.ofNat_lt_one_iff.mp (Nat.ne_of_gt hpos)⟩

theorem style?_eq_some_iff {s : String} {style : Style} :
    style? s = some style ↔ s = style.word := by
  unfold style?
  cases style <;> split <;> simp_all [Style.word]

/-! ## One expression -/

/-- The words that ask for one expression, whatever it begins with. -/
def oneShot (p : Precision) (s : Style) (digits : Nat) (source : String) : List String :=
  ["--precision", toString p.digits, "--style", s.word, "--digits", toString digits, "--", source]

namespace Options

/-- An option takes its value from the next word, whatever that is. -/
theorem read_option {o : Options} {name value : String} {rest : List String}
    (hname : name ∈ ["--precision", "--style", "--digits"]) :
    o.read (name :: value :: rest) = (o.set name value).bind fun o => o.read rest := by
  have hread : name ≠ "--" ∧ name ≠ "-h" ∧ name ≠ "--help" ∧ name ≠ "--trace" ∧
      isOption name = true ∧ split name = (name, none) := by
    simp only [List.mem_cons, List.not_mem_nil, or_false] at hname
    rcases hname with rfl | rfl | rfl <;> decide
  obtain ⟨hend, hh, hhelp, htrace, hoption, hsplit⟩ := hread
  rw [Options.read.eq_def o (name :: value :: rest)]
  simp only [hend, hh, hhelp, htrace, hoption, hsplit, if_false, decide_false, Bool.or_false,
    Bool.not_true, Bool.false_eq_true]
  rfl

end Options

theorem ofWords_oneShot (p : Precision) (s : Style) {n : Nat} (h0 : n ≠ 0) (source : String) :
    Options.ofWords (oneShot p s n source) =
      .ok { precision := some p, style := s, digits := some (.ofNat n),
            expression := [source] } := by
  have hdigits : digits? (toString n) = some (.ofNat n) :=
    digits?_eq_some_iff.mpr ⟨n, isCount_toString n, Nat.pos_of_ne_zero h0, rfl⟩
  simp only [Options.ofWords, oneShot, Options.read_option, List.mem_cons, true_or, or_true,
    Options.set, if_true, precision?_eq_some_iff.mpr (isCount_toString _),
    style?_eq_some_iff.mpr rfl, hdigits, Except.bind, String.reduceEq, if_false]
  rfl

/-! ## What was understood -/

/-- Whether a number of digits, if one is asked for, is at least one. -/
def Options.Counts (o : Options) : Prop := ∀ x, o.digits = some x → x.lt (.ofNat 1) = false

theorem Options.Counts.set {o o' : Options} (ho : o.Counts) {name value : String}
    (h : o.set name value = .ok o') : o'.Counts := by
  unfold Options.set at h
  split at h
  · split at h
    · cases h
      exact ho
    · cases h
  split at h
  · split at h
    · next n hn =>
        cases h
        intro x hx
        cases hx
        exact Bool.not_eq_true' _ ▸ (Option.filter_eq_some_iff.mp hn).2
    · cases h
  split at h
  · split at h
    · cases h
      exact ho
    · cases h
  · cases h

theorem Options.Counts.read {o o' : Options} (ho : o.Counts) {words : List String}
    (h : o.read words = .ok o') : o'.Counts := by
  fun_induction Options.read o words with
  | case1 o | case2 o =>
      cases h
      exact ho
  | case3 o _ _ _ _ ih | case4 o _ _ _ ih | case5 o _ _ _ _ _ _ ih => exact ih ho h
  | case6 o _ _ _ _ _ _ _ _ _ ih | case7 o _ _ _ _ _ _ _ _ _ ih =>
      obtain ⟨o₁, hset, hrest⟩ := bind_eq_ok.mp h
      exact ih o₁ (ho.set hset) hrest
  | case8 => cases h

/-- The number of digits that words ask for is not zero. -/
theorem counts_of_ofWords {words : List String} {o : Options} (h : Options.ofWords words = .ok o) :
    o.Counts := by
  have hempty : Options.Counts {} := nofun
  exact hempty.read h

end CommandLine

end Reckoner
