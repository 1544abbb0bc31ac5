/-
# Tokens of a numeral

A source that is a numeral and nothing else is one token, the numeral: it is
the longest one at the start, so nothing is left behind it.  A minus sign in
front of a source is a token of its own.
-/
import Reckoner.Catalog.Preset
import Reckoner.Proofs.Decimal.Notation
import Reckoner.Token.Lexer

namespace Reckoner

namespace Token

theorem isSpacing_of_isDigit {c : Char} (h : isDigit c = true) : Text.isSpacing c = false := by
  simp only [isDigit, Bool.and_eq_true, decide_eq_true_eq, Char.le_def, UInt32.le_iff_toNat_le] at h
  have hlow : 48 ≤ c.toNat := h.1
  have hhigh : c.toNat ≤ 57 := h.2
  simp only [Text.isSpacing, Bool.or_eq_false_iff, Bool.and_eq_false_iff, decide_eq_false_iff_not]
  omega

theorem numeralLength_of_spells {cs : List Char} {c : Nat} {e : Int} (h : Spells cs c e) :
    numeralLength cs = cs.length := by
  unfold numeralLength
  cases h with
  | whole _ hds => rw [(takeWhile_digits hds).1, (takeWhile_digits hds).2]
  | @point ds fs _ hds hne hfs =>
      obtain ⟨d, rest, rfl⟩ := List.exists_cons_of_ne_nil hne
      rw [(takeWhile_digits_point hds _).1, (takeWhile_digits_point hds _).2]
      simp only [(takeWhile_digits hfs).1, List.length_append, List.length_cons]
      omega

/-- A numeral alone is a single token. -/
theorem lexFrom_of_spells (symbols : List Symbol) (offset : Nat) {cs : List Char} {c : Nat}
    {e : Int} (h : Spells cs c e) :
    lexFrom symbols offset cs =
      ⟨[⟨.literal, String.ofList cs, offset, ↑(offset + Text.unitsOf cs)⟩], none⟩ := by
  obtain ⟨d, rest, hcs, hd⟩ := h.exists_cons
  have hlength := numeralLength_of_spells h
  subst hcs
  have hhead : head? symbols (d :: rest) = some (.literal, (d :: rest).length) := by
    simp only [head?, hd, if_true, hlength]
  have hrest : rest.drop ((d :: rest).length - 1) = [] := List.drop_length
  rw [lexFrom, isSpacing_of_isDigit hd, hhead]
  simp only [Bool.false_eq_true, if_false, List.take_length, hrest, lexFrom]

/-- A minus sign in front is a token of both styles. -/
theorem lexFrom_minus (offset : Nat) (cs : List Char) :
    lexFrom Preset.symbols offset ('-' :: cs) =
      ⟨⟨.symbol .operator, "-", offset, ↑(offset + 1)⟩ ::
          (lexFrom Preset.symbols (offset + 1) cs).tokens,
        (lexFrom Preset.symbols (offset + 1) cs).stray⟩ := by
  have hhead : head? Preset.symbols ('-' :: cs) = some (.symbol .operator, 1) := by
    have hletter : Text.isLetter '-' = false := by decide +kernel
    have hfind : findSymbol? Preset.symbols ('-' :: cs) = some ⟨"-", .operator⟩ := rfl
    simp only [head?, show isDigit '-' = false from rfl, hletter, hfind, Bool.false_eq_true,
      if_false, Option.map_some]
    rfl
  rw [lexFrom, show Text.isSpacing '-' = false from rfl, hhead]
  simp only [Bool.false_eq_true, if_false, List.take_succ_cons, List.take_zero, Nat.sub_self,
    List.drop_zero]
  rfl

end Token

end Reckoner
