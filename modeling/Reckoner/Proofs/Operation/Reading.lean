/-
# Numbers from plain notation

A numeral is brought into range, rounded to the precision and brought into
range again.  For what plain notation spells none of that does anything to the
number: its leading digit stands where it stood, and it has no digits to lose.
-/
import Reckoner.Outcome
import Reckoner.Proofs.Decimal.Notation

namespace Reckoner

/-- Whether a decimal is a zero or has its leading digit within range. -/
def Decimal.InRange (x : Decimal) : Prop :=
  x.coeff ≠ 0 → x.magnitude.natAbs ≤ Number.exponentLimit

instance (x : Decimal) : Decidable x.InRange :=
  inferInstanceAs (Decidable (x.coeff ≠ 0 → x.magnitude.natAbs ≤ Number.exponentLimit))

theorem Decimal.inRange_padded {x : Decimal} {k : Nat} : (x.padded k).InRange ↔ x.InRange := by
  unfold InRange
  rw [ne_eq, coeff_padded_eq_zero, ← ne_eq]
  constructor
  · intro h hx
    exact magnitude_padded hx k ▸ h hx
  · intro h hx
    exact (magnitude_padded hx k).symm ▸ h hx

theorem Decimal.inRange_canonical {x : Decimal} : x.canonical.InRange ↔ x.InRange := by
  by_cases h : x.coeff = 0
  · exact iff_of_true (fun hne => absurd (coeff_canonical_eq_zero.mpr h) hne) (absurd h)
  · obtain ⟨k, hk⟩ := exists_padded_canonical h
    have hpadded := inRange_padded (x := x.canonical) (k := k)
    rw [← hk] at hpadded
    exact hpadded.symm

namespace Number

theorem fit_of_inRange {x : Decimal} (h : x.InRange) : fit x = finite x.canonical := by
  unfold fit
  split
  · rfl
  · next hx =>
      have := h hx
      split
      · omega
      · split
        · omega
        · rfl

theorem read?_of_spells {cs : List Char} {c : Nat} {e : Int} (h : Spells cs c e) :
    read? (String.ofList cs) = some (fit ⟨false, c, e⟩) := by
  obtain ⟨d, rest, hcs, hd⟩ := h.exists_cons
  have hread := h.read?_eq
  unfold read?
  rw [String.toList_ofList, hread, hcs, Numeral.splitSign_digit hd]
  have hname : ∀ s : String, (∀ c, s.toList.head? = some c → isDigit c = false) →
      ¬d :: rest = s.toList := by
    intro s hs heq
    have := hs d (by rw [← heq]; rfl)
    rw [hd] at this
    cases this
  dsimp only
  rw [if_neg (hname _ fun c hc => by cases hc; rfl), if_neg (hname _ fun c hc => by cases hc; rfl)]
  rfl

/-- A magnitude in plain notation is read as the number it was written for. -/
theorem parse_plainMagnitude {p : Nat} (hp : 0 < p) {x : Decimal} (h : x.significant ≤ p)
    (hr : x.canonical.InRange) :
    parse p (String.ofList x.plainMagnitude) = .ok (.finite x.readBack.canonical) := by
  have hback : x.readBack.InRange := Decimal.inRange_padded.mpr hr
  have hround := Decimal.round_canonical (Decimal.significant_readBack hp h)
  unfold parse
  rw [read?_of_spells (Decimal.spells_plainMagnitude x),
    show Decimal.mk false x.readBack.coeff x.readBack.exp = x.readBack from rfl,
    fit_of_inRange hback]
  simp only [round, hround, fit_of_inRange (Decimal.inRange_canonical.mpr hback),
    Decimal.canonical_canonical, Outcome.ofFinite]

end Number

end Reckoner
