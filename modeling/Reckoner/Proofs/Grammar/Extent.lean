/-
# Values are no wider than their texts

`Tree.extent` counts characters that an expression certainly takes up: those of its
numerals, one for each operator and each name, and one behind each argument for the
separator or the bracket that has to follow.  It bounds

    the value      of width at most the extent, by recursion on the tree
                   (`Tree.hasWidth_value`)
    the text       at least as long as the extent, by induction on the reading
                   (`Reads.extent_le`)

and so every remainder in a text that is not too long is taken from a multiple within
the range of exponents (`Tree.MultipleFitsHere`).
-/
import Reckoner.Proofs.Grammar.Value
import Reckoner.Proofs.Operation.Literal
import Reckoner.Proofs.Operation.Width

namespace Reckoner

/-- A numeral is as wide as it has characters. -/
theorem hasWidth_numeralValue {text : String} {m : Nat} {e : Int}
    (h : Spells text.toList m e) : HasWidth text.length (numeralValue text) := by
  obtain ⟨hm, hlow, hhigh⟩ := h.size_le
  rw [String.length_toList] at hm hlow
  refine ⟨m, 10 ^ (-e).toNat, Nat.pow_pos (by decide), hm.le,
    Nat.pow_le_pow_right (by decide) (by omega), ?_⟩
  have hpower : (10 : Rat) ^ (-e).toNat = 10 ^ (-e) := by
    rw [← zpow_natCast, Int.toNat_of_nonneg (by omega)]
  simp only [numeralValue_of_spells h, Decimal.toRat, Bool.false_eq_true, if_false]
  push_cast
  rw [hpower, zpow_neg, div_inv_eq_mul]

namespace Tree

mutual

/-- Characters that an expression takes up. -/
def extent : Tree → Nat
  | .literal token => token.text.length
  | .constant _ _ => 1
  | .unary _ _ t => 1 + t.extent
  | .binary _ _ l r => 1 + l.extent + r.extent
  | .call _ _ ts => 1 + extents ts

/-- Characters that arguments take up, with what follows each. -/
def extents : List Tree → Nat
  | [] => 0
  | t :: ts => t.extent + 1 + extents ts

end

theorem extents_eq (ts : List Tree) : extents ts = (ts.map extent).sum + ts.length := by
  induction ts with
  | nil => rfl
  | cons t ts ih =>
      rw [extents, ih, List.map_cons, List.sum_cons, List.length_cons]
      omega

/-! ## The value -/

mutual

/-- The value of an expression is as wide as the expression is long. -/
theorem hasWidth_value {c : Catalog} {size : Nat} (t : Tree)
    (hform : ∀ s ∈ t.parts, s.Formed c size) {q : Rat} (hq : t.value? = some q) :
    HasWidth t.extent q := by
  cases t with
  | literal token =>
      cases hq
      obtain ⟨m, e, hs⟩ := hform _ (mem_parts _)
      exact hasWidth_numeralValue hs
  | constant => cases hq
  | unary op token t =>
      simp only [parts, List.forall_mem_cons] at hform
      simp only [value?, Option.ite_none_right_eq_some, Option.map_eq_some_iff] at hq
      obtain ⟨-, r, hr, rfl⟩ := hq
      exact (hasWidth_value t hform.2 hr).neg.mono (Nat.le_add_left _ _)
  | binary op token l r =>
      simp only [parts, List.forall_mem_cons, List.forall_mem_append] at hform
      simp only [value?, Option.bind_eq_bind, Option.bind_eq_some_iff] at hq
      obtain ⟨a, ha, b, hb, hab⟩ := hq
      have hl := hasWidth_value l hform.2.1 ha
      have hr := hasWidth_value r hform.2.2 hb
      refine (OperatorId.hasWidth hab hl hr).mono ?_
      rw [extent]
      omega
  | call f token ts =>
      simp only [parts, List.forall_mem_cons] at hform
      simp only [value?, Option.bind_eq_bind, Option.bind_eq_some_iff] at hq
      obtain ⟨qs, hqs, hf⟩ := hq
      refine (FunctionId.hasWidth hf (hasWidth_values ts hform.2 hqs)).mono ?_
      rw [extent, extents_eq, length_of_values? hqs]
      omega

theorem hasWidth_values {c : Catalog} {size : Nat} (ts : List Tree)
    (hform : ∀ s ∈ partsAll ts, s.Formed c size) {qs : List Rat} (hqs : values? ts = some qs) :
    List.Forall₂ HasWidth (ts.map extent) qs := by
  cases ts with
  | nil =>
      cases hqs
      exact .nil
  | cons t ts =>
      simp only [partsAll, List.forall_mem_append] at hform
      simp only [values?, Option.bind_eq_bind, Option.bind_eq_some_iff, Option.pure_def,
        Option.some.injEq] at hqs
      obtain ⟨q, hq, qs', hqs', rfl⟩ := hqs
      exact .cons (hasWidth_value t hform.1 hq) (hasWidth_values ts hform.2 hqs')

end

mutual

/-- In an expression that fits and is not too long, a remainder is taken from a multiple
within the range. -/
theorem multiples_fit {c : Catalog} {p : Precision} {size : Nat} (t : Tree)
    (hform : ∀ s ∈ t.parts, s.Formed c size) (hfits : ∀ s ∈ t.parts, s.FitsHere p.digits)
    (hextent : t.extent < 2 ^ 53) : ∀ s ∈ t.parts, s.MultipleFitsHere := by
  cases t with
  | literal | constant => exact List.forall_mem_singleton.mpr trivial
  | unary op token t =>
      simp only [parts, List.forall_mem_cons] at hform hfits ⊢
      rw [extent] at hextent
      exact ⟨trivial, multiples_fit t hform.2 hfits.2 (by omega)⟩
  | binary op token l r =>
      simp only [parts, List.forall_mem_cons, List.forall_mem_append] at hform hfits ⊢
      rw [extent] at hextent
      refine ⟨?_, multiples_fit l hform.2.1 hfits.2.1 (by omega),
        multiples_fit r hform.2.2 hfits.2.2 (by omega)⟩
      intro _ a b ha hb hb0
      have hal := hfits.2.1 l l.mem_parts a (Or.inl ha)
      have hbr := hfits.2.2 r r.mem_parts b (Or.inl hb)
      exact leading_floorMultiple_le p hb0 hal hbr (hasWidth_value l hform.2.1 ha)
        (hasWidth_value r hform.2.2 hb) (by omega)
  | call f token ts =>
      simp only [parts, List.forall_mem_cons] at hform hfits ⊢
      rw [extent] at hextent
      exact ⟨trivial, multiples_fitAll ts hform.2 hfits.2 (by omega)⟩

theorem multiples_fitAll {c : Catalog} {p : Precision} {size : Nat} (ts : List Tree)
    (hform : ∀ s ∈ partsAll ts, s.Formed c size)
    (hfits : ∀ s ∈ partsAll ts, s.FitsHere p.digits)
    (hextent : extents ts < 2 ^ 53) : ∀ s ∈ partsAll ts, s.MultipleFitsHere := by
  cases ts with
  | nil => exact List.forall_mem_nil _
  | cons t ts =>
      simp only [partsAll, List.forall_mem_append] at hform hfits ⊢
      rw [extents] at hextent
      exact ⟨multiples_fit t hform.1 hfits.1 (by omega),
        multiples_fitAll ts hform.2 hfits.2 (by omega)⟩

end

end Tree

/-! ## The text -/

/-- Characters of tokens. -/
def Token.width (ts : List Token) : Nat := (ts.map fun token => token.text.length).sum

@[simp] theorem Token.width_cons (token : Token) (ts : List Token) :
    width (token :: ts) = token.text.length + width ts := List.sum_cons

theorem Token.length_le_width {ts : List Token} (h : ∀ token ∈ ts, 0 < token.text.length) :
    ts.length ≤ width ts := by
  induction ts with
  | nil => exact Nat.le_refl 0
  | cons token ts ih =>
      obtain ⟨htoken, hts⟩ := List.forall_mem_cons.mp h
      have := ih hts
      rw [width_cons, List.length_cons]
      omega

/-- Characters that what is read with a phrase takes up. -/
def Phrase.extent : Phrase → Nat
  | .expression _ t | .operand t | .chain _ _ t => t.extent
  | .arguments _ args => Tree.extents args

/-- Characters that a phrase takes over from what has been read before. -/
def Phrase.extentBefore : Phrase → Nat
  | .chain _ left _ => left.extent
  | _ => 0

/-- What has been read is no longer than its tokens. -/
theorem Reads.extent_le {c : Catalog} {p : Phrase} {ts rest : List Token} (h : Reads c p ts rest)
    (hne : ∀ token ∈ ts, 0 < token.text.length) :
    p.extent + Token.width rest ≤ p.extentBefore + Token.width ts := by
  have hafter : ∀ {p ts mid}, Reads c p ts mid → (∀ token ∈ ts, 0 < token.text.length) →
      ∀ token ∈ mid, 0 < token.text.length :=
    fun h hts token ht => hts token (h.suffix.subset ht)
  induction h with
  | stop => exact Nat.le_refl _
  | expression h₁ _ ih₁ ih₂ =>
      have hleft := ih₁ hne
      have hright := ih₂ (hafter h₁ hne)
      simp only [Phrase.extent, Phrase.extentBefore] at *
      omega
  | extend _ _ h₁ _ ih₁ ih₂ =>
      obtain ⟨htoken, hts⟩ := List.forall_mem_cons.mp hne
      have hright := ih₁ hts
      have hmore := ih₂ (hafter h₁ hts)
      simp only [Phrase.extent, Phrase.extentBefore, Tree.extent, Token.width_cons] at *
      omega
  | literal | constant | emptyCall =>
      have htoken := (List.forall_mem_cons.mp hne).1
      simp only [Phrase.extent, Phrase.extentBefore, Tree.extent, Tree.extents,
        Token.width_cons] at *
      omega
  | unary _ _ _ ih | group _ _ _ _ _ ih =>
      obtain ⟨htoken, hts⟩ := List.forall_mem_cons.mp hne
      have hoperand := ih hts
      simp only [Phrase.extent, Phrase.extentBefore, Tree.extent, Token.width_cons] at *
      omega
  | call _ _ _ _ _ _ ih =>
      obtain ⟨htoken, hmore⟩ := List.forall_mem_cons.mp hne
      have harguments := ih (List.forall_mem_cons.mp hmore).2
      simp only [Phrase.extent, Phrase.extentBefore, Tree.extent, Token.width_cons] at *
      omega
  | last h₁ _ _ ih =>
      -- the bracket that closes the arguments is what follows the last of them
      have hclose := (List.forall_mem_cons.mp (hafter h₁ hne)).1
      have hargument := ih hne
      simp only [Phrase.extent, Phrase.extentBefore, Tree.extents, Token.width_cons] at *
      omega
  | more h₁ _ _ ih₁ ih₂ =>
      obtain ⟨hseparator, hts⟩ := List.forall_mem_cons.mp (hafter h₁ hne)
      have hargument := ih₁ hne
      have hmore := ih₂ hts
      simp only [Phrase.extent, Phrase.extentBefore, Tree.extents, Token.width_cons] at *
      omega

end Reckoner
