/-
# The exact value of a tree

`Tree.value?` is the value of an expression as a rational number, by recursion
on its tree: literals, a leading minus, and the primitives of
`Reckoner.Proofs.Operation.Exact`.  It is none if a divisor is zero, or if
anything stands in the tree that is not arithmetic; otherwise there is one
(`Tree.exists_value`).

`Tree.Fits p t` says of every sub-expression of `t`, and of every partial sum of
a `sum` or an `avg` in it, that its value is `Representable` at `p` digits.  Then
evaluating the tree rounds nothing, and gives its value (`Tree.eval_exact`).
What a `sum` or a chain of additions adds up are its `Tree.addends`; the value
does not depend on their order (`Tree.value?_eq_of_perm`).

Not every tree can be evaluated: a literal has to be a numeral.  `Tree.Formed`
says what reading from lexed tokens makes true of a node, and `Reads.formed`
that it does so of every one.
-/
import Reckoner.Proofs.Grammar.Reading
import Reckoner.Proofs.Operation.Exact
import Reckoner.Proofs.Operation.Operands

namespace Reckoner

namespace Tree

mutual

/-- The exact value of an expression, if it has one. -/
def value? : Tree → Option Rat
  | .literal token => some (numeralValue token.text)
  | .constant _ _ => none
  | .unary op _ t => if op.id = .negate then t.value?.map (- ·) else none
  | .binary op _ l r => do op.id.rational? (← l.value?) (← r.value?)
  | .call f _ ts => do f.id.rational? (← values? ts)

/-- The exact values of expressions, if each has one. -/
def values? : List Tree → Option (List Rat)
  | [] => some []
  | t :: ts => do return (← t.value?) :: (← values? ts)

end

mutual

/-- All sub-expressions of an expression, with the expression itself. -/
def parts : Tree → List Tree
  | .literal token => [.literal token]
  | .constant k token => [.constant k token]
  | .unary op token t => .unary op token t :: t.parts
  | .binary op token l r => .binary op token l r :: (l.parts ++ r.parts)
  | .call f token ts => .call f token ts :: partsAll ts

def partsAll : List Tree → List Tree
  | [] => []
  | t :: ts => t.parts ++ partsAll ts

end

/-- The sums that the node at the top goes through, if it adds its arguments. -/
def partialSums : Tree → List Rat
  | .call f _ ts => ((values? ts).map f.id.partialSums).getD []
  | _ => []

/-- The value of the expression, and every sum that its top goes through, is
representable. -/
def FitsHere (p : Nat) (t : Tree) : Prop :=
  ∀ q, t.value? = some q ∨ q ∈ t.partialSums → Representable p q

/-- The same, of every sub-expression. -/
def Fits (p : Nat) (t : Tree) : Prop := ∀ s ∈ t.parts, s.FitsHere p

/-- What an expression adds up: the arguments of a `sum`, or the operands of a
chain of additions. -/
def addends : Tree → List Tree
  | .binary op token l r =>
    if op.id = .add then l.addends ++ r.addends else [.binary op token l r]
  | .call f token ts => if f.id = .sum then ts else [.call f token ts]
  | t => [t]

/-- Whether the node at the top is one of arithmetic. -/
def isRationalHere : Tree → Bool
  | .literal _ => true
  | .constant _ _ => false
  | .unary op _ _ => decide (op.id = .negate)
  | .binary op _ _ _ => op.id.isRational
  | .call f _ _ => f.id.isRational

/-- Whether the expression is built from literals, a leading minus, `+ - * / %`,
`abs`, `ceil`, `floor`, `round`, `min`, `max`, `sum` and `avg`. -/
def IsRational (t : Tree) : Prop := ∀ s ∈ t.parts, s.isRationalHere = true

instance (t : Tree) : Decidable t.IsRational :=
  inferInstanceAs (Decidable (∀ s ∈ t.parts, s.isRationalHere = true))

/-- Whether the node at the top divides by zero. -/
def dividesByZeroHere : Tree → Bool
  | .binary op _ _ r => op.id.divides && decide (r.value? = some 0)
  | _ => false

/-- No divisor in the expression is zero. -/
def NeverDividesByZero (t : Tree) : Prop := ∀ s ∈ t.parts, s.dividesByZeroHere = false

instance (t : Tree) : Decidable t.NeverDividesByZero :=
  inferInstanceAs (Decidable (∀ s ∈ t.parts, s.dividesByZeroHere = false))

/-- What reading makes true of the node at the top: a literal is a numeral, a
leading operator takes one operand, and a call has as many arguments as its
function admits, and fewer than there may be tokens. -/
def Formed (c : Catalog) (size : Nat) : Tree → Prop
  | .literal token => ∃ m e, Spells token.text.toList m e
  | .unary op _ _ => op.arity = .unary
  | .call f _ ts => ts.length < size ∧ f ∈ c.functions ∧ f.admits ts.length = true
  | _ => True

/-- The multiple that a remainder at the top is taken from is within the range of
exponents. -/
def MultipleFitsHere : Tree → Prop
  | .binary op _ l r => op.id = .modulo → ∀ q s, l.value? = some q → r.value? = some s →
      s ≠ 0 → leading (floorMultiple q s) ≤ Number.exponentLimit
  | _ => True

theorem mem_parts (t : Tree) : t ∈ t.parts := by
  cases t <;> exact List.mem_cons_self

/-- An expression fits if there are decimals for all that has to be
representable. -/
theorem fits_of_forall {p : Nat} {t : Tree} (xs : List Decimal)
    (hxs : ∀ x ∈ xs, x.significant ≤ p ∧ x.InRange)
    (h : ∀ s ∈ t.parts, ∀ q ∈ s.value?.toList ++ s.partialSums, q ∈ xs.map Decimal.toRat) :
    t.Fits p := by
  intro s hs q hq
  obtain ⟨x, hx, rfl⟩ := List.mem_map.mp
    (h s hs q (List.mem_append.mpr (hq.imp Option.mem_toList.mpr id)))
  exact ⟨x, (hxs x hx).1, (hxs x hx).2, rfl⟩

/-! ## Where there is a value -/

/-- The functions of the built-in catalogs that cut a number take one argument. -/
theorem most_of_takesOne {style : Style} : ∀ f ∈ (Preset.catalog style).functions,
    f.id.takesOne = true → f.most = .ofNat 1 := by
  change ∀ f ∈ Preset.functions, f.id.takesOne = true → f.most = .ofNat 1
  decide +kernel

theorem exists_value_call {style : Style} {f : Function} {qs : List Rat}
    (hf : f ∈ (Preset.catalog style).functions) (ha : f.admits qs.length = true)
    (hr : f.id.isRational = true) : ∃ q, f.id.rational? qs = some q := by
  have hne : qs ≠ [] := by
    rintro rfl
    rcases (Definition.supplied_preset style).functions f hf with h | h
    · rw [h] at hr
      cases hr
    · rw [List.length_nil, Function.not_admits_zero h] at ha
      cases ha
  refine FunctionId.exists_rational hr hne fun hone => ?_
  have := Function.le_one_of_admits (most_of_takesOne f hf hone) ha
  have := List.length_pos_iff.mpr hne
  omega

theorem values?_eq_some {ts : List Tree} {qs : List Rat} :
    values? ts = some qs ↔ ts.map value? = qs.map some := by
  induction ts generalizing qs with
  | nil =>
      cases qs with
      | nil => exact iff_of_true rfl rfl
      | cons => exact iff_of_false (fun h => by cases h) (fun h => by cases h)
  | cons t ts ih =>
      simp only [values?, Option.bind_eq_bind, Option.bind_eq_some_iff, Option.pure_def,
        Option.some.injEq, List.map_cons]
      constructor
      · rintro ⟨q, hq, rs, hrs, rfl⟩
        rw [hq, ih.mp hrs, List.map_cons]
      · intro h
        obtain ⟨q, rs, rfl, hq, hrs⟩ := List.map_eq_cons_iff.mp h.symm
        exact ⟨q, hq.symm, rs, ih.mpr hrs.symm, rfl⟩

theorem length_of_values? {ts : List Tree} {qs : List Rat} (h : values? ts = some qs) :
    qs.length = ts.length := by
  have := congrArg List.length (values?_eq_some.mp h)
  rw [List.length_map, List.length_map] at this
  exact this.symm

mutual

/-- An expression of arithmetic has a value, unless a divisor is zero. -/
theorem exists_value {style : Style} {size : Nat} (t : Tree)
    (hform : ∀ s ∈ t.parts, s.Formed (Preset.catalog style) size)
    (hr : ∀ s ∈ t.parts, s.isRationalHere = true)
    (hz : ∀ s ∈ t.parts, s.dividesByZeroHere = false) : ∃ q, t.value? = some q := by
  cases t with
  | literal => exact ⟨_, rfl⟩
  | constant => cases hr _ (mem_parts _)
  | unary op token t =>
      simp only [parts, List.forall_mem_cons] at hform hr hz
      obtain ⟨q, hq⟩ := exists_value t hform.2 hr.2 hz.2
      exact ⟨-q, by rw [value?, if_pos (of_decide_eq_true hr.1), hq, Option.map_some]⟩
  | binary op token l r =>
      simp only [parts, List.forall_mem_cons, List.forall_mem_append] at hform hr hz
      obtain ⟨a, ha⟩ := exists_value l hform.2.1 hr.2.1 hz.2.1
      obtain ⟨b, hb⟩ := exists_value r hform.2.2 hr.2.2 hz.2.2
      have hne : op.id.divides = true → b ≠ 0 := by
        rintro hdiv rfl
        have := hz.1
        simp only [dividesByZeroHere, hdiv, hb, Bool.true_and] at this
        cases this
      obtain ⟨q, hq⟩ := OperatorId.exists_rational a hr.1 hne
      refine ⟨q, ?_⟩
      simp only [value?, ha, hb, Option.bind_eq_bind, Option.bind_some, hq]
  | call f token ts =>
      simp only [parts, List.forall_mem_cons] at hform hr hz
      obtain ⟨qs, hqs⟩ := exists_values ts hform.2 hr.2 hz.2
      obtain ⟨-, hf, ha⟩ := hform.1
      rw [← length_of_values? hqs] at ha
      obtain ⟨q, hq⟩ := exists_value_call hf ha hr.1
      refine ⟨q, ?_⟩
      simp only [value?, hqs, Option.bind_eq_bind, Option.bind_some, hq]

theorem exists_values {style : Style} {size : Nat} (ts : List Tree)
    (hform : ∀ s ∈ partsAll ts, s.Formed (Preset.catalog style) size)
    (hr : ∀ s ∈ partsAll ts, s.isRationalHere = true)
    (hz : ∀ s ∈ partsAll ts, s.dividesByZeroHere = false) : ∃ qs, values? ts = some qs := by
  cases ts with
  | nil => exact ⟨[], rfl⟩
  | cons t ts =>
      simp only [partsAll, List.forall_mem_append] at hform hr hz
      obtain ⟨q, hq⟩ := exists_value t hform.1 hr.1 hz.1
      obtain ⟨qs, hqs⟩ := exists_values ts hform.2 hr.2 hz.2
      refine ⟨q :: qs, ?_⟩
      simp only [values?, hq, hqs, Option.bind_eq_bind, Option.bind_some, Option.pure_def]

end

/-! ## Sums in any order -/

/-- The value of an expression is the sum of what it adds up. -/
theorem value?_eq_sum {t : Tree} {q : Rat} (h : t.value? = some q) :
    ∃ qs, t.addends.map value? = qs.map some ∧ sumOf qs = q := by
  have hself : ∀ {s : Tree} {r}, s.value? = some r →
      ∃ qs, [s].map value? = qs.map some ∧ sumOf qs = r := fun {s r} hs =>
    ⟨[r], by rw [List.map_singleton, List.map_singleton, hs], Rat.zero_add r⟩
  induction t using addends.induct generalizing q with
  | case1 op token l r hid ihl ihr =>
      simp only [value?, hid, Option.bind_eq_bind, Option.bind_eq_some_iff] at h
      obtain ⟨a, ha, b, hb, hab⟩ := h
      cases hab
      obtain ⟨qs, hqs, rfl⟩ := ihl ha
      obtain ⟨rs, hrs, rfl⟩ := ihr hb
      refine ⟨qs ++ rs, ?_, sumOf_append qs rs⟩
      rw [addends, if_pos hid, List.map_append, List.map_append, hqs, hrs]
  | case2 op token l r hid =>
      rw [addends, if_neg hid]
      exact hself h
  | case3 f token ts hid =>
      simp only [value?, hid, Option.bind_eq_bind, Option.bind_eq_some_iff] at h
      obtain ⟨qs, hqs, hsum⟩ := h
      refine ⟨qs, ?_, ?_⟩
      · rw [addends, if_pos hid]
        exact values?_eq_some.mp hqs
      · cases qs with
        | nil => cases hsum
        | cons => exact Option.some.inj hsum
  | case4 f token ts hid =>
      rw [addends, if_neg hid]
      exact hself h
  | case5 t hbinary hcall =>
      rw [addends.eq_3 t hbinary hcall]
      exact hself h

/-- Two expressions that add up the same values, in whatever order, have one
value. -/
theorem value?_eq_of_perm {t t' : Tree} {q q' : Rat} (hq : t.value? = some q)
    (hq' : t'.value? = some q')
    (h : (t.addends.map value?).Perm (t'.addends.map value?)) : q = q' := by
  obtain ⟨qs, hqs, rfl⟩ := value?_eq_sum hq
  obtain ⟨qs', hqs', rfl⟩ := value?_eq_sum hq'
  rw [hqs, hqs'] at h
  have := h.filterMap id
  rw [List.filterMap_map, List.filterMap_map] at this
  refine sumOf_perm ?_
  simpa using this

/-! ## Evaluation rounds nothing -/

theorem record_of_gives {applied : Applied} {operands : List Number} {token : Token}
    {steps : List Step} {outcome : Outcome} {q : Rat} (h : outcome.Gives q) :
    ∃ x steps', record applied operands token steps outcome = .ok (.finite x, steps') ∧
      x.toRat = q := by
  obtain ⟨x, hx, hq⟩ := h
  exact ⟨x, _, record_eq_ok.mpr ⟨_, hx, rfl⟩, hq⟩

variable {c : Catalog} {n : Numerics}

mutual

theorem eval_exact (hp : 0 < n.precision) (t : Tree)
    (hform : ∀ s ∈ t.parts, s.Formed c (2 ^ 53))
    (hfits : ∀ s ∈ t.parts, s.FitsHere n.precision)
    (hmultiples : ∀ s ∈ t.parts, s.MultipleFitsHere) {q : Rat} (hq : t.value? = some q)
    (steps : List Step) :
    ∃ (x : Decimal) (steps' : List Step),
      t.eval n steps = .ok (.finite x, steps') ∧ x.toRat = q := by
  have hhere := hfits t t.mem_parts
  have hrep := hhere q (Or.inl hq)
  cases t with
  | literal token =>
      cases hq
      obtain ⟨m, e, hs⟩ := hform _ (mem_parts _)
      obtain ⟨x, hx, hxq⟩ := Number.parse_exact hp hs hrep
      refine ⟨x, steps, ?_, hxq⟩
      simp only [eval, hx, ok_bind, pure_eq_ok]
  | constant => cases hq
  | unary op token t =>
      simp only [parts, List.forall_mem_cons] at hform hfits hmultiples
      simp only [value?, Option.ite_none_right_eq_some, Option.map_eq_some_iff] at hq
      obtain ⟨hid, r, hr, rfl⟩ := hq
      obtain ⟨x, s, hx, rfl⟩ := eval_exact hp t hform.2 hfits.2 hmultiples.2 hr steps
      simp only [eval, hx, ok_bind]
      exact record_of_gives (Operator.apply_negate hid hform.1)
  | binary op token l r =>
      simp only [parts, List.forall_mem_cons, List.forall_mem_append] at hform hfits hmultiples
      simp only [value?, Option.bind_eq_bind, Option.bind_eq_some_iff] at hq
      obtain ⟨a, ha, b, hb, hab⟩ := hq
      obtain ⟨x, s, hx, rfl⟩ := eval_exact hp l hform.2.1 hfits.2.1 hmultiples.2.1 ha steps
      obtain ⟨y, s', hy, rfl⟩ := eval_exact hp r hform.2.2 hfits.2.2 hmultiples.2.2 hb s
      have hxr := (hfits.2.1 l l.mem_parts _ (Or.inl ha)).inRange
      have hyr := (hfits.2.2 r r.mem_parts _ (Or.inl hb)).inRange
      have hmultiple : op.id = .modulo → Number.multipleOverflows x y = false := by
        intro hid
        have hne : y.toRat ≠ 0 := OperatorId.ne_zero_of_modulo (hid ▸ hab)
        have hwithin := hmultiples.1 hid _ _ ha hb hne
        rw [Bool.eq_false_iff, Ne, Number.multipleOverflows_iff hxr hyr hne]
        exact Int.not_lt.mpr hwithin
      simp only [eval, hx, hy, ok_bind, Operator.apply_two]
      exact record_of_gives ((OperatorId.applyTwo_roundsOnce _ hab hmultiple).gives hp hrep)
  | call f token ts =>
      simp only [parts, List.forall_mem_cons] at hform hfits hmultiples
      simp only [value?, Option.bind_eq_bind, Option.bind_eq_some_iff] at hq
      obtain ⟨qs, hqs, hf⟩ := hq
      obtain ⟨ds, s, hds, rfl⟩ := evalAll_exact hp ts hform.2 hfits.2 hmultiples.2 hqs steps
      have hlength := length_of_evalAll hds
      rw [List.length_map] at hlength
      simp only [eval, hds, ok_bind]
      refine record_of_gives (FunctionId.apply_exact hp _ hf hrep (fun s hs => ?_) ?_)
      · refine hhere s (Or.inr ?_)
        rw [partialSums, hqs]
        exact hs
      · rw [hlength]
        exact hform.1.1

theorem evalAll_exact (hp : 0 < n.precision) (ts : List Tree)
    (hform : ∀ s ∈ partsAll ts, s.Formed c (2 ^ 53))
    (hfits : ∀ s ∈ partsAll ts, s.FitsHere n.precision)
    (hmultiples : ∀ s ∈ partsAll ts, s.MultipleFitsHere) {qs : List Rat}
    (hqs : values? ts = some qs) (steps : List Step) :
    ∃ (ds : List Decimal) (steps' : List Step),
      evalAll n ts steps = .ok (ds.map Number.finite, steps') ∧ ds.map Decimal.toRat = qs := by
  cases ts with
  | nil =>
      cases hqs
      exact ⟨[], steps, rfl, rfl⟩
  | cons t ts =>
      simp only [partsAll, List.forall_mem_append] at hform hfits hmultiples
      simp only [values?, Option.bind_eq_bind, Option.bind_eq_some_iff, Option.pure_def,
        Option.some.injEq] at hqs
      obtain ⟨q, hq, qs', hqs', rfl⟩ := hqs
      obtain ⟨x, s, hx, rfl⟩ := eval_exact hp t hform.1 hfits.1 hmultiples.1 hq steps
      obtain ⟨ds, s', hds, rfl⟩ := evalAll_exact hp ts hform.2 hfits.2 hmultiples.2 hqs' s
      refine ⟨x :: ds, s', ?_, rfl⟩
      simp only [evalAll, hx, hds, ok_bind, pure_eq_ok, List.map_cons]

end

end Tree

/-! ## What has been read is formed -/

/-- What is lexed as a literal is spelt as a numeral. -/
def Token.SpelledOut (token : Token) : Prop :=
  token.kind = .literal → ∃ m e, Spells token.text.toList m e

/-- Every node that a phrase brings in is formed. -/
def Phrase.Formed (c : Catalog) (size : Nat) : Phrase → Prop
  | .expression _ t | .operand t => ∀ s ∈ t.parts, s.Formed c size
  | .chain _ left t =>
    (∀ s ∈ left.parts, s.Formed c size) → ∀ s ∈ t.parts, s.Formed c size
  | .arguments _ args => ∀ s ∈ Tree.partsAll args, s.Formed c size

variable {c : Catalog}

theorem Reads.suffix {p : Phrase} {ts rest : List Token} (h : Reads c p ts rest) : rest <:+ ts := by
  induction h with
  | expression _ _ ih₁ ih₂ => exact ih₂.trans ih₁
  | stop => exact List.suffix_refl _
  | extend _ _ _ _ ih₁ ih₂ => exact (ih₂.trans ih₁).trans (List.suffix_cons _ _)
  | literal | constant => exact List.suffix_cons _ _
  | unary _ _ _ ih => exact ih.trans (List.suffix_cons _ _)
  | group _ _ _ _ _ ih =>
      exact ((List.suffix_cons _ _).trans ih).trans (List.suffix_cons _ _)
  | call _ _ _ _ _ _ ih =>
      exact (ih.trans (List.suffix_cons _ _)).trans (List.suffix_cons _ _)
  | emptyCall =>
      exact ((List.suffix_cons _ _).trans (List.suffix_cons _ _)).trans (List.suffix_cons _ _)
  | last _ _ _ ih => exact (List.suffix_cons _ _).trans ih
  | more _ _ _ ih₁ ih₂ => exact (ih₂.trans (List.suffix_cons _ _)).trans ih₁

/-- Each argument takes up a token. -/
theorem Reads.length_arguments {p : Phrase} {ts rest : List Token} (h : Reads c p ts rest) :
    match p with
    | .arguments _ args => args.length ≤ ts.length
    | _ => True := by
  induction h with
  | last h =>
      have := h.length_le
      simp only [Phrase.goal, Goal.least, List.length_cons, List.length_nil] at this ⊢
      omega
  | more h _ _ _ ih =>
      have := h.length_le
      simp only [Phrase.goal, Goal.least, List.length_cons] at this ih ⊢
      omega
  | _ => trivial

theorem Reads.formed {p : Phrase} {ts rest : List Token} {size : Nat} (h : Reads c p ts rest)
    (hspelled : ∀ token ∈ ts, token.SpelledOut) (hsize : ts.length < size) : p.Formed c size := by
  induction h with
  | expression h₁ _ ih₁ ih₂ =>
      have hs := h₁.suffix
      exact ih₂ (fun t ht => hspelled t (hs.subset ht)) (Nat.lt_of_le_of_lt hs.length_le hsize)
        (ih₁ hspelled hsize)
  | stop => exact id
  | extend _ _ h₁ _ ih₁ ih₂ =>
      obtain ⟨-, hts⟩ := List.forall_mem_cons.mp hspelled
      rw [List.length_cons] at hsize
      have hs := h₁.suffix
      have hlength := hs.length_le
      refine fun hleft => ih₂ (fun t ht => hts t (hs.subset ht)) (by omega) ?_
      exact List.forall_mem_cons.mpr
        ⟨trivial, List.forall_mem_append.mpr ⟨hleft, ih₁ hts (by omega)⟩⟩
  | literal hk =>
      exact List.forall_mem_cons.mpr
        ⟨(List.forall_mem_cons.mp hspelled).1 hk, List.forall_mem_nil _⟩
  | constant => exact List.forall_mem_cons.mpr ⟨trivial, List.forall_mem_nil _⟩
  | unary _ hu _ ih =>
      obtain ⟨-, hts⟩ := List.forall_mem_cons.mp hspelled
      rw [List.length_cons] at hsize
      exact List.forall_mem_cons.mpr ⟨c.arity_of_findOperator? hu, ih hts (by omega)⟩
  | group _ _ _ _ _ ih =>
      rw [List.length_cons] at hsize
      exact ih (List.forall_mem_cons.mp hspelled).2 (by omega)
  | call _ hf _ _ h ha ih =>
      have hts := (List.forall_mem_cons.mp (List.forall_mem_cons.mp hspelled).2).2
      have hcount := h.length_arguments
      simp only [List.length_cons] at hsize hcount
      exact List.forall_mem_cons.mpr
        ⟨⟨by omega, List.mem_of_find?_eq_some hf, ha⟩, ih hts (by omega)⟩
  | emptyCall _ hf _ _ _ _ ha =>
      exact List.forall_mem_cons.mpr ⟨⟨Nat.lt_of_le_of_lt (Nat.zero_le _) hsize,
        List.mem_of_find?_eq_some hf, ha⟩, List.forall_mem_nil _⟩
  | last _ _ _ ih => exact List.forall_mem_append.mpr ⟨ih hspelled hsize, List.forall_mem_nil _⟩
  | more h₁ _ _ ih₁ ih₂ =>
      have hs := (List.suffix_cons _ _).trans h₁.suffix
      exact List.forall_mem_append.mpr ⟨ih₁ hspelled hsize,
        ih₂ (fun t ht => hspelled t (hs.subset ht)) (Nat.lt_of_le_of_lt hs.length_le hsize)⟩

end Reckoner
