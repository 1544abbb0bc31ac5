/-
# Expressions that differ in the sign of a zero

No result shows the sign of a zero, but a sub-expression may come to `-0` where
another one comes to `0`.  `Tree.Varies` relates expressions that are built
alike and in which some sub-expressions have been replaced by others that come
to the same but for that sign.

    such expressions are accepted or rejected alike, and what
    they come to is the same but for the sign of a zero         (`Tree.Varies.unsigned_eq`)

Two kinds of nodes may not be common to both: a call of `random`, which gives
another number at every step, and a power that looks at the sign of a zero
(`OperatorId.looksAtSign`).
-/
import Reckoner.Catalog.Preset
import Reckoner.Proofs.Grammar.Agreement
import Reckoner.Proofs.Operation.SignedZero

namespace Reckoner

/-- Whether what comes of an application hangs on more than the unsigned
operands. -/
def Applied.discerns : Applied → List Number → Bool
  | .operator op, xs => op.id.looksAtSign xs
  | .function f, _ => f.id = .random
  | .constant _, _ => false

theorem Applied.unsigned_outcome {a : Applied} {xs ys : List Number} (p : Nat)
    (draw draw' : Decimal) (h : xs.map Number.unsigned = ys.map Number.unsigned)
    (ha : a.discerns xs = false) :
    (a.outcome p draw xs).unsigned = (a.outcome p draw' ys).unsigned := by
  cases a with
  | operator op => exact op.unsigned_apply p h ha
  | function f => exact FunctionId.unsigned_apply h (of_decide_eq_false ha) draw draw'
  | constant k => rfl

namespace Tree

/-- What is applied at the root of a tree, and the trees that it is applied to. -/
def applied? : Tree → Option (Applied × List Tree)
  | .literal _ => none
  | .constant k _ => some (.constant k, [])
  | .unary op _ t => some (.operator op, [t])
  | .binary op _ l r => some (.operator op, [l, r])
  | .call f _ ts => some (.function f, ts)

/-- What a tree comes to after the given steps, unsigned. -/
def unsigned (n : Numerics) (t : Tree) (steps : List Step) : Outcome :=
  (t.eval n steps).map fun r => r.1.unsigned

/-- What trees come to from left to right, unsigned. -/
def unsignedAll (n : Numerics) (ts : List Tree) (steps : List Step) :
    Except Reason (List Number) :=
  (evalAll n ts steps).map fun r => r.1.map Number.unsigned

/-- `Varies n ts ts'`: the trees of `ts'` are those of `ts`, but for parts that
come to the same unsigned, whatever has been done before them.  Above such
parts, nothing that looks at a sign or draws a number is applied. -/
inductive Varies (n : Numerics) : List Tree → List Tree → Prop
  | nil : Varies n [] []
  | part {t t' : Tree} {ts ts' : List Tree} :
      (∀ steps steps', t.unsigned n steps = t'.unsigned n steps') → Varies n ts ts' →
      Varies n (t :: ts) (t' :: ts')
  | node {a : Applied} {t t' : Tree} {parts parts' ts ts' : List Tree} :
      t.applied? = some (a, parts) → t'.applied? = some (a, parts') → Varies n parts parts' →
      (∀ steps xs steps', evalAll n parts steps = .ok (xs, steps') → a.discerns xs = false) →
      Varies n ts ts' → Varies n (t :: ts) (t' :: ts')

variable {n : Numerics}

/-! ## Nodes -/

theorem unsigned_record (a : Applied) (xs : List Number) (token : Token) (steps : List Step)
    (outcome : Outcome) :
    (record a xs token steps outcome).map (fun r => r.1.unsigned) = outcome.unsigned := by
  cases outcome <;> rfl

/-- A node is evaluated by evaluating its parts and applying what it applies. -/
theorem exists_eval_of_applied {t : Tree} {a : Applied} {parts : List Tree}
    (h : t.applied? = some (a, parts)) :
    ∃ token, ∀ steps, t.eval n steps = evalAll n parts steps >>= fun r =>
      record a r.1 token r.2 (a.outcome n.precision (n.draws r.2.length) r.1) := by
  cases t with
  | literal => cases h
  | constant k token =>
      cases h
      exact ⟨token, fun steps => rfl⟩
  | unary op token t =>
      cases h
      refine ⟨token, fun steps => ?_⟩
      simp only [eval, evalAll, bind_assoc, ok_bind, pure_eq_ok]
      rfl
  | binary op token l r =>
      cases h
      refine ⟨token, fun steps => ?_⟩
      simp only [eval, evalAll, bind_assoc, ok_bind, pure_eq_ok]
      rfl
  | call f token ts =>
      cases h
      exact ⟨token, fun steps => by rw [eval]; rfl⟩

theorem unsigned_node {a : Applied} {t t' : Tree} {parts parts' : List Tree}
    (h : t.applied? = some (a, parts)) (h' : t'.applied? = some (a, parts'))
    {steps steps' : List Step} (hparts : unsignedAll n parts steps = unsignedAll n parts' steps')
    (ha : ∀ xs s, evalAll n parts steps = .ok (xs, s) → a.discerns xs = false) :
    t.unsigned n steps = t'.unsigned n steps' := by
  obtain ⟨token, ht⟩ := exists_eval_of_applied (n := n) h
  obtain ⟨token', ht'⟩ := exists_eval_of_applied (n := n) h'
  rw [unsigned, unsigned, ht, ht']
  rcases exists_of_map_eq_map hparts with ⟨e, he, he'⟩ | ⟨⟨xs, s⟩, ⟨ys, s'⟩, hx, hy, hxy⟩
  · rw [he, he']
    rfl
  · rw [hx, hy, ok_bind, ok_bind, unsigned_record, unsigned_record]
    exact Applied.unsigned_outcome n.precision _ _ hxy (ha xs s hx)

theorem unsignedAll_cons {t t' : Tree} {ts ts' : List Tree}
    (ht : ∀ steps steps', t.unsigned n steps = t'.unsigned n steps')
    (hts : ∀ steps steps', unsignedAll n ts steps = unsignedAll n ts' steps')
    (steps steps' : List Step) :
    unsignedAll n (t :: ts) steps = unsignedAll n (t' :: ts') steps' := by
  simp only [unsignedAll, evalAll]
  rcases exists_of_map_eq_map (ht steps steps') with ⟨e, he, he'⟩ | ⟨⟨x, s⟩, ⟨y, s'⟩, hx, hy, hxy⟩
  · rw [he, he']
    rfl
  · rw [hx, hy, ok_bind, ok_bind]
    rcases exists_of_map_eq_map (hts s s') with ⟨e, he, he'⟩ | ⟨⟨xs, r⟩, ⟨ys, r'⟩, hxs, hys, hxys⟩
    · rw [he, he']
      rfl
    · rw [hxs, hys]
      exact congrArg Except.ok (List.cons_eq_cons.mpr ⟨hxy, hxys⟩)

theorem Varies.unsignedAll_eq {ts ts' : List Tree} (h : Varies n ts ts') :
    ∀ steps steps', unsignedAll n ts steps = unsignedAll n ts' steps' := by
  induction h with
  | nil => exact fun _ _ => rfl
  | part ht _ ih => exact unsignedAll_cons ht ih
  | node h h' _ ha _ ihparts ih =>
      exact unsignedAll_cons
        (fun steps steps' => unsigned_node h h' (ihparts steps steps') (ha steps)) ih

theorem unsignedAll_singleton (t : Tree) (steps : List Step) :
    unsignedAll n [t] steps = (t.unsigned n steps).map fun x => [x] := by
  simp only [unsignedAll, evalAll, unsigned]
  cases t.eval n steps <;> rfl

/-- Expressions that vary in the signs of zeros come to the same unsigned, or to
nothing for the same reason. -/
theorem Varies.unsigned_eq {t t' : Tree} (h : Varies n [t] [t']) (steps steps' : List Step) :
    t.unsigned n steps = t'.unsigned n steps' := by
  have hall := h.unsignedAll_eq steps steps'
  rw [unsignedAll_singleton, unsignedAll_singleton] at hall
  rcases exists_of_map_eq_map hall with ⟨e, he, he'⟩ | ⟨x, y, hx, hy, hxy⟩
  · rw [he, he']
  · rw [hx, hy, List.singleton_inj.mp hxy]

/-- A literal comes to the same whatever has been done before it. -/
theorem unsigned_literal (token : Token) (steps : List Step) :
    (literal token).unsigned n steps = (Number.parse n.precision token.text).unsigned := by
  simp only [unsigned, eval]
  cases Number.parse n.precision token.text <;> rfl

end Tree

/-! ## Expressions -/

/-- A source is lexed to its end, and its tokens are read as the tree. -/
def Catalog.ReadsAs (c : Catalog) (source : String) (t : Tree) : Prop :=
  (c.lex source).stray = none ∧ c.Accepts (c.lex source).tokens t

/-- What a source comes to is what its tree comes to. -/
theorem Catalog.ReadsAs.unsigned_result {c : Catalog} {source : String} {t : Tree}
    (h : c.ReadsAs source t) (n : Numerics) :
    (Evaluation.ofSource c n source).result.toOption.map Number.unsigned =
      (t.unsigned n []).toOption := by
  obtain ⟨hstray, ht⟩ := h
  rw [Evaluation.ofSource_of_stray hstray, Tree.unsigned]
  generalize he : Evaluation.ofTokens c n (Text.units source) (c.lex source).tokens = e
  obtain ⟨steps, result⟩ := e
  cases result with
  | ok x =>
      obtain ⟨u, hu, hx⟩ := Evaluation.ofTokens_eq_ok_iff.mp he
      cases ht.unique hu
      rw [hx]
      rfl
  | error problem =>
      cases hx : t.eval n [] with
      | error reason => rfl
      | ok r =>
          have hok : Evaluation.ofTokens c n (Text.units source) (c.lex source).tokens =
              ⟨r.2.reverse, .ok r.1⟩ :=
            Evaluation.ofTokens_eq_ok_iff.mpr ⟨t, ht, by rw [List.reverse_reverse, hx]⟩
          cases he.symm.trans hok

/-- The sign of a zero is seen by no operator and by no function, but where a
power looks at it and where `random` draws: for operands that are the same
unsigned, all of them succeed or fail alike, and the results are the same
unsigned.  So expressions whose parts come to the same unsigned are accepted or
rejected alike, and come to the same unsigned. -/
theorem zero_sign_unseen (n : Numerics) :
    (∀ xs ys : List Number, xs.map Number.unsigned = ys.map Number.unsigned →
      (∀ op : Operator, op.id.looksAtSign xs = false →
        (op.apply n.precision xs).unsigned = (op.apply n.precision ys).unsigned) ∧
      ∀ id : FunctionId, id ≠ .random → ∀ draw draw' : Decimal,
        (id.apply n.precision draw xs).unsigned = (id.apply n.precision draw' ys).unsigned) ∧
    ∀ (c : Catalog) (source source' : String) (t t' : Tree),
      c.ReadsAs source t → c.ReadsAs source' t' → Tree.Varies n [t] [t'] →
        (Evaluation.ofSource c n source).result.toOption.map Number.unsigned =
          (Evaluation.ofSource c n source').result.toOption.map Number.unsigned := by
  refine ⟨fun xs ys h => ⟨fun op hop => ?_, fun id hid draw draw' => ?_⟩, ?_⟩
  · exact op.unsigned_apply n.precision h hop
  · exact FunctionId.unsigned_apply h hid draw draw'
  · intro c source source' t t' ht ht' hvaries
    rw [ht.unsigned_result, ht'.unsigned_result, hvaries.unsigned_eq]

/-! ### Two expressions -/

/-- The tree of `2^0`. -/
def twoToZero : Tree :=
  .binary (Preset.leftward .power "^" 4) ⟨.symbol .operator, "^", 1, 2⟩
    (.literal ⟨.literal, "2", 0, 1⟩) (.literal ⟨.literal, "0", 2, 3⟩)

/-- The tree of `2^-0`. -/
def twoToMinusZero : Tree :=
  .binary (Preset.leftward .power "^" 4) ⟨.symbol .operator, "^", 1, 2⟩
    (.literal ⟨.literal, "2", 0, 1⟩)
    (.unary (Preset.negate 3) ⟨.symbol .operator, "-", 2, 3⟩ (.literal ⟨.literal, "0", 3, 4⟩))

theorem readsAs_twoToZero : (Preset.catalog .standard).ReadsAs "2^0" twoToZero := by
  refine ⟨by decide +kernel, ?_⟩
  rw [show ((Preset.catalog .standard).lex "2^0").tokens =
    [⟨.literal, "2", 0, 1⟩, ⟨.symbol .operator, "^", 1, 2⟩, ⟨.literal, "0", 2, 3⟩] by
    decide +kernel]
  refine .expression (.literal rfl) (.extend rfl rfl (.expression (.literal rfl) (.stop ?_))
    (.stop ?_))
  all_goals
    intro b hb
    cases hb

theorem readsAs_twoToMinusZero : (Preset.catalog .standard).ReadsAs "2^-0" twoToMinusZero := by
  refine ⟨by decide +kernel, ?_⟩
  rw [show ((Preset.catalog .standard).lex "2^-0").tokens =
    [⟨.literal, "2", 0, 1⟩, ⟨.symbol .operator, "^", 1, 2⟩, ⟨.symbol .operator, "-", 2, 3⟩,
     ⟨.literal, "0", 3, 4⟩] by decide +kernel]
  refine .expression (.literal rfl) (.extend rfl rfl (.expression (.unary rfl rfl
    (.expression (.literal rfl) (.stop ?_))) (.stop ?_)) (.stop ?_))
  all_goals
    intro b hb
    cases hb

/-- The exponents come to the two zeros, and the base is none. -/
theorem varies_twoToZero : Tree.Varies ⟨20, fun _ => .zero⟩ [twoToZero] [twoToMinusZero] := by
  have htwo : Number.parse 20 "2" = .ok (.finite ⟨false, 2, 0⟩) :=
    toOption_eq_some.mp (by decide +kernel)
  have hzero : Number.parse 20 "0" = .ok (.finite ⟨false, 0, 0⟩) :=
    toOption_eq_some.mp (by decide +kernel)
  refine .node rfl rfl (.part (fun steps steps' => ?_) (.part (fun steps steps' => ?_) .nil))
    (fun steps xs s hxs => ?_) .nil
  · rw [Tree.unsigned_literal, Tree.unsigned_literal]
  · simp only [Tree.unsigned, Tree.eval, hzero]
    rfl
  · simp only [Tree.evalAll, Tree.eval, htwo, hzero] at hxs
    cases hxs
    rfl

/-- The two zeros times one and brought to an integer, and `2^0` and `2^-0`. -/
theorem twoToZero_and_twoToMinusZero :
    (((Preset.leftward .multiply "*" 2).apply 20 [.zero, .one]).unsigned =
        ((Preset.leftward .multiply "*" 2).apply 20 [Number.zero.neg, .one]).unsigned ∧
      (FunctionId.ceil.apply 20 Decimal.zero [.zero]).unsigned =
        (FunctionId.ceil.apply 20 Decimal.zero [Number.zero.neg]).unsigned) ∧
    (Evaluation.ofSource (Preset.catalog .standard) ⟨20, fun _ => .zero⟩
        "2^0").result.toOption.map Number.unsigned =
      (Evaluation.ofSource (Preset.catalog .standard) ⟨20, fun _ => .zero⟩
        "2^-0").result.toOption.map Number.unsigned := by
  have h := zero_sign_unseen ⟨20, fun _ => .zero⟩
  have hpair := h.1 [.zero, .one] [Number.zero.neg, .one] rfl
  have hsingle := h.1 [.zero] [Number.zero.neg] rfl
  refine ⟨⟨hpair.1 _ rfl, hsingle.2 .ceil (by decide) _ _⟩, ?_⟩
  exact h.2 _ _ _ _ _ readsAs_twoToZero readsAs_twoToMinusZero varies_twoToZero

/-- The power does see it: `0` to the power `0` is one, and `0` to the power `-0` is
refused, although the operands are the same unsigned. -/
theorem zeroToMinusZero_refused :
    [Number.zero, .zero].map Number.unsigned = [Number.zero, .neg .zero].map Number.unsigned ∧
    (Preset.leftward .power "^" 4).apply 20 [.zero, .zero] = .ok Number.one ∧
    (Preset.leftward .power "^" 4).apply 20 [.zero, .neg .zero] = .error .zeroToNegative ∧
    (Evaluation.ofSource (Preset.catalog .standard) ⟨20, fun _ => .zero⟩
        "0^0").result.toOption = some Number.one ∧
    (Evaluation.ofSource (Preset.catalog .standard) ⟨20, fun _ => .zero⟩
        "0^-0").result.toOption = none := by
  refine ⟨rfl, ?_, ?_, by decide +kernel, by decide +kernel⟩
  · exact OperatorId.power_to_zero (p := 20) (a := .zero) (b := .zero) rfl
  · exact OperatorId.power_to_zero (p := 20) (a := .zero) (b := .neg .zero) rfl

end Reckoner
