/-
# Expressions in brackets

An expression in brackets is a part of an evaluation in a frame: below it are
the values and what was pending in front of the brackets, with the open group as
the barrier.  It is evaluated there as it is by itself, so wherever an operand
may begin,

    handling it      pushes its value, records its steps
                     and leaves everything below as it was
    putting it in    place of a literal with its value changes no value;
                     its steps come where the literal was handled

Both are one theorem, `bracketed_isolated`.  Its second part is the first, with
what is in front of the literal and what is behind it carried over in frames of
their own.  For the literal to have the value of the expression, equal signs and
equal values are enough (`Number.Same`): all that an evaluation gives is in shortest
form, so that `4/2` is the very number that `2` is.
-/
import Reckoner.Proofs.Evaluation.Context
import Reckoner.Proofs.Evaluation.Values
import Reckoner.Proofs.Grammar.Outline
import Reckoner.Proofs.Operation.Canonical

namespace Reckoner

/-- A step without the offset of its token. -/
def Step.unplaced (s : Step) : Step := { s with index := 0 }

section

variable {c : Catalog} {n n' : Numerics}

/-! ## Tokens at other places -/

/-- The same words for everything. -/
def Translation.same : Translation where
  operator op := op
  function f := f
  constant k := k
  operator_eq _ := rfl
  function_eq _ := rfl
  constant_eq _ := rfl

theorem Translation.same_apply (a : Applied) : same.apply a = a := by
  cases a <;> rfl

theorem Translation.same_renders {ts ts' : List Token}
    (h : ts'.map Token.outline = ts.map Token.outline) (behind : Bool) :
    same.Renders c c behind ts ts' := by
  induction ts generalizing ts' behind with
  | nil =>
      cases List.map_eq_nil_iff.mp h
      exact .nil
  | cons t ts ih =>
      obtain ⟨t', ts', rfl, ht, hts⟩ := List.map_eq_cons_iff.mp h
      obtain ⟨hkind, htext⟩ := Token.outline_eq_iff.mp ht
      refine .cons hkind (fun a ha => ?_) (fun _ => htext) (ih hts _)
      rwa [same_apply, Definition.meaning?, hkind, htext]

theorem Translation.unplaced_of_repeats {steps steps' : List Step}
    (h : List.Forall₂ same.Repeats steps steps') :
    steps'.map Step.unplaced = steps.map Step.unplaced := by
  induction h with
  | nil => rfl
  | cons hstep _ ih =>
      rw [List.map_cons, List.map_cons, ih, Step.unplaced, Step.unplaced, hstep.applied,
        hstep.operands, hstep.result, same_apply]

/-- Tokens at other places come to the same value by the same steps. -/
theorem Evaluation.ofTokens_unplaced {tokens tokens' : List Token} {width : Nat} {x : Number}
    (h : tokens'.map Token.outline = tokens.map Token.outline) (width' : Nat)
    (hx : (Evaluation.ofTokens c n width tokens).result = .ok x) :
    (Evaluation.ofTokens c n width' tokens').result = .ok x ∧
      (Evaluation.ofTokens c n width' tokens').steps.map Step.unplaced =
        (Evaluation.ofTokens c n width tokens).steps.map Step.unplaced := by
  obtain ⟨hresult, hsteps⟩ := (Translation.same_renders h false).ofTokens width' rfl rfl hx
  exact ⟨hresult, Translation.unplaced_of_repeats hsteps⟩

/-! ## Draws -/

/-- What has `older` before it in a list stands behind as many. -/
theorem getElem?_of_suffix_reverse {α : Type} {a : α} {older all : List α}
    (h : a :: older <:+ all.reverse) : all[older.length]? = some a := by
  obtain ⟨newer, hall⟩ := h
  rw [← List.reverse_reverse all, ← hall, List.reverse_append, List.reverse_cons, List.append_assoc,
    List.getElem?_append_right (Nat.le_of_eq List.length_reverse), List.length_reverse,
    Nat.sub_self]
  rfl

theorem Numerics.redraws_of_quiet {base base' steps : List Step}
    (h : ∀ s ∈ steps, s.isDraw = false) : n.Redraws n' base base' steps := by
  intro step made hmade hdraw
  cases (h step (hmade.mem List.mem_cons_self)).symm.trans hdraw

/-- Numbers that are drawn again with `steps` put in behind `first`. -/
theorem Numerics.redraws_around {first steps made whole : List Step}
    (hwhole : made ++ first = whole.reverse)
    (h : ∀ k step, whole[k]? = some step → step.isDraw = true →
      n'.draws (if k < first.length then k else k + steps.length) = n.draws k) :
    n.Redraws n' [] [] first ∧ n.Redraws n' first (steps.reverse ++ first) (made ++ first) := by
  constructor
  · intro step older hstep hdraw
    rw [List.append_nil] at hstep ⊢
    have hget := getElem?_of_suffix_reverse (hwhole ▸ hstep.trans (List.suffix_append made _))
    have hlt : older.length < first.length := hstep.length_le
    have hdrawn := h _ step hget hdraw
    rwa [if_pos hlt] at hdrawn
  · intro step older hstep hdraw
    have hdrawn := h _ step (getElem?_of_suffix_reverse (hwhole ▸ hstep)) hdraw
    have hbehind : ¬ (older ++ first).length < first.length := by
      rw [List.length_append]
      omega
    have hlength : (older ++ (steps.reverse ++ first)).length =
        (older ++ first).length + steps.length := by
      simp only [List.length_append, List.length_reverse]
      omega
    rw [hlength]
    rwa [if_neg hbehind] at hdrawn

/-! ## One form for each value -/

theorem Applied.isCanonical_outcome (p : Nat) (draw : Decimal) (a : Applied) {xs : List Number}
    (hxs : ∀ x ∈ xs, x.IsCanonical) : (a.outcome p draw xs).All Number.IsCanonical := by
  cases a with
  | operator op => exact op.isCanonical_apply p hxs
  | function f => exact f.id.isCanonical_apply p draw hxs
  | constant k => exact k.id.isCanonical_value p

theorem Numerics.keeps_canonical (n : Numerics) : n.Keeps Number.IsCanonical where
  literal := Number.isCanonical_parse n.precision
  applied := fun a k _ hxs => a.isCanonical_outcome n.precision (n.draws k) hxs

/-- A literal with the value of an expression is read as that value. -/
theorem Number.Same.eq_of_parse {text : String} {inner : List Token} {width : Nat} {x w : Number}
    (h : x.Same w) (hx : Number.parse n.precision text = .ok x)
    (hw : (Evaluation.ofTokens c n width inner).result = .ok w) : x = w :=
  h.eq (n.keeps_canonical.literal text x hx) ((n.keeps_canonical.outcome c width inner).2 w hw)

/-! ## In brackets -/

section

variable {o close : Token} {b : Brackets} {inner after : List Token} {w : Number}
  {steps : List Step} {st : State}

/-- Behind an opening bracket, moves lead over an expression up to the closing
one. -/
theorem leads_inside (ho : o.kind = .symbol .opening)
    (hb : c.findExpressionBrackets? o.text = some b) (hc : close.kind = .symbol .closing)
    (hinner : Leads c n (.start inner) ⟨⟨⟨[w], steps⟩, [], .operand⟩, []⟩)
    (hquiet : ∀ s ∈ steps, s.isDraw = false) (hp : n'.precision = n.precision)
    (hprev : st.previous ≠ .operand) :
    Leads c n' ⟨st, o :: inner ++ close :: after⟩
      ⟨⟨⟨w :: st.work.operands, steps ++ st.work.steps⟩, .group b o :: st.pending, .operand⟩,
        close :: after⟩ := by
  let frame : Frame := ⟨st.work.operands, st.work.steps, .group b o :: st.pending, rfl⟩
  have hstart : State.initial.Framed frame [] ⟨st.work, .group b o :: st.pending, .opening⟩ :=
    ⟨⟨rfl, [], rfl, rfl⟩, rfl, .inr ⟨rfl, rfl⟩⟩
  obtain ⟨st₁, hl, hf⟩ := hinner.framed (close :: after) (List.append_nil _).symm hstart hp
    (fun op _ => by rw [Operator.isDue, hc]) (Numerics.redraws_of_quiet hquiet)
  rw [hf.eq_behind (List.append_nil _).symm rfl] at hl
  exact .step (.group ho hprev hb) hl

/-- Where an operand may begin, an expression in brackets is handled token by
token.  Behind it, its value is on top of what it was on top of before. -/
theorem handled_bracketed (ho : o.kind = .symbol .opening)
    (hb : c.findExpressionBrackets? o.text = some b) (hc : close.kind = .symbol .closing)
    (hbc : close.text = b.closing)
    (hinner : Leads c n (.start inner) ⟨⟨⟨[w], steps⟩, [], .operand⟩, []⟩)
    (hquiet : ∀ s ∈ steps, s.isDraw = false) (hp : n'.precision = n.precision)
    (hprev : st.previous ≠ .operand) :
    Handled c n' ⟨st, o :: inner ++ close :: after⟩
      ⟨⟨⟨w :: st.work.operands, steps ++ st.work.steps⟩, st.pending, .operand⟩, after⟩ := by
  refine (leads_inside ho hb hc hinner hquiet hp hprev).handled
    (Moves.handled (.closeGroup hc hbc.symm) (.refl _) fun h => ?_) (.inl (Nat.lt_succ_self _))
  exact absurd (congrArg List.length h) (Nat.ne_of_lt (Nat.lt_succ_self _))

end

/-! ## In place of a literal -/

theorem Pending.raise_zero : Pending.raise 0 = id := by
  funext entry
  cases entry <;> rfl

/-- The frame with nothing below, behind some steps. -/
def Frame.behind (steps : List Step) : Frame := ⟨[], steps, [], rfl⟩

/-- A state is itself, behind other steps. -/
theorem State.framed_behind (w : Work) (pending : List Pending) (previous : Previous)
    (made steps base : List Step) (h : w.steps = made ++ base) :
    State.Framed (.behind steps) base ⟨w, pending, previous⟩
      ⟨⟨w.operands, made ++ steps⟩, pending, previous⟩ := by
  refine ⟨⟨(List.append_nil _).symm, made, h, rfl⟩, ?_, .inl rfl⟩
  simp only [Frame.behind, List.length_nil, Pending.raise_zero, List.map_id, List.append_nil]

theorem State.Framed.eq_of_behind {st st' : State} (h : st.Framed (.behind []) [] st') :
    st'.work = st.work ∧ st'.pending = st.pending := by
  obtain ⟨⟨_, _⟩, _, _⟩ := st
  obtain ⟨⟨_, _⟩, _, _⟩ := st'
  obtain ⟨⟨hoperands, made, hs, hs'⟩, hpending, -⟩ := h
  simp only [Frame.behind, List.length_nil, Pending.raise_zero, List.map_id, List.append_nil]
    at hoperands hs hs' hpending
  exact ⟨by rw [hoperands, hs, hs'], hpending⟩

/-- Where moves lead over a literal to the end, they lead over an expression in
brackets with the same value.  Its steps come between those made in front of
the literal and those made behind it. -/
theorem leads_in_place {o close literal : Token} {b : Brackets} {inner before after : List Token}
    {w v : Number} {steps made : List Step} {st : State} (ho : o.kind = .symbol .opening)
    (hb : c.findExpressionBrackets? o.text = some b) (hc : close.kind = .symbol .closing)
    (hbc : close.text = b.closing)
    (hinner : Leads c n (.start inner) ⟨⟨⟨[w], steps⟩, [], .operand⟩, []⟩)
    (hquiet : ∀ s ∈ steps, s.isDraw = false) (hk : literal.kind = .literal)
    (hprev : st.previous ≠ .operand)
    (hlead : Leads c n (.start (before ++ literal :: after)) ⟨st, literal :: after⟩)
    (hrest : Leads c n ⟨⟨st.work.push w, st.pending, .operand⟩, after⟩
      ⟨⟨⟨[v], made ++ st.work.steps⟩, [], .operand⟩, []⟩)
    (hp : n'.precision = n.precision) (hfirst : n.Redraws n' [] [] st.work.steps)
    (hlast : n.Redraws n' st.work.steps (steps ++ st.work.steps) (made ++ st.work.steps)) :
    Leads c n' (.start (before ++ (o :: inner ++ close :: after)))
      ⟨⟨⟨[v], made ++ (steps ++ st.work.steps)⟩, [], .operand⟩, []⟩ := by
  -- in front of the literal
  obtain ⟨st', hl, hf⟩ := hlead.framed (o :: inner ++ close :: after) rfl
    (State.framed_behind ⟨[], []⟩ [] .start [] [] [] rfl) hp
    (fun op hd => by rw [Operator.isDue, hk] at hd; cases hd) hfirst
  have hprev' := hf.previous.ne_operand hprev
  obtain ⟨⟨operands, steps₀⟩, pending, previous⟩ := st
  obtain ⟨work', pending', previous'⟩ := st'
  obtain ⟨rfl, rfl⟩ : work' = ⟨operands, steps₀⟩ ∧ pending' = pending := hf.eq_of_behind
  -- behind it
  obtain ⟨st₁, hl₁, hf₁⟩ := hrest.framed [] (List.append_nil _).symm
    (State.framed_behind ⟨w :: operands, steps₀⟩ pending' .operand [] (steps ++ steps₀) steps₀ rfl)
    hp (fun _ h => h) hlast
  rw [hf₁.eq_behind rfl rfl, List.append_nil] at hl₁
  exact hl.trans ((leads_inside ho hb hc hinner hquiet hp hprev').trans
    (.step (.closeGroup hc hbc.symm) hl₁))

/-- An expression has the value that moves lead to. -/
theorem Leads.of_ofTokens_eq {tokens : List Token} {width : Nat} {steps : List Step} {x : Number}
    (h : Evaluation.ofTokens c n width tokens = ⟨steps, .ok x⟩) :
    Leads c n (.start tokens) ⟨⟨⟨[x], steps.reverse⟩, [], .operand⟩, []⟩ := by
  obtain ⟨made, hl⟩ := Leads.exists_of_ok (congrArg Evaluation.result h)
  have he : Evaluation.ofTokens c n width tokens = _ := hl.ofTokens_eq
  cases he.symm.trans h
  rwa [List.reverse_reverse]

end

/-- For every catalog and every expression in brackets of which no step draws a
number: from any state where an operand may begin, it is handled so that its
value is pushed, and what is pending and the values below stay as they were.  If
it is put in place of a literal with the same value, the value of the whole stays,
and so do its steps, with those of the expression behind the ones made when the
literal is about to be handled.  This holds wherever the tokens stand, and with
the same numbers drawn. -/
theorem bracketed_isolated (c : Catalog) (n : Numerics) {o close : Token} {b : Brackets}
    {inner : List Token} {width : Nat} {steps : List Step} {w : Number}
    (ho : o.kind = .symbol .opening) (hb : c.findExpressionBrackets? o.text = some b)
    (hc : close.kind = .symbol .closing) (hbc : close.text = b.closing)
    (hinner : Evaluation.ofTokens c n width inner = ⟨steps, .ok w⟩)
    (hquiet : ∀ s ∈ steps, s.isDraw = false) :
    (∀ (n' : Numerics) (st : State) (after : List Token), n'.precision = n.precision →
      st.previous ≠ .operand →
      Handled c n' ⟨st, o :: inner ++ close :: after⟩
        ⟨⟨⟨w :: st.work.operands, steps.reverse ++ st.work.steps⟩, st.pending, .operand⟩, after⟩) ∧
    ∀ (before after : List Token) (literal : Token) (width : Nat) (whole : List Step)
      (x v : Number),
      literal.kind = .literal → Number.parse n.precision literal.text = .ok x → x.Same w →
      Evaluation.ofTokens c n width (before ++ literal :: after) = ⟨whole, .ok v⟩ →
      ∃ st rest, Handled c n (.start (before ++ literal :: after)) ⟨st, literal :: after⟩ ∧
        whole = st.work.steps.reverse ++ rest ∧
        ∀ (n' : Numerics) (width' : Nat) (tokens : List Token), n'.precision = n.precision →
          (∀ k step, whole[k]? = some step → step.isDraw = true →
            n'.draws (if k < st.work.steps.length then k else k + steps.length) = n.draws k) →
          tokens.map Token.outline =
            (before ++ (o :: inner ++ close :: after)).map Token.outline →
          (Evaluation.ofTokens c n' width' tokens).result = .ok v ∧
            (Evaluation.ofTokens c n' width' tokens).steps.map Step.unplaced =
              (st.work.steps.reverse ++ steps ++ rest).map Step.unplaced := by
  have hl := Leads.of_ofTokens_eq hinner
  have hquiet' : ∀ s ∈ steps.reverse, s.isDraw = false := fun s hs =>
    hquiet s (List.mem_reverse.mp hs)
  refine ⟨fun n' st after hp hprev => handled_bracketed ho hb hc hbc hl hquiet' hp hprev, ?_⟩
  intro before after literal width whole x v hk hx hsame hwhole
  cases hsame.eq_of_parse hx (congrArg Evaluation.result hinner)
  obtain ⟨st, x', hx', hprev, hlead, hrest⟩ :=
    (Leads.of_ofTokens_eq hwhole).exists_literal rfl hk rfl
  cases hx'.symm.trans hx
  obtain ⟨made, hmade⟩ := hrest.steps_suffix
  have hmade : made ++ st.work.steps = whole.reverse := hmade
  rw [← hmade] at hrest
  have hdue : ∀ op : Operator, op.isDue c (literal :: after) = false := fun op => by
    rw [Operator.isDue, hk]
  refine ⟨st, made.reverse, hlead.handled (.refl _) (.inr hdue), ?_, ?_⟩
  · rw [← List.reverse_append, hmade, List.reverse_reverse]
  intro n' width' tokens hp hdraws houtline
  obtain ⟨hfirst, hlast⟩ := Numerics.redraws_around hmade hdraws
  have heval : Evaluation.ofTokens c n' 0 _ = _ :=
    (leads_in_place ho hb hc hbc hl hquiet' hk hprev hlead hrest hp hfirst hlast).ofTokens_eq
  obtain ⟨hresult, hsteps⟩ := Evaluation.ofTokens_unplaced houtline width'
    (congrArg Evaluation.result heval)
  refine ⟨hresult, hsteps.trans ?_⟩
  rw [heval]
  simp only [List.reverse_append, List.reverse_reverse, List.append_assoc]

/-- The tokens of `4/2`. -/
def fourHalves : List Token :=
  [⟨.literal, "4", 0, 1⟩, ⟨.symbol .operator, "/", 1, 2⟩, ⟨.literal, "2", 2, 3⟩]

/-- The tokens of `3*2^2`. -/
def threeTimesSquare : List Token :=
  [⟨.literal, "3", 0, 1⟩, ⟨.symbol .operator, "*", 1, 2⟩] ++
    ⟨.literal, "2", 2, 3⟩ :: [⟨.symbol .operator, "^", 3, 4⟩, ⟨.literal, "2", 4, 5⟩]

/-- The tokens of `3*(4/2)^2`. -/
def threeTimesHalvesSquared : List Token :=
  [⟨.literal, "3", 0, 1⟩, ⟨.symbol .operator, "*", 1, 2⟩, ⟨.symbol .opening, "(", 2, 3⟩,
   ⟨.literal, "4", 3, 4⟩, ⟨.symbol .operator, "/", 4, 5⟩, ⟨.literal, "2", 5, 6⟩,
   ⟨.symbol .closing, ")", 6, 7⟩, ⟨.symbol .operator, "^", 7, 8⟩, ⟨.literal, "2", 8, 9⟩]

theorem halvesSquared_isolated :
    let c := Preset.catalog .standard
    let n : Numerics := ⟨20, fun _ => .zero⟩
    let e := Evaluation.ofTokens c n 9 threeTimesHalvesSquared
    (Evaluation.ofTokens c n 5 threeTimesSquare).result = .ok (.finite ⟨false, 12, 0⟩) ∧
      e.result = .ok (.finite ⟨false, 12, 0⟩) ∧
      ∃ (st : State) (rest : List Step), (Evaluation.ofTokens c n 5 threeTimesSquare).steps =
          st.work.steps.reverse ++ rest ∧
        e.steps.map Step.unplaced = (st.work.steps.reverse ++
          (Evaluation.ofTokens c n 3 fourHalves).steps ++ rest).map Step.unplaced := by
  intro c n e
  have hinner : (Evaluation.ofTokens c n 3 fourHalves).result = .ok (.finite ⟨false, 2, 0⟩) :=
    toOption_eq_some.mp (by decide +kernel)
  have hwhole : (Evaluation.ofTokens c n 5 threeTimesSquare).result =
      .ok (.finite ⟨false, 12, 0⟩) := toOption_eq_some.mp (by decide +kernel)
  have hliteral : Number.parse 20 "2" = .ok (.finite ⟨false, 2, 0⟩) :=
    toOption_eq_some.mp (by decide +kernel)
  have hquiet : ∀ s ∈ (Evaluation.ofTokens c n 3 fourHalves).steps, s.isDraw = false := by
    decide +kernel
  have hquiet' : ∀ s ∈ (Evaluation.ofTokens c n 5 threeTimesSquare).steps, s.isDraw = false := by
    decide +kernel
  obtain ⟨-, hreplace⟩ := @bracketed_isolated c n ⟨.symbol .opening, "(", 2, 3⟩
    ⟨.symbol .closing, ")", 6, 7⟩ ⟨"(", ")"⟩ fourHalves 3 _ _ rfl (by decide +kernel) rfl rfl
    (by rw [← hinner]) hquiet
  obtain ⟨st, rest, -, hsteps, hplaced⟩ := hreplace _ _ _ 5 _ (.finite ⟨false, 2, 0⟩) _ rfl
    hliteral ⟨rfl, rfl⟩
    (show Evaluation.ofTokens c n 5 threeTimesSquare = ⟨_, _⟩ by rw [← hwhole])
  obtain ⟨hvalue, heq⟩ := hplaced n 9 threeTimesHalvesSquared rfl
    (fun k step hget hdraw => by
      cases (hquiet' step (List.mem_of_getElem? hget)).symm.trans hdraw) rfl
  exact ⟨hwhole, hvalue, st, rest, hsteps, heq⟩

end Reckoner
