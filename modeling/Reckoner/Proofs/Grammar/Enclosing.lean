/-
# Enclosing leading minus signs

The two built-in styles differ in how tightly a leading minus binds, and in
nothing else.  What the spreadsheet style takes a run of leading minus signs to
apply to is the one operand behind it; parentheses around the run and its
operand make the standard style take it so too:

    -2^2            (-2)^2
    2^--3*-sin(-1)  2^(--3)*(-sin((-1)))

A scan from left to right finds where the parentheses belong.  It keeps whether
an operand has just ended, whether a run waits for its operand, and for every
open bracket whether a run waits for the end of what the bracket begins.

    token                     opens if                    closes if
    operator                  no operand has ended and
                              no run waits
    numeral, constant                                     a run waits
    closing bracket                                       a run waits for its end

**Proved here.**  What the spreadsheet style reads as a tree, the standard style
reads as the same tree with a minus that binds looser,

    once the parentheses are put in, and
    as it is, if `^` never comes behind a token that closes    (`Reads.carried`)

The induction is on the reading.  An expression below a run ends with the
operand of the run in the spreadsheet style, where every binary operator is
reduced.  In the standard style it ends there too: before the closing
parenthesis, or before an operator other than `^`.
-/
import Reckoner.Catalog.Preset
import Reckoner.Proofs.Grammar.Outline

namespace Reckoner

/-! ## Where parentheses belong -/

/-- What a scan over tokens keeps. -/
structure Scan where
  /-- Whether an operand has just ended. -/
  behind : Bool
  /-- Whether a run of leading minus signs waits for its operand. -/
  waiting : Bool
  /-- Whether a run waits for the end of a bracket, for each open one, the latest first. -/
  enclosing : List Bool
deriving DecidableEq, Repr

/-- A list with one entry, or with none. -/
def putIf {α : Type} (b : Bool) (a : α) : List α := if b then [a] else []

/-- Whether a name is one of a built-in function. -/
def Preset.namesFunction (name : String) : Bool := functions.any (·.name = name)

namespace Scan

/-- The scan in front of the first token. -/
def start : Scan := ⟨false, false, []⟩

/-- Whether a run begins with a token. -/
def opens (s : Scan) (t : Token) : Bool :=
  match t.kind with
  | .symbol .operator => !s.behind && !s.waiting
  | _ => false

/-- Whether the operand of a run ends with a token. -/
def closes (s : Scan) (t : Token) : Bool :=
  match t.kind with
  | .literal => s.waiting
  | .identifier => !Preset.namesFunction t.text && s.waiting
  | .symbol .closing => s.enclosing.headD false
  | _ => false

/-- The scan behind a token. -/
def next (s : Scan) (t : Token) : Scan :=
  match t.kind with
  | .literal => ⟨true, false, s.enclosing⟩
  | .identifier => if Preset.namesFunction t.text then s else ⟨true, false, s.enclosing⟩
  | .symbol .operator => ⟨false, !s.behind, s.enclosing⟩
  | .symbol .opening => ⟨false, false, s.waiting :: s.enclosing⟩
  | .symbol .closing => ⟨true, false, s.enclosing.tail⟩
  | .symbol .separator => ⟨false, false, s.enclosing⟩
  | .other _ => s

/-- What a token becomes, with what is put in around it. -/
def around {α : Type} (s : Scan) (t : Token) (opening closing : α) (piece : List α) : List α :=
  putIf (s.opens t) opening ++ piece ++ putIf (s.closes t) closing

end Scan

/-- A parenthesis that is put in. -/
def Preset.openingToken : Token := ⟨.symbol .opening, parentheses.opening, 0, 0⟩

def Preset.closingToken : Token := ⟨.symbol .closing, parentheses.closing, 0, 0⟩

/-- The tokens with parentheses around each run and its operand. -/
def Scan.enclose : Scan → List Token → List Token
  | _, [] => []
  | s, t :: ts =>
    s.around t Preset.openingToken Preset.closingToken [t] ++ (s.next t).enclose ts

/-- Whether a power comes next. -/
def startsPower : List Token → Bool
  | [] => false
  | t :: _ => t.kind = .symbol .operator && t.text = "^"

/-- The operand of no run is followed by a power. -/
def Scan.Clear : Scan → List Token → Prop
  | _, [] => True
  | s, t :: ts => (s.closes t = true → startsPower ts = false) ∧ (s.next t).Clear ts

/-! ## What the two styles share -/

/-- The operator as the standard style has it: one with one operand binds looser
than a power. -/
def Operator.loosened (op : Operator) : Operator :=
  match op.arity with
  | .unary => { op with precedence := .ofNat 3 }
  | .binary => op

theorem Operator.loosened_of_binary {op : Operator} (h : op.arity = .binary) :
    op.loosened = op := by
  rw [loosened, h]

theorem Operator.outline_loosened (op : Operator) : op.loosened.outline = op.outline := by
  unfold loosened
  split <;> rfl

def Tree.loosened (t : Tree) : Tree := t.map Operator.loosened id

theorem Tree.outline_loosened (t : Tree) : t.loosened.outline = t.outline := by
  rw [outline, loosened, map_map]
  exact congrArg (t.map · Token.outline) (funext Operator.outline_loosened)

def Phrase.loosened : Phrase → Phrase
  | .expression top t => .expression (top.map Operator.loosened) t.loosened
  | .chain top left t => .chain (top.map Operator.loosened) left.loosened t.loosened
  | .operand t => .operand t.loosened
  | .arguments b ts => .arguments b (Tree.mapAll Operator.loosened id ts)

namespace Preset

theorem findOperator?_unary {symbol : String} {u : Operator}
    (h : (catalog .spreadsheet).findOperator? symbol .unary = some u) :
    u = negate 5 ∧ (catalog .standard).findOperator? symbol .unary = some u.loosened := by
  have hall : ∀ op ∈ operators .spreadsheet, op.arity = .unary → op = negate 5 := by decide +kernel
  have hu : u = negate 5 :=
    hall u (List.mem_of_find?_eq_some h) ((catalog .spreadsheet).arity_of_findOperator? h)
  have hs := List.find?_some h
  simp only [hu, Bool.and_eq_true, decide_eq_true_eq] at hs
  subst hu
  exact ⟨rfl, hs.1 ▸ rfl⟩

theorem findOperator?_binary (symbol : String) :
    (catalog .standard).findOperator? symbol .binary =
      (catalog .spreadsheet).findOperator? symbol .binary := by
  have hskip : ∀ style, (catalog style).findOperator? symbol .binary =
      (operators .standard).tail.find? fun op => op.symbol = symbol && op.arity = .binary :=
    fun _ => List.find?_cons_of_neg (Bool.eq_false_iff.mp (Bool.and_false _))
  rw [hskip, hskip]

theorem infix?_eq (ts : List Token) :
    (catalog .standard).infix? ts = (catalog .spreadsheet).infix? ts := by
  cases ts with
  | nil => rfl
  | cons t ts => simp only [Catalog.infix?, findOperator?_binary]

/-- In the spreadsheet style a leading minus is reduced before every binary operator. -/
theorem reduces_minus {ts : List Token} {b : Operator}
    (h : (catalog .spreadsheet).infix? ts = some b) :
    Operator.reduces (some (negate 5)) b = true := by
  have hall : ∀ op ∈ operators .spreadsheet, op.arity = .binary →
      Operator.reduces (some (negate 5)) op = true := by decide +kernel
  obtain ⟨t, ts, rfl⟩ := Catalog.exists_cons_of_infix? h
  obtain ⟨-, hb⟩ := Catalog.infix?_eq_some.mp h
  exact hall b (List.mem_of_find?_eq_some hb) ((catalog .spreadsheet).arity_of_findOperator? hb)

/-- In the standard style it is reduced before every one but a power. -/
theorem reduces_minus_of_startsPower {ts : List Token} {b : Operator}
    (h : (catalog .standard).infix? ts = some b) (hp : startsPower ts = false) :
    Operator.reduces (some (negate 5).loosened) b = true := by
  have hall : ∀ op ∈ operators .standard, op.arity = .binary → op.symbol ≠ "^" →
      Operator.reduces (some (negate 5).loosened) op = true := by decide +kernel
  obtain ⟨t, ts, rfl⟩ := Catalog.exists_cons_of_infix? h
  obtain ⟨hk, hb⟩ := Catalog.infix?_eq_some.mp h
  refine hall b (List.mem_of_find?_eq_some hb) ((catalog .standard).arity_of_findOperator? hb) ?_
  have hs := List.find?_some hb
  simp only [Bool.and_eq_true, decide_eq_true_eq] at hs
  intro he
  simp only [startsPower, hk, ← hs.1, he, decide_true, Bool.and_self] at hp
  cases hp

theorem isSome_findFunction? (style : Style) (name : String) :
    ((catalog style).findFunction? name).isSome = namesFunction name :=
  List.isSome_find?

theorem namesFunction_of_findFunction? {name : String} {f : Function}
    (h : (catalog .spreadsheet).findFunction? name = some f) : namesFunction name = true := by
  rw [← isSome_findFunction? .spreadsheet, h]
  rfl

theorem namesFunction_of_findConstant? {name : String} {k : Constant}
    (h : (catalog .spreadsheet).findConstant? name = some k) : namesFunction name = false := by
  rw [← isSome_findFunction? .spreadsheet, (catalog .spreadsheet).findFunction?_eq_none h]
  rfl

end Preset

/-! ## From the one style to the other -/

theorem Scan.enclose_cons (s : Scan) (t : Token) (ts : List Token) :
    s.enclose (t :: ts) = putIf (s.opens t) Preset.openingToken ++
      t :: (putIf (s.closes t) Preset.closingToken ++ (s.next t).enclose ts) := by
  simp only [enclose, around, List.append_assoc, List.cons_append, List.nil_append]

/-- Behind an operand the same binary operator comes next, parentheses or not. -/
theorem Preset.infix?_enclose {w : Bool} {e : List Bool} (ts : List Token) :
    (catalog .standard).infix? (Scan.enclose ⟨true, w, e⟩ ts) =
      (catalog .spreadsheet).infix? ts := by
  rw [infix?_eq]
  cases ts with
  | nil => rfl
  | cons t ts =>
      have hopens : Scan.opens ⟨true, w, e⟩ t = false := by
        simp only [Scan.opens, Bool.not_true, Bool.false_and]
        split <;> rfl
      rw [Scan.enclose_cons, hopens]
      rfl

/-- `Below top waiting`: where an expression below `top` begins, a run waits just
if `top` is a leading minus. -/
inductive Below : Option Operator → Bool → Prop
  | nothing : Below none false
  | binary {op : Operator} : op.arity = .binary → Below (some op) false
  | minus : Below (some (Preset.negate 5)) true

theorem Below.map_loosened {top : Option Operator} (h : Below top false) :
    top.map Operator.loosened = top := by
  cases h with
  | nothing => rfl
  | binary ha => rw [Option.map_some, Operator.loosened_of_binary ha]

/-- What the spreadsheet style reads between two scans, the standard style reads
as well; `owed` tells whether a closing parenthesis is put in at the end. -/
structure Scan.Carries (s s' : Scan) (owed : Bool) (p : Phrase) (ts rest : List Token) : Prop where
  enclosed : Reads (Preset.catalog .standard) p.loosened (s.enclose ts)
    (putIf owed Preset.closingToken ++ s'.enclose rest)
  plain : s.Clear ts → Reads (Preset.catalog .standard) p.loosened ts rest ∧ s'.Clear rest ∧
    (owed = true → startsPower rest = false)

/-- What a phrase says of the scans around it. -/
def Phrase.Carried (ts rest : List Token) : Phrase → Prop
  | .expression top t => ∀ w e, Below top w →
      Scan.Carries ⟨false, w, e⟩ ⟨true, false, e⟩ w (.expression top t) ts rest
  | .chain top left t => ∀ e, Below top false →
      Scan.Carries ⟨true, false, e⟩ ⟨true, false, e⟩ false (.chain top left t) ts rest
  | .operand t => ∀ w e, Scan.Carries ⟨false, w, e⟩ ⟨true, false, e⟩ w (.operand t) ts rest
  | .arguments b args => ∀ w e,
      Scan.Carries ⟨false, false, w :: e⟩ ⟨true, false, e⟩ w (.arguments b args) ts rest

section

variable {top : Option Operator} {left t : Tree} {token : Token} {ts mid rest : List Token}
  {e : List Bool}

theorem carries_expression
    (h : Scan.Carries ⟨false, false, e⟩ ⟨true, false, e⟩ false (.operand left) ts mid)
    (h' : Scan.Carries ⟨true, false, e⟩ ⟨true, false, e⟩ false (.chain top left t) mid rest) :
    Scan.Carries ⟨false, false, e⟩ ⟨true, false, e⟩ false (.expression top t) ts rest where
  enclosed := .expression h.enclosed h'.enclosed
  plain hc := by
    obtain ⟨hleft, hmid, -⟩ := h.plain hc
    obtain ⟨hchain, hrest⟩ := h'.plain hmid
    exact ⟨.expression hleft hchain, hrest⟩

/-- What a run applies to ends with its operand in either style. -/
theorem carries_run (h : Scan.Carries ⟨false, true, e⟩ ⟨true, false, e⟩ true (.operand t) ts rest) :
    Scan.Carries ⟨false, true, e⟩ ⟨true, false, e⟩ true (.expression (some (Preset.negate 5)) t)
      ts rest where
  enclosed := .expression h.enclosed (.stop fun _ hb => nomatch hb)
  plain hc := by
    obtain ⟨ht, hrest, hp⟩ := h.plain hc
    exact ⟨.expression ht (.stop fun _ hb => Preset.reduces_minus_of_startsPower hb (hp rfl)),
      hrest, hp⟩

/-- A leading minus goes on a run, or begins one, which the parentheses enclose. -/
theorem carries_unary {u : Operator} (hk : token.kind = .symbol .operator)
    (hu : (Preset.catalog .standard).findOperator? token.text .unary = some u.loosened)
    (h : Scan.Carries ⟨false, true, e⟩ ⟨true, false, e⟩ true (.expression (some u) t) ts rest)
    (w : Bool) :
    Scan.Carries ⟨false, w, e⟩ ⟨true, false, e⟩ w (.operand (.unary u token t)) (token :: ts)
      rest where
  enclosed := by
    have hoperand := Reads.unary hk hu h.enclosed
    simp only [Scan.enclose_cons, Scan.opens, Scan.closes, Scan.next, hk, Bool.not_false,
      Bool.true_and]
    cases w with
    | true => exact hoperand
    | false => exact .group rfl rfl (.expression hoperand (.stop fun _ hb => nomatch hb)) rfl rfl
  plain hc := by
    simp only [Scan.Clear, Scan.closes, Scan.next, hk, Bool.not_false] at hc
    obtain ⟨ht, hrest, hp⟩ := h.plain hc.2
    exact ⟨.unary hk hu ht, hrest, fun _ => hp rfl⟩

theorem carries_extend {b : Operator} {right : Tree}
    (hb : (Preset.catalog .standard).infix? (token :: ts) = some b)
    (hr : Operator.reduces (top.map Operator.loosened) b = false) (hl : b.loosened = b)
    (h : Scan.Carries ⟨false, false, e⟩ ⟨true, false, e⟩ false (.expression (some b) right) ts mid)
    (h' : Scan.Carries ⟨true, false, e⟩ ⟨true, false, e⟩ false
      (.chain top (.binary b token left right) t) mid rest) :
    Scan.Carries ⟨true, false, e⟩ ⟨true, false, e⟩ false (.chain top left t) (token :: ts)
      rest := by
  obtain ⟨hk, hop⟩ := Catalog.infix?_eq_some.mp hb
  rw [← hl] at hop hr
  refine ⟨?_, fun hc => ?_⟩
  · simp only [Scan.enclose_cons, Scan.opens, Scan.closes, Scan.next, hk]
    exact .extend (Catalog.infix?_eq_some.mpr ⟨hk, hop⟩) hr h.enclosed h'.enclosed
  · simp only [Scan.Clear, Scan.closes, Scan.next, hk] at hc
    obtain ⟨hright, hmid, -⟩ := h.plain hc.2
    obtain ⟨hchain, hrest⟩ := h'.plain hmid
    exact ⟨.extend (Catalog.infix?_eq_some.mpr ⟨hk, hop⟩) hr hright hchain, hrest⟩

/-- A run in front of a bracket waits while what is inside is read. -/
theorem carries_group {b : Brackets} {close : Token} (hk : token.kind = .symbol .opening)
    (hb : (Preset.catalog .standard).findExpressionBrackets? token.text = some b)
    (hkc : close.kind = .symbol .closing) (hbc : b.closing = close.text) {w : Bool}
    (h : Scan.Carries ⟨false, false, w :: e⟩ ⟨true, false, w :: e⟩ false (.expression none t) ts
      (close :: rest)) :
    Scan.Carries ⟨false, w, e⟩ ⟨true, false, e⟩ w (.operand t) (token :: ts) rest where
  enclosed := by
    have he := h.enclosed
    simp only [Scan.enclose_cons, Scan.opens, Scan.closes, Scan.next, hk, hkc] at he ⊢
    exact .group hk hb he hkc hbc
  plain hc := by
    simp only [Scan.Clear, Scan.closes, Scan.next, hk] at hc
    obtain ⟨ht, hclose, -⟩ := h.plain hc.2
    simp only [Scan.Clear, Scan.closes, Scan.next, hkc] at hclose
    exact ⟨.group hk hb ht hkc hbc, hclose.2, hclose.1⟩

theorem carries_call {f : Function} {b : Brackets} {args : List Tree} {next : Token}
    (hk : token.kind = .identifier)
    (hf : (Preset.catalog .spreadsheet).findFunction? token.text = some f)
    (hkn : next.kind = .symbol .opening)
    (hb : (Preset.catalog .standard).findFunctionBrackets? next.text = some b)
    (ha : f.admits args.length = true) {w : Bool}
    (h : Scan.Carries ⟨false, false, w :: e⟩ ⟨true, false, e⟩ w (.arguments b args) ts rest) :
    Scan.Carries ⟨false, w, e⟩ ⟨true, false, e⟩ w (.operand (.call f token args))
      (token :: next :: ts) rest := by
  have hnames := Preset.namesFunction_of_findFunction? hf
  have ha' : f.admits (Tree.mapAll Operator.loosened id args).length = true := by
    rwa [Tree.length_mapAll]
  refine ⟨?_, fun hc => ?_⟩
  · simp only [Scan.enclose_cons, Scan.opens, Scan.closes, Scan.next, hk, hkn, hnames,
      Bool.not_true, Bool.false_and, if_true]
    exact .call hk hf hkn hb h.enclosed ha'
  · simp only [Scan.Clear, Scan.closes, Scan.next, hk, hkn, hnames, Bool.not_true,
      Bool.false_and, if_true] at hc
    obtain ⟨hargs, hrest⟩ := h.plain hc.2.2
    exact ⟨.call hk hf hkn hb hargs ha', hrest⟩

theorem carries_stop (ht : Below top false)
    (hs : ∀ b, (Preset.catalog .spreadsheet).infix? ts = some b → Operator.reduces top b = true) :
    Scan.Carries ⟨true, false, e⟩ ⟨true, false, e⟩ false (.chain top left left) ts ts := by
  rw [← ht.map_loosened] at hs
  refine ⟨.stop fun b hb => hs b ?_, fun hc => ⟨.stop fun b hb => hs b ?_, hc, nofun⟩⟩
  · rwa [Preset.infix?_enclose] at hb
  · rwa [Preset.infix?_eq] at hb

theorem carries_literal (hk : token.kind = .literal) (w : Bool) :
    Scan.Carries ⟨false, w, e⟩ ⟨true, false, e⟩ w (.operand (.literal token)) (token :: ts)
      ts where
  enclosed := by
    simp only [Scan.enclose_cons, Scan.opens, Scan.closes, Scan.next, hk]
    exact .literal hk
  plain hc := by
    simp only [Scan.Clear, Scan.closes, Scan.next, hk] at hc
    exact ⟨.literal hk, hc.2, hc.1⟩

theorem carries_constant {k : Constant} (hk : token.kind = .identifier)
    (hconst : (Preset.catalog .spreadsheet).findConstant? token.text = some k) (w : Bool) :
    Scan.Carries ⟨false, w, e⟩ ⟨true, false, e⟩ w (.operand (.constant k token)) (token :: ts)
      ts := by
  have hnames := Preset.namesFunction_of_findConstant? hconst
  refine ⟨?_, fun hc => ?_⟩
  · simp only [Scan.enclose_cons, Scan.opens, Scan.closes, Scan.next, hk, hnames,
      Bool.not_false, Bool.true_and]
    exact .constant hk hconst
  · simp only [Scan.Clear, Scan.closes, Scan.next, hk, hnames, Bool.not_false,
      Bool.true_and] at hc
    exact ⟨.constant hk hconst, hc.2, hc.1⟩

theorem carries_emptyCall {f : Function} {b : Brackets} {next close : Token}
    (hk : token.kind = .identifier)
    (hf : (Preset.catalog .spreadsheet).findFunction? token.text = some f)
    (hkn : next.kind = .symbol .opening)
    (hb : (Preset.catalog .standard).findFunctionBrackets? next.text = some b)
    (hkc : close.kind = .symbol .closing) (hbc : b.closing = close.text)
    (ha : f.admits 0 = true) (w : Bool) :
    Scan.Carries ⟨false, w, e⟩ ⟨true, false, e⟩ w (.operand (.call f token []))
      (token :: next :: close :: rest) rest := by
  have hnames := Preset.namesFunction_of_findFunction? hf
  refine ⟨?_, fun hc => ?_⟩
  · simp only [Scan.enclose_cons, Scan.opens, Scan.closes, Scan.next, hk, hkn, hkc, hnames,
      Bool.not_true, Bool.false_and, if_true]
    exact .emptyCall hk hf hkn hb hkc hbc ha
  · simp only [Scan.Clear, Scan.closes, Scan.next, hk, hkn, hkc, hnames, Bool.not_true,
      Bool.false_and, if_true] at hc
    exact ⟨.emptyCall hk hf hkn hb hkc hbc ha, hc.2.2.2, hc.2.2.1⟩

theorem carries_last {b : Brackets} {close : Token} {w : Bool}
    (h : Scan.Carries ⟨false, false, w :: e⟩ ⟨true, false, w :: e⟩ false (.expression none t) ts
      (close :: rest))
    (hk : close.kind = .symbol .closing) (hb : b.closing = close.text) :
    Scan.Carries ⟨false, false, w :: e⟩ ⟨true, false, e⟩ w (.arguments b [t]) ts rest where
  enclosed := by
    have he := h.enclosed
    simp only [Scan.enclose_cons, Scan.opens, Scan.closes, Scan.next, hk] at he
    exact .last he hk hb
  plain hc := by
    obtain ⟨ht, hclose, -⟩ := h.plain hc
    simp only [Scan.Clear, Scan.closes, Scan.next, hk] at hclose
    exact ⟨.last ht hk hb, hclose.2, hclose.1⟩

theorem carries_more {b : Brackets} {separator : Token} {args : List Tree} {w : Bool}
    (h : Scan.Carries ⟨false, false, w :: e⟩ ⟨true, false, w :: e⟩ false (.expression none t) ts
      (separator :: mid))
    (hk : separator.kind = .symbol .separator)
    (h' : Scan.Carries ⟨false, false, w :: e⟩ ⟨true, false, e⟩ w (.arguments b args) mid rest) :
    Scan.Carries ⟨false, false, w :: e⟩ ⟨true, false, e⟩ w (.arguments b (t :: args)) ts
      rest where
  enclosed := by
    have he := h.enclosed
    simp only [Scan.enclose_cons, Scan.opens, Scan.closes, Scan.next, hk] at he
    exact .more he hk h'.enclosed
  plain hc := by
    obtain ⟨ht, hseparator, -⟩ := h.plain hc
    simp only [Scan.Clear, Scan.closes, Scan.next, hk] at hseparator
    obtain ⟨hargs, hend⟩ := h'.plain hseparator.2
    exact ⟨.more ht hk hargs, hend⟩

end

/-- What the spreadsheet style reads, the standard style reads with a minus that
binds looser, between parentheses or where no power follows. -/
theorem Reads.carried {p : Phrase} {ts rest : List Token}
    (h : Reads (Preset.catalog .spreadsheet) p ts rest) : p.Carried ts rest := by
  induction h with
  | expression h₁ h₂ ih₁ ih₂ =>
      intro w e ht
      cases w with
      | false => exact carries_expression (ih₁ false e) (ih₂ e ht)
      | true =>
          cases ht
          -- the operand is all there is below a leading minus
          obtain ⟨rfl, rfl⟩ := h₂.of_stop fun _ hb => Preset.reduces_minus hb
          exact carries_run (ih₁ true e)
  | stop hs => exact fun e ht => carries_stop ht hs
  | @extend top b _ _ _ token ts _ _ hb hr _ _ ih₁ ih₂ =>
      intro e ht
      have harity : b.arity = .binary := (Preset.catalog .spreadsheet).arity_of_findOperator?
        (Catalog.infix?_eq_some.mp hb).2
      rw [← ht.map_loosened] at hr
      exact carries_extend ((Preset.infix?_eq _).trans hb) hr (Operator.loosened_of_binary harity)
        (ih₁ false e (.binary harity)) (ih₂ e ht)
  | literal hk => exact fun w e => carries_literal hk w
  | constant hk hconst => exact fun w e => carries_constant hk hconst w
  | unary hk hu _ ih =>
      intro w e
      obtain ⟨rfl, hu'⟩ := Preset.findOperator?_unary hu
      exact carries_unary hk hu' (ih true e .minus) w
  | group hk hb _ hkc hbc ih =>
      exact fun w e => carries_group hk hb hkc hbc (ih false (w :: e) .nothing)
  | call hk hf hkn hb _ ha ih => exact fun w e => carries_call hk hf hkn hb ha (ih w e)
  | emptyCall hk hf hkn hb hkc hbc ha =>
      exact fun w e => carries_emptyCall hk hf hkn hb hkc hbc ha w
  | last _ hk hb ih => exact fun w e => carries_last (ih false (w :: e) .nothing) hk hb
  | more _ hk _ ih₁ ih₂ =>
      exact fun w e => carries_more (ih₁ false (w :: e) .nothing) hk (ih₂ w e)

end Reckoner
