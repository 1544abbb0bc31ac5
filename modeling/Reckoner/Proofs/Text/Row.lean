/-
# Rows, positions and carets

A `Row` is a line of a text with the offset at which it starts.  `rows` lists
them, and what the functions for readers compute is told by it:

    linesOf      the lines of the rows
    position     the row of an offset, and how far behind its start the offset
                 lies, unless the offset is inside a break (`position_marks`)
    snippetAt    the row of an offset, with carets below (`caretsUnder_snippetAt`)

A break of two characters has an offset inside, between the carriage return
and the line feed.  That offset belongs to no row: what is computed for it is
column zero of the row behind the break (`position_insideBreak`).
-/
import Reckoner.Failure
import Reckoner.Proofs.Token.MaximalMunch

namespace Reckoner

namespace Text

/-- A line of a text, and the offset at which it starts. -/
structure Row where
  start : Nat
  line : List Char
deriving DecidableEq, Repr

/-- The rows of a text that follows an offset. -/
def rows (offset : Nat) : List Char → List Row
  | [] => [⟨offset, []⟩]
  | '\r' :: '\n' :: rest => ⟨offset, []⟩ :: rows (offset + 2) rest
  | c :: rest =>
    if c = '\r' || c = '\n' then ⟨offset, []⟩ :: rows (offset + 1) rest
    else match rows (offset + charUnits c) rest with
      | [] => [⟨offset, [c]⟩]
      | row :: more => ⟨offset, c :: row.line⟩ :: more

/-- Whether a character ends a line, or is part of what does. -/
def isBreak (c : Char) : Bool := c = '\r' || c = '\n'

/-- `InsideBreak offset cs i`: where `cs` follow the offset `offset`, the offset
`i` lies between a carriage return and the line feed behind it. -/
def InsideBreak (offset : Nat) (cs : List Char) (i : Nat) : Prop :=
  ∃ j rest, At offset cs j ('\r' :: '\n' :: rest) ∧ i = j + 1

/-- `p.Marks source i`: a reader who counts to the line and the column of `p`
comes to the offset `i`; the column is at most one behind the line. -/
def Position.Marks (p : Position) (source : String) (i : Nat) : Prop :=
  ∃ row, 1 ≤ p.line ∧ (rows 0 source.toList)[p.line - 1]? = some row ∧
    1 ≤ p.column ∧ p.column ≤ unitsOf row.line + 1 ∧ row.start + (p.column - 1) = i

theorem exists_rows (offset : Nat) (cs : List Char) :
    ∃ line more, rows offset cs = ⟨offset, line⟩ :: more := by
  fun_cases rows offset cs with
  | case1 => exact ⟨[], [], rfl⟩
  | case2 rest => exact ⟨[], _, rfl⟩
  | case3 c rest _ h => exact ⟨[], _, rfl⟩
  | case4 c rest _ h hr => exact ⟨[c], _, rfl⟩
  | case5 c rest _ h row more hr => exact ⟨_, _, rfl⟩

/-- The lines of the rows are the lines. -/
theorem map_line_rows (offset : Nat) (cs : List Char) :
    (rows offset cs).map Row.line = linesOf cs := by
  fun_induction rows offset cs with
  | case1 offset => rfl
  | case2 offset rest ih => rw [List.map_cons, ih, linesOf]
  | case3 offset c rest hn h ih =>
      rw [List.map_cons, ih, linesOf, if_pos h]
      exact hn
  | case4 offset c rest _ h hr ih =>
      obtain ⟨line, more, hrows⟩ := exists_rows (offset + charUnits c) rest
      cases hr.symm.trans hrows
  | case5 offset c rest hn h row more hr ih =>
      rw [hr, List.map_cons] at ih
      rw [List.map_cons, linesOf, if_neg h, ← ih]
      exact hn

theorem InsideBreak.behind {offset i : Nat} (text : List Char) {rest : List Char}
    (h : InsideBreak (offset + unitsOf text) rest i) : InsideBreak offset (text ++ rest) i := by
  obtain ⟨j, tail, hat, rfl⟩ := h
  exact ⟨j, tail, hat.behind, rfl⟩

theorem charUnits_of_isBreak {c : Char} (h : isBreak c = true) : charUnits c = 1 := by
  simp only [isBreak, Bool.or_eq_true, decide_eq_true_eq] at h
  rcases h with rfl | rfl <;> rfl

/-- `Reaches i line rows p`: the position `p` marks the offset `i` in one of the
rows, of which the first is the line `line`. -/
def Reaches (i line : Nat) (rows : List Row) (p : Position) : Prop :=
  ∃ k row, rows[k]? = some row ∧ p.line = line + k ∧ row.start + p.column = i + 1 ∧
    1 ≤ p.column ∧ p.column ≤ unitsOf row.line + 1

theorem Reaches.first {i line : Nat} {row : Row} {more : List Row} {p : Position}
    (hline : p.line = line) (hcolumn : row.start + p.column = i + 1) (hstart : row.start ≤ i)
    (hi : i ≤ row.start + unitsOf row.line) : Reaches i line (row :: more) p :=
  ⟨0, row, rfl, hline, hcolumn, by omega, by omega⟩

theorem Reaches.later {i line : Nat} {row : Row} {more : List Row} {p : Position}
    (h : Reaches i (line + 1) more p) : Reaches i line (row :: more) p := by
  obtain ⟨k, found, hk, hline, hfound⟩ := h
  exact ⟨k + 1, found, hk, by omega, hfound⟩

/-- Counting on from `offset` in a row that began at `start`, one comes to the
offset `i` in that row or in a later one. -/
theorem positionFrom_row {i offset start : Nat} {cs : List Char} (line : Nat)
    (hstart : start ≤ offset) (hi : start ≤ i) (hle : i ≤ offset + unitsOf cs)
    (hb : ¬ InsideBreak offset cs i) :
    ∃ first more, rows offset cs = ⟨offset, first⟩ :: more ∧
      ((positionFrom i cs offset line start).line = line ∧
          start + (positionFrom i cs offset line start).column = i + 1 ∧
          i ≤ offset + unitsOf first ∨
        Reaches i (line + 1) more (positionFrom i cs offset line start)) := by
  fun_induction positionFrom i cs offset line start with
  | case1 offset line start =>
      refine ⟨[], [], rfl, .inl ⟨rfl, ?_, hle⟩⟩
      dsimp only
      omega
  | case2 rest offset line start h =>
      refine ⟨[], _, rfl, .inl ⟨rfl, ?_, Nat.le_add_right_of_le h⟩⟩
      dsimp only
      omega
  | case3 rest offset line start h ih =>
      have hunits : unitsOf ('\r' :: '\n' :: rest) = 2 + unitsOf rest := (Nat.add_assoc 1 1 _).symm
      have hne : i ≠ offset + 1 := fun he => hb ⟨offset, rest, .start _ _, he⟩
      have hrest : ¬ InsideBreak (offset + 2) rest i :=
        fun hin => hb (InsideBreak.behind ['\r', '\n'] hin)
      obtain ⟨first, more, hrows, hfound⟩ := ih (Nat.le_refl _) (by omega) (by omega) hrest
      refine ⟨[], _, rfl, .inr ?_⟩
      rw [hrows]
      rcases hfound with ⟨hline, hcolumn, hin⟩ | hfound
      · exact .first hline hcolumn (by dsimp only; omega) hin
      · exact hfound.later
  | case4 c rest offset line start hn h =>
      obtain ⟨first, more, hrows⟩ := exists_rows offset (c :: rest)
      refine ⟨first, more, hrows, .inl ⟨rfl, ?_, Nat.le_add_right_of_le h⟩⟩
      dsimp only
      omega
  | case5 c rest offset line start hn h hc ih =>
      have hone : charUnits c = 1 := charUnits_of_isBreak hc
      have hrest : ¬ InsideBreak (offset + 1) rest i := fun hin =>
        hb (InsideBreak.behind [c] (by rwa [unitsOf, unitsOf, hone]))
      rw [unitsOf, hone] at hle
      obtain ⟨first, more, hrows, hfound⟩ := ih (Nat.le_refl _) (by omega) (by omega) hrest
      refine ⟨[], rows (offset + 1) rest, ?_, .inr ?_⟩
      · rw [rows, if_pos hc]
        exact hn
      · rw [hrows]
        rcases hfound with ⟨hline, hcolumn, hin⟩ | hfound
        · exact .first hline hcolumn (by dsimp only; omega) hin
        · exact hfound.later
  | case6 c rest offset line start hn h hc ih =>
      have hrest : ¬ InsideBreak (offset + charUnits c) rest i := fun hin =>
        hb (InsideBreak.behind [c] hin)
      rw [unitsOf, ← Nat.add_assoc] at hle
      obtain ⟨first, more, hrows, hfound⟩ := ih (by omega) hi hle hrest
      refine ⟨c :: first, more, ?_, ?_⟩
      · rw [rows, if_neg hc, hrows]
        exact hn
      · rwa [unitsOf, ← Nat.add_assoc]

theorem clamp_units {i lo hi : Nat} (hlo : lo ≤ i) (hhi : i ≤ hi) :
    (Offset.units ↑i).clamp lo hi = i := by
  simp only [Offset.clamp]
  rw [if_neg (by omega), if_neg (by omega), Int.toNat_natCast]

/-- Unless it is inside a break, an offset of a source is marked by its
position. -/
theorem position_marks {source : String} {i : Nat} (hi : i ≤ units source)
    (hb : ¬ InsideBreak 0 source.toList i) : (position source (.units i)).Marks source i := by
  obtain ⟨first, more, hrows, hfound⟩ := positionFrom_row 1 (Nat.le_refl 0)
    (Nat.zero_le i) (by rwa [Nat.zero_add]) hb
  have hreach : Reaches i 1 (rows 0 source.toList) (position source (.units i)) := by
    rw [position, clamp_units (Nat.zero_le i) hi, hrows]
    rcases hfound with ⟨hline, hcolumn, hin⟩ | hfound
    · exact .first hline hcolumn (Nat.zero_le i) hin
    · exact hfound.later
  obtain ⟨k, row, hk, hline, hcolumn, hpos, hle⟩ := hreach
  refine ⟨row, by omega, ?_, hpos, hle, by omega⟩
  rwa [hline, Nat.add_sub_cancel_left]

theorem positionFrom_of_le {i offset : Nat} (h : i ≤ offset) (cs : List Char) (line start : Nat) :
    positionFrom i cs offset line start = ⟨line, i + 1 - start⟩ := by
  unfold positionFrom
  split
  · rfl
  · rw [if_pos h]
  · rw [if_pos h]

/-- Counting on never goes back to a line before. -/
theorem line_le_positionFrom (i : Nat) (cs : List Char) (offset line start : Nat) :
    line ≤ (positionFrom i cs offset line start).line := by
  fun_induction positionFrom i cs offset line start with
  | case1 | case2 | case4 => exact Nat.le_refl _
  | case3 _ _ _ _ _ ih | case5 _ _ _ _ _ _ _ _ ih => exact Nat.le_of_succ_le ih
  | case6 _ _ _ _ _ _ _ _ ih => exact ih

/-- An offset inside a break has column zero. -/
theorem positionFrom_insideBreak {i offset line start : Nat} {cs : List Char}
    (h : InsideBreak offset cs i) : (positionFrom i cs offset line start).column = 0 := by
  obtain ⟨j, tail, ⟨before, hsplit, hj⟩, hi⟩ := h
  have hle : offset ≤ j := by omega
  fun_induction positionFrom i cs offset line start generalizing before with
  | case1 => cases (List.append_eq_nil_iff.mp hsplit.symm).2
  | case2 | case4 => omega
  | case3 rest offset line start _ ih =>
      cases before with
      | nil =>
          cases hsplit
          rw [unitsOf, Nat.add_zero] at hj
          rw [positionFrom_of_le (by omega)]
          dsimp only
          omega
      | cons _ before =>
          cases before with
          | nil => cases hsplit
          | cons _ before =>
              cases hsplit
              have hunits : unitsOf ('\r' :: '\n' :: before) = 2 + unitsOf before :=
                (Nat.add_assoc 1 1 _).symm
              exact ih before rfl (by omega) (by omega)
  | case5 c rest offset line start hn _ hc ih =>
      cases before with
      | nil =>
          cases hsplit
          exact absurd rfl (hn tail rfl)
      | cons _ before =>
          cases hsplit
          rw [unitsOf, charUnits_of_isBreak hc] at hj
          exact ih before rfl (by omega) (by omega)
  | case6 c rest offset line start _ _ hc ih =>
      cases before with
      | nil =>
          cases hsplit
          exact absurd rfl hc
      | cons _ before =>
          cases hsplit
          rw [unitsOf] at hj
          exact ih before rfl (by omega) (by omega)

theorem position_insideBreak {source : String} {i : Nat} (hi : i ≤ units source)
    (hb : InsideBreak 0 source.toList i) : (position source (.units i)).column = 0 := by
  rw [position, clamp_units (Nat.zero_le i) hi]
  exact positionFrom_insideBreak hb

/-! ## Carets -/

/-- Characters stand at one offset at most in one way. -/
theorem At.unique {offset i : Nat} {cs tail tail' : List Char} (h : At offset cs i tail)
    (h' : At offset cs i tail') : tail = tail' := by
  obtain ⟨before, hsplit, hi⟩ := h
  subst hsplit
  have hdrop := h'.drop (Nat.le_of_eq hi.symm)
  exact (hdrop.eq_start (Nat.le_of_eq hi)).2.symm

theorem At.le_units {i : Nat} {cs tail : List Char} (h : At 0 cs i tail) : i ≤ unitsOf cs := by
  obtain ⟨before, rfl, rfl⟩ := h
  rw [unitsOf_append, Nat.zero_add]
  exact Nat.le_add_right _ _

/-- No offset at which a text without breaks stands is inside of one. -/
theorem At.not_insideBreak {offset i : Nat} {cs text rest : List Char}
    (h : At offset cs i (text ++ rest)) (hne : text ≠ [])
    (hb : ∀ c ∈ text, isBreak c = false) : ¬ InsideBreak offset cs i := by
  rintro ⟨j, tail', ⟨before, rfl, rfl⟩, rfl⟩
  obtain ⟨c, text', rfl⟩ := List.exists_cons_of_ne_nil hne
  have hfeed : At offset (before ++ '\r' :: '\n' :: tail') (offset + unitsOf before + 1)
      ('\n' :: tail') :=
    ⟨before ++ ['\r'], by rw [List.append_assoc, List.singleton_append],
      by rw [unitsOf_append, Nat.add_assoc]; rfl⟩
  have hc := hb c List.mem_cons_self
  rw [(List.cons.inj (h.unique hfeed)).1] at hc
  cases hc

/-- A row stands at its start, and ends where a break or nothing follows. -/
theorem at_of_mem_rows {offset : Nat} {cs : List Char} {row : Row} (h : row ∈ rows offset cs) :
    ∃ tail, At offset cs row.start (row.line ++ tail) ∧
      ∀ c, tail.head? = some c → isBreak c = true := by
  fun_induction rows offset cs generalizing row with
  | case1 offset =>
      cases List.mem_singleton.mp h
      exact ⟨[], .start _ _, nofun⟩
  | case2 offset rest ih =>
      rcases List.mem_cons.mp h with rfl | h
      · exact ⟨_, .start _ _, fun c hc => Option.some.inj hc ▸ rfl⟩
      · obtain ⟨tail, hat, htail⟩ := ih h
        exact ⟨tail, @At.behind _ _ ['\r', '\n'] _ _ hat, htail⟩
  | case3 offset c rest hn hc ih =>
      rcases List.mem_cons.mp h with rfl | h
      · exact ⟨_, .start _ _, fun c' hc' => Option.some.inj hc' ▸ hc⟩
      · obtain ⟨tail, hat, htail⟩ := ih h
        rw [← charUnits_of_isBreak hc] at hat
        exact ⟨tail, @At.behind _ _ [c] _ _ hat, htail⟩
  | case4 offset c rest _ _ hr =>
      obtain ⟨line, more, hrows⟩ := exists_rows (offset + charUnits c) rest
      cases hr.symm.trans hrows
  | case5 offset c rest _ _ row' more hr ih =>
      rw [hr] at ih
      rcases List.mem_cons.mp h with rfl | h
      · -- the first row of the rest starts where the rest does
        obtain ⟨tail, hat, htail⟩ := ih List.mem_cons_self
        obtain ⟨line, more', hrows⟩ := exists_rows (offset + charUnits c) rest
        cases hr.symm.trans hrows
        refine ⟨tail, ?_, htail⟩
        rw [List.cons_append, (hat.eq_start (Nat.le_refl _)).2]
        exact .start _ _
      · obtain ⟨tail, hat, htail⟩ := ih (List.mem_cons_of_mem _ h)
        exact ⟨tail, @At.behind _ _ [c] _ _ hat, htail⟩

/-- Text without a break that stands at an offset in a row, or just behind it, is
part of the row. -/
theorem exists_lead_of_row {offset i : Nat} {cs text rest : List Char} {row : Row}
    (hrow : row ∈ rows offset cs) (hat : At offset cs i (text ++ rest)) (hne : text ≠ [])
    (hb : ∀ c ∈ text, isBreak c = false) (hstart : row.start ≤ i)
    (hi : i ≤ row.start + unitsOf row.line) :
    ∃ lead tail, row.line = lead ++ text ++ tail ∧ i = row.start + unitsOf lead := by
  obtain ⟨behind, ⟨before, rfl, hrowstart⟩, hbehind⟩ := at_of_mem_rows hrow
  obtain ⟨lead, hsplit, hlead⟩ := hat.drop (hrowstart ▸ hstart)
  rw [← hrowstart] at hlead
  obtain ⟨c, text', rfl⟩ := List.exists_cons_of_ne_nil hne
  rcases List.append_eq_append_iff.mp hsplit with ⟨more, rfl, hmore⟩ | ⟨more, hline, hmore⟩
  · -- what is behind the row would start with the text
    rw [unitsOf_append] at hlead
    have hnil : more = [] := by
      refine Classical.byContradiction fun h => ?_
      have := unitsOf_pos h
      omega
    subst hnil
    have hc := hbehind c (by rw [hmore]; rfl)
    rw [hb c List.mem_cons_self] at hc
    cases hc
  · rcases List.append_eq_append_iff.mp hmore with ⟨tail, rfl, -⟩ | ⟨text'', htext, hbehind'⟩
    · exact ⟨lead, tail, by rw [hline, List.append_assoc], hlead⟩
    · cases text'' with
      | nil => exact ⟨lead, [], by rw [hline, htext, List.append_nil, List.append_nil], hlead⟩
      | cons d text'' =>
          have hd := hbehind d (by rw [hbehind']; rfl)
          rw [hb d (by rw [htext]; exact List.mem_append_right _ List.mem_cons_self)] at hd
          cases hd

/-- What stands behind the carets: the message, unless it is blank. -/
def arrow (message : String) : List Char :=
  if isAllBlank message then [] else " --- ".toList ++ message.toList

/-- A line, and below it some spaces and some carets with the message behind them. -/
def underlined (line : List Char) (spaces carets : Nat) (message : String) : String :=
  String.ofList <|
    line ++ '\n' :: List.replicate spaces ' ' ++ List.replicate carets '^' ++ arrow message

theorem snippetAt_of_line {source : String} {p : Position} {line : List Char}
    (h : (linesOf source.toList)[p.line - 1]? = some line) (length : Offset) (message : String) :
    snippetAt source p length message =
      let column := (Offset.units p.column).clamp 1 (unitsOf line + 1)
      underlined line (column - 1) (caretCount (unitsOf line + 1 - column) length) message := by
  rw [snippetAt, h, Option.getD_some]
  rfl

/-- Where a text without a break stands, it is part of a line, and the carets for it stand under
it, as many as it has units. -/
theorem underlined_of_at {source : String} {i : Nat} {text rest : List Char}
    (hat : At 0 source.toList i (text ++ rest)) (hne : text ≠ [])
    (hb : ∀ c ∈ text, isBreak c = false) (message : String) :
    ∃ (k start : Nat) (lead tail : List Char),
      (rows 0 source.toList)[k]? = some ⟨start, lead ++ text ++ tail⟩ ∧ i = start + unitsOf lead ∧
        snippetAt source (position source (.units i)) (.units ↑(unitsOf text)) message =
          underlined (lead ++ text ++ tail) (unitsOf lead) (unitsOf text) message := by
  obtain ⟨row, -, hget, hpos, hle, hi⟩ :=
    position_marks hat.le_units (hat.not_insideBreak hne hb)
  generalize position source (.units i) = p at hget hpos hle hi ⊢
  obtain ⟨lead, tail, hline, hlead⟩ :=
    exists_lead_of_row (List.mem_of_getElem? hget) hat hne hb (by omega) (by omega)
  have hlines : (linesOf source.toList)[p.line - 1]? = some (lead ++ text ++ tail) := by
    rw [← map_line_rows 0, List.getElem?_map, hget, Option.map_some, hline]
  have htext := unitsOf_pos hne
  have hunits : unitsOf (lead ++ text ++ tail) = unitsOf lead + unitsOf text + unitsOf tail := by
    rw [unitsOf_append, unitsOf_append]
  have hcolumn : p.column = unitsOf lead + 1 := by omega
  have hroom : unitsOf lead + unitsOf text + unitsOf tail + 1 - (unitsOf lead + 1) =
      unitsOf text + unitsOf tail := by omega
  refine ⟨p.line - 1, row.start, lead, tail, ?_, hlead, ?_⟩
  · rw [← hline]
    exact hget
  · simp only [snippetAt_of_line hlines, hunits, hcolumn]
    rw [clamp_units (by omega) (by omega), hroom, Nat.add_sub_cancel, caretCount,
      if_neg (by omega), clamp_units (by omega) (by omega)]
    exact nofun

/-- `CaretsUnder source i text snippet`: the snippet is the line of the source in
which `text` stands at the offset `i`, and below it are carets under `text`, as
many as it has units, with no caret behind them. -/
def CaretsUnder (source : String) (i : Nat) (text : List Char) (snippet : String) : Prop :=
  ∃ start lead tail arrow, ⟨start, lead ++ text ++ tail⟩ ∈ rows 0 source.toList ∧
    i = start + unitsOf lead ∧ arrow.head? ≠ some '^' ∧
    snippet = String.ofList (lead ++ text ++ tail ++ '\n' ::
      List.replicate (unitsOf lead) ' ' ++ List.replicate (unitsOf text) '^' ++ arrow)

/-- The carets for a text without a break stand under it. -/
theorem caretsUnder_snippetAt {source message : String} {i : Nat} {text rest : List Char}
    (hat : At 0 source.toList i (text ++ rest)) (hne : text ≠ [])
    (hb : ∀ c ∈ text, isBreak c = false) :
    CaretsUnder source i text
      (snippetAt source (position source (.units i)) (.units ↑(unitsOf text)) message) := by
  obtain ⟨k, start, lead, tail, hrow, hi, hsnippet⟩ := underlined_of_at hat hne hb message
  refine ⟨start, lead, tail, arrow message, List.mem_of_getElem? hrow, hi, ?_, hsnippet⟩
  unfold arrow
  split
  · exact nofun
  · exact fun h => by cases h

end Text
end Reckoner
