/-
# Positions and lines

Two functions cut a source at its breaks: `linesOf` gives the lines, `position` counts the breaks
in front of an offset.  They agree on every mixture of breaks and empty lines: the offset is as far
behind the start of its line as the column says, and positions are in the order of the offsets
(`position_agrees`).  Where a line starts is the sum of what is in front of it,

    line 0   break 0   line 1   break 1   ...   line k
    |------------ lineStart k -----------------|

Only the offset inside a break of two characters has no place in a line.  It still has a line, the
one behind the break, so a snippet can be written for any offset whatever (`snippet_within`).
-/
import Reckoner.Proofs.Text.Row

namespace Reckoner

namespace Text

/-- The breaks of a text. -/
def breaksOf : List Char → List (List Char)
  | [] => []
  | '\r' :: '\n' :: rest => ['\r', '\n'] :: breaksOf rest
  | c :: rest => if isBreak c then [c] :: breaksOf rest else breaksOf rest

/-- The offset at which a line starts, counted from line zero: all lines in front of it and their
breaks come first. -/
def lineStart (cs : List Char) (k : Nat) : Nat :=
  unitsOf ((linesOf cs).take k).flatten + unitsOf ((breaksOf cs).take k).flatten

/-- The order of positions in which a text is read. -/
def Position.Before (p q : Position) : Prop :=
  p.line < q.line ∨ p.line = q.line ∧ p.column < q.column

/-! ## Lines and their starts -/

section

variable {c : Char} {rest : List Char}

theorem linesOf_break (hn : ∀ more, c = '\r' → rest = '\n' :: more → False)
    (hc : isBreak c = true) : linesOf (c :: rest) = [] :: linesOf rest := by
  rw [linesOf, if_pos (show (c = '\r' || c = '\n') = true from hc)]
  exact hn

/-- A character that is no break is in front of the first line. -/
theorem exists_linesOf_char (hn : ∀ more, c = '\r' → rest = '\n' :: more → False)
    (hc : ¬ isBreak c = true) :
    ∃ line more, linesOf rest = line :: more ∧ linesOf (c :: rest) = (c :: line) :: more := by
  obtain ⟨line, more, hrows⟩ := exists_rows 0 rest
  have hrest : linesOf rest = line :: more.map Row.line := by
    rw [← map_line_rows 0, hrows, List.map_cons]
  refine ⟨line, _, hrest, ?_⟩
  rw [linesOf, if_neg (show ¬ (c = '\r' || c = '\n') = true from hc), hrest]
  exact hn

/-- Behind a break of two characters. -/
theorem lineStart_pair (rest : List Char) (k : Nat) :
    lineStart ('\r' :: '\n' :: rest) (k + 1) = 2 + lineStart rest k := by
  have hpair : unitsOf ['\r', '\n'] = 2 := rfl
  simp only [lineStart, linesOf, breaksOf, List.take_succ_cons, List.flatten_cons, List.nil_append,
    unitsOf_append, hpair]
  omega

/-- Behind a break of one character. -/
theorem lineStart_break (hn : ∀ more, c = '\r' → rest = '\n' :: more → False)
    (hc : isBreak c = true) (k : Nat) : lineStart (c :: rest) (k + 1) = 1 + lineStart rest k := by
  have hone : unitsOf [c] = 1 := charUnits_of_isBreak hc
  have hbreaks : breaksOf (c :: rest) = [c] :: breaksOf rest := by
    rw [breaksOf, if_pos hc]
    exact hn
  simp only [lineStart, linesOf_break hn hc, hbreaks, List.take_succ_cons, List.flatten_cons,
    List.nil_append, unitsOf_append, hone]
  omega

/-- Behind a character that is part of the first line. -/
theorem lineStart_char (hn : ∀ more, c = '\r' → rest = '\n' :: more → False)
    (hc : ¬ isBreak c = true) (k : Nat) :
    lineStart (c :: rest) (k + 1) = charUnits c + lineStart rest (k + 1) := by
  have hbreaks : breaksOf (c :: rest) = breaksOf rest := by
    rw [breaksOf, if_neg hc]
    exact hn
  obtain ⟨line, more, hrest, hlines⟩ := exists_linesOf_char hn hc
  simp only [lineStart, hlines, hrest, hbreaks, List.take_succ_cons, List.flatten_cons,
    List.cons_append, unitsOf]
  omega

end

/-- A row starts where its line does. -/
theorem start_of_rows {offset k : Nat} {cs : List Char} {row : Row}
    (h : (rows offset cs)[k]? = some row) : row.start = offset + lineStart cs k := by
  fun_induction rows offset cs generalizing k row with
  | case1 offset =>
      cases k with
      | zero =>
          cases h
          rfl
      | succ k => cases h
  | case2 offset rest ih =>
      cases k with
      | zero =>
          cases h
          rfl
      | succ k => rw [ih h, lineStart_pair, Nat.add_assoc]
  | case3 offset c rest hn hc ih =>
      cases k with
      | zero =>
          cases h
          rfl
      | succ k => rw [ih h, lineStart_break hn hc, Nat.add_assoc]
  | case4 offset c rest _ _ hr =>
      obtain ⟨line, more, hrows⟩ := exists_rows (offset + charUnits c) rest
      cases hr.symm.trans hrows
  | case5 offset c rest hn hc row' more hr ih =>
      cases k with
      | zero =>
          cases h
          rfl
      | succ k =>
          rw [hr] at ih
          rw [ih (k := k + 1) h, lineStart_char hn hc, Nat.add_assoc]

theorem le_start_of_mem_rows {offset : Nat} {cs : List Char} {row : Row}
    (h : row ∈ rows offset cs) : offset ≤ row.start := by
  obtain ⟨k, hk⟩ := List.mem_iff_getElem?.mp h
  exact start_of_rows hk ▸ Nat.le_add_right _ _

/-- A row ends in front of all later ones. -/
theorem rows_apart (offset : Nat) (cs : List Char) :
    (rows offset cs).Pairwise fun a b => a.start + unitsOf a.line < b.start := by
  fun_induction rows offset cs with
  | case1 offset => exact List.pairwise_singleton _ _
  | case2 offset rest ih =>
      refine List.pairwise_cons.mpr ⟨fun b hb => ?_, ih⟩
      exact Nat.lt_of_lt_of_le (Nat.lt_add_of_pos_right Nat.two_pos) (le_start_of_mem_rows hb)
  | case3 offset c rest _ _ ih =>
      exact List.pairwise_cons.mpr ⟨fun b hb => le_start_of_mem_rows hb, ih⟩
  | case4 offset c rest _ _ hr =>
      obtain ⟨line, more, hrows⟩ := exists_rows (offset + charUnits c) rest
      cases hr.symm.trans hrows
  | case5 offset c rest _ _ row more hr ih =>
      -- the first row of the rest starts where the rest does
      obtain ⟨line, more', hrows⟩ := exists_rows (offset + charUnits c) rest
      cases hr.symm.trans hrows
      rw [hrows] at ih
      obtain ⟨hfirst, hmore⟩ := List.pairwise_cons.mp ih
      refine List.pairwise_cons.mpr ⟨fun b hb => ?_, hmore⟩
      have := hfirst b hb
      rw [unitsOf]
      dsimp only at this ⊢
      omega

/-! ## The order of positions -/

namespace Position

variable {source : String} {i j : Nat} {p q : Position}

/-- No reader comes to a higher offset in an earlier line. -/
theorem Marks.line_le (hp : p.Marks source i) (hq : q.Marks source j) (h : i ≤ j) :
    p.line ≤ q.line := by
  refine Nat.le_of_not_lt fun hlt => ?_
  obtain ⟨row, hline, hrow, hcolumn, hend, hstart⟩ := hp
  obtain ⟨row', hline', hrow', hcolumn', hend', hstart'⟩ := hq
  obtain ⟨hk, rfl⟩ := List.getElem?_eq_some_iff.mp hrow
  obtain ⟨hk', rfl⟩ := List.getElem?_eq_some_iff.mp hrow'
  -- the row of the higher offset would end in front of the other one
  have hapart := List.pairwise_iff_getElem.mp (rows_apart 0 source.toList)
    (q.line - 1) (p.line - 1) hk' hk (by omega)
  omega

/-- In one line the columns are as far apart as the offsets. -/
theorem Marks.column_add (hp : p.Marks source i) (hq : q.Marks source j) (h : p.line = q.line) :
    i + q.column = j + p.column := by
  obtain ⟨row, -, hrow, hcolumn, -, hstart⟩ := hp
  obtain ⟨row', -, hrow', hcolumn', -, hstart'⟩ := hq
  rw [h, hrow'] at hrow
  cases hrow
  omega

/-- A reader comes to the lower offset first. -/
theorem Marks.before_iff (hp : p.Marks source i) (hq : q.Marks source j) :
    p.Before q ↔ i < j := by
  constructor
  · rintro (hlt | ⟨heq, hlt⟩)
    · exact Nat.lt_of_not_le fun hle => Nat.not_lt_of_le (hq.line_le hp hle) hlt
    · have := hp.column_add hq heq
      omega
  · intro h
    rcases Nat.lt_or_eq_of_le (hp.line_le hq h.le) with hlt | heq
    · exact .inl hlt
    · have := hp.column_add hq heq
      exact .inr ⟨heq, by omega⟩

/-- An offset has one position, and a position has one offset. -/
theorem Marks.eq_iff (hp : p.Marks source i) (hq : q.Marks source j) : p = q ↔ i = j := by
  constructor
  · rintro rfl
    have := hp.column_add hq rfl
    omega
  · rintro rfl
    have hline := Nat.le_antisymm (hp.line_le hq (Nat.le_refl i)) (hq.line_le hp (Nat.le_refl i))
    have hcolumn : p.column = q.column := Nat.add_left_cancel (hp.column_add hq hline).symm
    cases p
    cases q
    cases hline
    cases hcolumn
    rfl

end Position

/-- An offset that is not inside a break has the position `p`: it is as many units behind the start
of the line of `p` as the column says, at most one behind the end of the line.  Of two such offsets
the lower one has the position that is read first, so no two have the same. -/
theorem position_agrees {source : String} {i : Nat} (hi : i ≤ units source)
    (hb : ¬ InsideBreak 0 source.toList i) :
    let p := position source (.units i)
    (∃ line tail, 1 ≤ p.line ∧ p.line ≤ (linesOf source.toList).length ∧
      (linesOf source.toList)[p.line - 1]? = some line ∧
      At 0 source.toList (lineStart source.toList (p.line - 1)) (line ++ tail) ∧
      1 ≤ p.column ∧ p.column ≤ unitsOf line + 1 ∧
      lineStart source.toList (p.line - 1) + (p.column - 1) = i) ∧
    ∀ j, j ≤ units source → ¬ InsideBreak 0 source.toList j →
      (position source (.units j) = p ↔ j = i) ∧
      (p.Before (position source (.units j)) ↔ i < j) := by
  intro p
  have hp : p.Marks source i := position_marks hi hb
  refine ⟨?_, fun j hj hbj => ?_⟩
  · obtain ⟨row, hline, hrow, hcolumn, hend, hstart⟩ := hp
    obtain ⟨tail, hat, -⟩ := at_of_mem_rows (List.mem_of_getElem? hrow)
    have hlineStart := start_of_rows hrow
    rw [Nat.zero_add] at hlineStart
    have hlines : (linesOf source.toList)[p.line - 1]? = some row.line := by
      rw [← map_line_rows 0, List.getElem?_map, hrow, Option.map_some]
    obtain ⟨hlength, -⟩ := List.getElem?_eq_some_iff.mp hlines
    exact ⟨row.line, tail, hline, by omega, hlines, hlineStart ▸ hat, hcolumn, hend,
      hlineStart ▸ hstart⟩
  · have hq := position_marks hj hbj
    exact ⟨hq.eq_iff hp, hp.before_iff hq⟩

/-- In front of the digit of the third line there are a break of two characters and one of one. -/
theorem position_agrees_behind_breaks :
    4 ≤ units "1\r\n\r2\n" ∧ ¬ InsideBreak 0 "1\r\n\r2\n".toList 4 ∧
      position "1\r\n\r2\n" (.units 4) = ⟨3, 1⟩ ∧
      lineStart "1\r\n\r2\n".toList (3 - 1) + (1 - 1) = 4 ∧
      ∀ j, j ≤ units "1\r\n\r2\n" → ¬ InsideBreak 0 "1\r\n\r2\n".toList j →
        (Position.Before ⟨3, 1⟩ (position "1\r\n\r2\n" (.units j)) ↔ 4 < j) := by
  have hat : At 0 "1\r\n\r2\n".toList 4 (['2'] ++ ['\n']) := ⟨"1\r\n\r".toList, rfl, rfl⟩
  have hb := hat.not_insideBreak (List.cons_ne_nil _ _) (List.forall_mem_singleton.mpr rfl)
  have hp : position "1\r\n\r2\n" (.units (4 : Nat)) = ⟨3, 1⟩ := by decide +kernel
  obtain ⟨⟨_, _, _, _, _, _, _, _, hstart⟩, horder⟩ := position_agrees hat.le_units hb
  rw [hp] at hstart horder
  exact ⟨hat.le_units, hb, hp, hstart, fun j hj hbj => (horder j hj hbj).2⟩

/-! ## Lines of any offset -/

/-- Counting on comes to no line behind the last. -/
theorem positionFrom_line_lt (i : Nat) (cs : List Char) (offset line start : Nat) :
    (positionFrom i cs offset line start).line < line + (linesOf cs).length := by
  have hpos : ∀ cs, 0 < (linesOf cs).length := by
    intro cs
    obtain ⟨first, more, hrows⟩ := exists_rows 0 cs
    rw [← map_line_rows 0, hrows]
    exact Nat.succ_pos _
  fun_induction positionFrom i cs offset line start with
  | case1 _ line | case2 _ _ line | case4 _ _ _ line => exact Nat.lt_add_of_pos_right (hpos _)
  | case3 rest offset line start _ ih =>
      rw [linesOf, List.length_cons]
      omega
  | case5 c rest offset line start hn _ hc ih =>
      rw [linesOf_break hn hc, List.length_cons]
      omega
  | case6 c rest offset line start hn _ hc ih =>
      obtain ⟨first, more, hrest, hlines⟩ := exists_linesOf_char hn hc
      rw [hrest] at ih
      rw [hlines]
      exact ih

theorem clamp_mem {lo hi : Nat} (h : lo ≤ hi) (o : Offset) :
    lo ≤ o.clamp lo hi ∧ o.clamp lo hi ≤ hi := by
  unfold Offset.clamp
  split
  · split
    · exact ⟨Nat.le_refl _, h⟩
    · split <;> omega
  · split
    · exact ⟨Nat.le_refl _, h⟩
    · exact ⟨h, Nat.le_refl _⟩
  · exact ⟨Nat.le_refl _, h⟩

/-- At least one caret is drawn, and more only where there is room. -/
theorem caretCount_mem (room : Nat) (length : Int) :
    let n := caretCount room (.units length)
    0 < n ∧ (n ≤ room ∨ room = 0 ∧ n = 1) := by
  have hroom : 1 ≤ if room < 1 then 1 else room := by split <;> omega
  have hmem : 1 ≤ caretCount room (.units length) ∧
      caretCount room (.units length) ≤ if room < 1 then 1 else room :=
    clamp_mem hroom (.units length)
  split at hmem <;> omega

/-- Whatever the offset and the length are, the carets stand under the line of the offset, or there
is one caret just behind it. -/
theorem snippet_within (source message : String) (index length : Int) :
    ∃ line k n, (linesOf source.toList)[(position source (.units index)).line - 1]? = some line ∧
      snippet source (.units index) (.units length) message = underlined line k n message ∧
      0 < n ∧ (k + n ≤ unitsOf line ∨ k = unitsOf line ∧ n = 1) := by
  have hline : 1 ≤ (position source (.units index)).line := line_le_positionFrom _ _ _ _ _
  have hlt : (position source (.units index)).line < 1 + (linesOf source.toList).length :=
    positionFrom_line_lt _ _ _ _ _
  rw [snippet]
  generalize position source (.units index) = p at hline hlt ⊢
  obtain ⟨line, hget⟩ : ∃ line, (linesOf source.toList)[p.line - 1]? = some line :=
    ⟨_, List.getElem?_eq_getElem (by omega)⟩
  refine ⟨line, _, _, hget, snippetAt_of_line hget _ _, ?_⟩
  obtain ⟨hlo, hhi⟩ := clamp_mem (Nat.le_add_left 1 (unitsOf line)) (.units p.column)
  obtain ⟨hpos, hroom⟩ := caretCount_mem
    (unitsOf line + 1 - (Offset.units p.column).clamp 1 (unitsOf line + 1)) length
  exact ⟨hpos, by omega⟩

end Text

end Reckoner
