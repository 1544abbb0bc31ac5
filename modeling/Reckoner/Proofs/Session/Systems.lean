/-
# The systems that are kept

The table holds the systems of the sixteen precisions that were asked for most
recently, in the order in which they were last asked for.  Both come from one step:
a precision that is asked for goes to the end, and

    it was kept        the others stay
    it was not kept    the others stay, or all but the first where there were sixteen

which is what happens to the last sixteen of a list without duplicates when one of
its elements moves to the end (`keys_request`).

A system in the table stays there until it is dropped, and one that is made later is
another one.  So a precision that is asked for again has its system back as long as
fewer than sixteen others were asked for in between (`request_again_iff`).
-/
import Mathlib.Data.List.Dedup
import Mathlib.Data.List.DropRight
import Reckoner.Session.Systems

namespace List

/-! ## The last elements of a list -/

section

variable {α : Type}

theorem rtake_rtake (l : List α) {m n : Nat} (h : m ≤ n) : (l.rtake n).rtake m = l.rtake m := by
  rw [rtake_eq_reverse_take_reverse, rtake_eq_reverse_take_reverse, reverse_reverse, take_take,
    Nat.min_eq_left h, rtake_eq_reverse_take_reverse]

theorem mem_rtake_of_le {l : List α} {a : α} {m n : Nat} (h : m ≤ n) (ha : a ∈ l.rtake m) :
    a ∈ l.rtake n := by
  rw [← rtake_rtake l h] at ha
  exact mem_of_mem_drop ha

theorem rtake_of_length_le {l : List α} {n : Nat} (h : l.length ≤ n) : l.rtake n = l := by
  rw [rtake, Nat.sub_eq_zero_of_le h, drop_zero]

theorem length_rtake_le (l : List α) (n : Nat) : (l.rtake n).length ≤ n := by
  rw [rtake, length_drop]
  omega

/-- An element is among the last `n` if fewer stand behind it. -/
theorem mem_rtake_iff {before behind : List α} {a : α} (ha : a ∉ behind) (n : Nat) :
    a ∈ (before ++ a :: behind).rtake n ↔ behind.length < n := by
  rw [rtake, length_append, length_cons]
  constructor
  · intro h
    by_contra hge
    obtain ⟨k, hk⟩ : ∃ k, before.length + (behind.length + 1) - n = before.length + 1 + k :=
      ⟨behind.length - n, by omega⟩
    rw [hk, ← drop_drop, ← singleton_append, ← append_assoc, drop_left' (by simp)] at h
    exact ha (mem_of_mem_drop h)
  · intro h
    rw [drop_append_of_le_length (by omega)]
    exact mem_append_right _ mem_cons_self

variable [DecidableEq α]

/-- One more element moves to the end. -/
theorem dedup_concat (l : List α) (a : α) :
    (l ++ [a]).dedup = l.dedup.filter (· ≠ a) ++ [a] := by
  induction l with
  | nil => rfl
  | cons b l ih =>
      rw [cons_append]
      by_cases hb : b ∈ l
      · rw [dedup_cons_of_mem (mem_append_left _ hb), dedup_cons_of_mem hb, ih]
      by_cases hba : b = a
      · subst hba
        rw [dedup_cons_of_mem (mem_append_right _ mem_cons_self), dedup_cons_of_notMem hb, ih,
          filter_cons_of_neg (by simp)]
      · have hb' : b ∉ l ++ [a] := by simp [hb, hba]
        rw [dedup_cons_of_notMem hb', dedup_cons_of_notMem hb, ih,
          filter_cons_of_pos (by simpa using hba), cons_append]

theorem filter_take_of_mem {l : List α} (hl : l.Nodup) {a : α} {n : Nat} (ha : a ∈ l.take (n + 1)) :
    (l.take (n + 1)).filter (· ≠ a) = (l.filter (· ≠ a)).take n := by
  induction l generalizing n with
  | nil => simp at ha
  | cons b l ih =>
      obtain ⟨hb, hl⟩ := nodup_cons.mp hl
      rw [take_succ_cons]
      by_cases hba : b = a
      · subst hba
        have hkeep : ∀ {m : List α}, m.Sublist l → m.filter (· ≠ b) = m := fun hm =>
          filter_eq_self.mpr fun c hc => by
            simpa using ne_of_mem_of_not_mem (hm.subset hc) hb
        rw [filter_cons_of_neg (by simp), filter_cons_of_neg (by simp),
          hkeep (take_sublist n l), hkeep (Sublist.refl l)]
      · have ha' : a ∈ l.take n := by
          rw [take_succ_cons] at ha
          exact (mem_cons.mp ha).resolve_left (Ne.symm hba)
        obtain ⟨m, rfl⟩ : ∃ m, n = m + 1 := by
          cases n with
          | zero => simp at ha'
          | succ m => exact ⟨m, rfl⟩
        rw [filter_cons_of_pos (by simpa using hba), filter_cons_of_pos (by simpa using hba),
          take_succ_cons, ih hl ha']

theorem take_filter_of_notMem {l : List α} {a : α} {n : Nat} (ha : a ∉ l.take n) :
    (l.filter (· ≠ a)).take n = l.take n := by
  induction l generalizing n with
  | nil => rfl
  | cons b l ih =>
      cases n with
      | zero => rfl
      | succ n =>
          rw [take_succ_cons, mem_cons, not_or] at ha
          rw [filter_cons_of_pos (by simpa using Ne.symm ha.1), take_succ_cons, take_succ_cons,
            ih ha.2]

theorem filter_rtake_of_mem {l : List α} (hl : l.Nodup) {a : α} {n : Nat}
    (ha : a ∈ l.rtake (n + 1)) :
    (l.rtake (n + 1)).filter (· ≠ a) = (l.filter (· ≠ a)).rtake n := by
  rw [rtake_eq_reverse_take_reverse, mem_reverse] at ha
  rw [rtake_eq_reverse_take_reverse, rtake_eq_reverse_take_reverse, filter_reverse,
    filter_take_of_mem (nodup_reverse.mpr hl) ha, filter_reverse]

theorem rtake_filter_of_notMem {l : List α} {a : α} {n : Nat} (ha : a ∉ l.rtake n) :
    (l.filter (· ≠ a)).rtake n = l.rtake n := by
  rw [rtake_eq_reverse_take_reverse, mem_reverse] at ha
  rw [rtake_eq_reverse_take_reverse, rtake_eq_reverse_take_reverse, ← filter_reverse,
    take_filter_of_notMem ha]

end

end List

namespace Reckoner

namespace Systems

variable {s : Systems} {p q : Precision} {system : NumberSystem}

/-! ## What the table gives -/

/-- The precisions of which a system is kept. -/
def keys (s : Systems) : List Precision := s.entries.map Prod.fst

theorem get?_eq_none_iff : s.get? p = none ↔ p ∉ s.keys := by
  rw [get?, List.lookup_eq_none_iff, keys, List.mem_map, not_exists]
  constructor
  · rintro h entry ⟨hmem, rfl⟩
    simpa using h entry hmem
  · intro h entry hmem
    exact bne_iff_ne.mpr fun heq => h entry ⟨hmem, heq.symm⟩

theorem get?_delete (s : Systems) (p q : Precision) :
    (s.delete p).get? q = if q = p then none else s.get? q := by
  unfold get? delete
  dsimp only
  induction s.entries with
  | nil => simp
  | cons entry entries ih =>
      obtain ⟨k, system⟩ := entry
      by_cases hk : k = p
      · subst hk
        rw [List.filter_cons_of_neg (by simp), ih]
        split
        · rfl
        · next hq => rw [List.lookup_cons, beq_false_of_ne hq]
      · rw [List.filter_cons_of_pos (by simpa using hk), List.lookup_cons, List.lookup_cons, ih]
        split
        · next hq => rw [if_neg (by rw [eq_of_beq hq]; exact hk)]
        · rfl

theorem get?_enter (s : Systems) (h : system.precision = p) (q : Precision) :
    (s.enter p system h).get? q = (s.get? q).or (if q = p then some system else none) := by
  unfold get? enter
  dsimp only
  rw [List.lookup_append]
  congr 1
  by_cases hq : q = p
  · subst hq
    rw [if_pos rfl, List.lookup_cons_self]
  · rw [if_neg hq, List.lookup_cons, beq_false_of_ne hq, List.lookup_nil]

/-- Dropping an entry leaves the others. -/
theorem get?_trim (s : Systems) (q : Precision) :
    s.trim.get? q = s.get? q ∨ s.trim.get? q = none := by
  unfold trim
  split
  · split
    · exact .inl rfl
    · rw [get?_delete]
      split
      · exact .inr rfl
      · exact .inl rfl
  · exact .inl rfl

/-! ## One request -/

theorem request_of_kept (h : s.get? p = some system) :
    s.request p = (system, (s.delete p).enter p system (precision_of_get? h)) := by
  unfold request
  split
  · next h' =>
      cases h.symm.trans h'
      rfl
  · next h' => cases h.symm.trans h'

theorem request_of_not_kept (h : s.get? p = none) :
    s.request p = (⟨p, s.made⟩, (enter { s with made := s.made + 1 } p ⟨p, s.made⟩ rfl).trim) := by
  unfold request
  split
  · next h' => cases h.symm.trans h'
  · rfl

/-- Whatever the table holds, the system that it gives for a precision has that
precision. -/
theorem precision_request (s : Systems) (p : Precision) : (s.request p).1.precision = p := by
  cases h : s.get? p with
  | some system =>
      rw [request_of_kept h]
      exact precision_of_get? h
  | none => rw [request_of_not_kept h]

/-! ### The order of the entries -/

theorem keys_delete (s : Systems) (p : Precision) :
    (s.delete p).keys = s.keys.filter (· ≠ p) := by
  rw [keys, keys, List.filter_map]
  rfl

theorem keys_enter (s : Systems) (h : system.precision = p) :
    (s.enter p system h).keys = s.keys ++ [p] := by
  rw [keys, enter, List.map_append]
  rfl

theorem keys_trim (hkeys : s.keys.Nodup) (hlen : s.keys.length ≤ capacity + 1) :
    s.trim.keys = s.keys.rtake capacity := by
  have hcount : s.keys.length = s.entries.length := List.length_map _
  unfold trim
  split
  · next hmany =>
      split
      · next hnone =>
          rw [hnone] at hmany
          cases hmany
      · next oldest system entries hentries =>
          have hcons : s.keys = oldest :: entries.map Prod.fst := by rw [keys, hentries]; rfl
          rw [keys_delete, List.rtake, hcount, show s.entries.length - capacity = 1 by omega, hcons,
            List.filter_cons_of_neg (by simp), List.drop_one, List.tail_cons,
            List.filter_eq_self.mpr]
          intro k hk
          rw [hcons, List.nodup_cons] at hkeys
          simpa using ne_of_mem_of_not_mem hk hkeys.1
  · next hfew => rw [List.rtake_of_length_le (by omega)]

/-- The precision that is asked for moves to the end of a list of which the table
holds the last ones. -/
theorem keys_request {ps : List Precision} (hps : ps.Nodup) (h : s.keys = ps.rtake capacity)
    (p : Precision) : (s.request p).2.keys = (ps.filter (· ≠ p) ++ [p]).rtake capacity := by
  rw [show capacity = 15 + 1 from rfl] at h ⊢
  rw [List.rtake_concat_succ]
  cases hget : s.get? p with
  | some system =>
      have hp : p ∈ s.keys := by
        by_contra hp
        cases hget.symm.trans (get?_eq_none_iff.mpr hp)
      rw [request_of_kept hget, keys_enter, keys_delete, h, List.filter_rtake_of_mem hps (h ▸ hp)]
  | none =>
      have hp := get?_eq_none_iff.mp hget
      have hnodup : (s.keys ++ [p]).Nodup := by
        refine List.Nodup.append ?_ (List.nodup_singleton p) (List.disjoint_singleton.mpr hp)
        rw [h]
        exact hps.sublist (List.drop_sublist _ _)
      have hlen : (s.keys ++ [p]).length ≤ capacity + 1 := by
        rw [List.length_append, List.length_singleton, h]
        exact Nat.succ_le_succ (List.length_rtake_le _ _)
      have hkeys : (enter { s with made := s.made + 1 } p ⟨p, s.made⟩ rfl).keys = s.keys ++ [p] :=
        keys_enter _ _
      have hold : p ∉ ps.rtake 15 := fun hmem => hp (h ▸ List.mem_rtake_of_le (by decide) hmem)
      rw [request_of_not_kept hget, keys_trim (hkeys ▸ hnodup) (hkeys ▸ hlen), hkeys, h,
        show capacity = 15 + 1 from rfl, List.rtake_concat_succ, List.rtake_rtake _ (by decide),
        List.rtake_filter_of_notMem hold]

/-! ### The systems -/

theorem made_trim (s : Systems) : s.trim.made = s.made := by
  unfold trim
  split
  · split
    · rfl
    · rfl
  · rfl

theorem made_request (s : Systems) (p : Precision) :
    (s.request p).2.made = if (s.get? p).isSome then s.made else s.made + 1 := by
  cases hget : s.get? p with
  | some system =>
      rw [request_of_kept hget]
      rfl
  | none =>
      rw [request_of_not_kept hget, made_trim]
      rfl

theorem made_le_request (s : Systems) (p : Precision) : s.made ≤ (s.request p).2.made := by
  rw [made_request]
  split
  · exact Nat.le_refl _
  · exact Nat.le_succ _

/-- The system that was given is kept. -/
theorem get?_request_self (s : Systems) (p : Precision) :
    (s.request p).2.get? p = some (s.request p).1 := by
  cases hget : s.get? p with
  | some system =>
      rw [request_of_kept hget, get?_enter, get?_delete, if_pos rfl, if_pos rfl]
      rfl
  | none =>
      have hentered : (enter { s with made := s.made + 1 } p ⟨p, s.made⟩ rfl).get? p =
          some ⟨p, s.made⟩ := by
        rw [get?_enter, if_pos rfl]
        exact congrArg (Option.or · _) hget
      rw [request_of_not_kept hget]
      unfold trim
      split
      · next hmany =>
          split
          · exact hentered
          · next oldest system entries hentries =>
              -- there is an entry before the new one
              have holdest : p ≠ oldest := by
                cases hold : s.entries with
                | nil =>
                    simp only [enter, hold, List.nil_append, List.length_singleton] at hmany
                    cases hmany.not_ge (by decide)
                | cons entry rest =>
                    simp only [enter, hold, List.cons_append, List.cons.injEq] at hentries
                    have hnot := get?_eq_none_iff.mp hget
                    rw [keys, hold, hentries.1] at hnot
                    exact List.ne_of_not_mem_cons hnot
              rw [get?_delete, if_neg holdest, hentered]
      · exact hentered

/-- Any other system stays as it is, or is dropped. -/
theorem get?_request_of_ne (s : Systems) (h : q ≠ p) :
    (s.request p).2.get? q = s.get? q ∨ (s.request p).2.get? q = none := by
  cases hget : s.get? p with
  | some system =>
      rw [request_of_kept hget, get?_enter, get?_delete, if_neg h, if_neg h, Option.or_none]
      exact .inl rfl
  | none =>
      rw [request_of_not_kept hget]
      have hentered :
          (enter { s with made := s.made + 1 } p ⟨p, s.made⟩ rfl).get? q = s.get? q := by
        rw [get?_enter, if_neg h, Option.or_none]
        rfl
      rw [← hentered]
      exact get?_trim _ _

/-! ## Any number of requests -/

/-- The table after requests for some precisions. -/
def requestAll (s : Systems) (ps : List Precision) : Systems :=
  ps.foldl (fun s p => (s.request p).2) s

/-- What holds of the table after requests for `ps` from the empty one. -/
structure After (s : Systems) (ps : List Precision) : Prop where
  keys : s.keys = ps.dedup.rtake capacity
  serials : ∀ p system, s.get? p = some system → system.serial < s.made

theorem after_request {ps : List Precision} (h : s.After ps) (p : Precision) :
    (s.request p).2.After (ps ++ [p]) := by
  refine ⟨?_, fun q system hq => ?_⟩
  · rw [keys_request (List.nodup_dedup ps) h.keys, List.dedup_concat]
  by_cases hqp : q = p
  · subst hqp
    rw [get?_request_self] at hq
    obtain rfl := Option.some.inj hq
    rw [made_request]
    cases hget : s.get? q with
    | some system =>
        rw [request_of_kept hget]
        exact h.serials q system hget
    | none =>
        rw [request_of_not_kept hget]
        exact Nat.lt_succ_self s.made
  · rcases get?_request_of_ne s hqp with hstays | hdropped
    · rw [hstays] at hq
      exact Nat.lt_of_lt_of_le (h.serials q system hq) (made_le_request s p)
    · cases hdropped.symm.trans hq

theorem after_requestAll {ps : List Precision} (h : s.After ps) (qs : List Precision) :
    (s.requestAll qs).After (ps ++ qs) := by
  induction qs generalizing s ps with
  | nil =>
      rw [List.append_nil]
      exact h
  | cons q qs ih =>
      rw [List.append_cons]
      exact ih (after_request h q)

theorem after_nil : After {} [] := ⟨rfl, fun _ _ h => (nomatch h)⟩

theorem made_le_requestAll (s : Systems) (ps : List Precision) :
    s.made ≤ (s.requestAll ps).made := by
  induction ps generalizing s with
  | nil => exact Nat.le_refl _
  | cons p ps ih => exact Nat.le_trans (made_le_request s p) (ih _)

/-- A system that is not asked for stays or is dropped. -/
theorem get?_requestAll (s : Systems) {qs : List Precision} (hp : p ∉ qs) :
    (s.requestAll qs).get? p = s.get? p ∨ (s.requestAll qs).get? p = none := by
  induction qs generalizing s with
  | nil => exact .inl rfl
  | cons q qs ih =>
      obtain ⟨hne, hqs⟩ := not_or.mp (mt List.mem_cons.mpr hp)
      rcases ih (s.request q).2 hqs with h | h
      · rw [show s.requestAll (q :: qs) = (s.request q).2.requestAll qs from rfl, h]
        exact get?_request_of_ne s hne
      · exact .inr h

/-- Asked for again, a precision has the same system if fewer than sixteen others
were asked for in between: then it is among the last ones. -/
theorem request_again_iff {ps qs : List Precision} (h : s.After ps) (hp : p ∉ qs) :
    (((s.request p).2.requestAll qs).request p).1 = (s.request p).1 ↔
      qs.dedup.length < capacity := by
  have hafter := after_requestAll (after_request h p) qs
  have hgiven := get?_request_self s p
  have hfresh := (after_request h p).serials p _ hgiven
  have hmade := made_le_requestAll (s.request p).2 qs
  have hstays := get?_requestAll (s.request p).2 hp
  have hlast : p ∈ ((s.request p).2.requestAll qs).keys ↔ qs.dedup.length < capacity := by
    obtain ⟨before, hbefore⟩ := List.suffix_union_right ps (p :: qs.dedup)
    rw [hafter.keys, ← List.append_cons, List.dedup_append, List.dedup_cons_of_notMem hp,
      ← hbefore, List.mem_rtake_iff (mt List.mem_dedup.mp hp)]
  generalize (s.request p).2.requestAll qs = s' at *
  rw [← hlast]
  cases hget : s'.get? p with
  | some system =>
      have hkept : p ∈ s'.keys := by
        by_contra hnot
        cases hget.symm.trans (get?_eq_none_iff.mpr hnot)
      rw [hget, hgiven] at hstays
      rw [request_of_kept hget]
      refine iff_of_true ?_ hkept
      rcases hstays with hsame | hgone
      · exact Option.some.inj hsame
      · cases hgone
  | none =>
      refine iff_of_false (fun hsame => ?_) (get?_eq_none_iff.mp hget)
      rw [request_of_not_kept hget] at hsame
      have hserial : s'.made = (s.request p).1.serial := congrArg NumberSystem.serial hsame
      omega

/-! ## Demands -/

theorem demand_of_some {x : Binary64} (h : Precision.ofBinary64? x = some p) :
    s.demand x = (.ok (s.request p).1, (s.request p).2) := by
  rw [demand, h]

theorem demand_of_none {x : Binary64} (h : Precision.ofBinary64? x = none) :
    s.demand x = (.error (.digits x), s) := by
  rw [demand, h]

/-- The table after demands of some numbers. -/
def demandAll (s : Systems) (xs : List Binary64) : Systems :=
  xs.foldl (fun s x => (s.demand x).2) s

/-- The precisions among some numbers. -/
def precisions (xs : List Binary64) : List Precision := xs.filterMap Precision.ofBinary64?

theorem demandAll_eq (s : Systems) (xs : List Binary64) :
    s.demandAll xs = s.requestAll (precisions xs) := by
  induction xs generalizing s with
  | nil => rfl
  | cons x xs ih =>
      rw [show s.demandAll (x :: xs) = (s.demand x).2.demandAll xs from rfl, precisions,
        List.filterMap_cons]
      cases h : Precision.ofBinary64? x with
      | none =>
          rw [demand_of_none h]
          exact ih s
      | some p =>
          rw [demand_of_some h]
          exact ih _

theorem after_demandAll (xs : List Binary64) : (demandAll {} xs).After (precisions xs) := by
  rw [demandAll_eq]
  exact after_requestAll after_nil (precisions xs)

/-- After any demands the table holds the systems of the sixteen precisions that were
demanded last, each under its own precision, in the order in which they were last
demanded.  A precision has its system, the same as the time before if at most fifteen
others were demanded in between.  What is no precision changes nothing. -/
theorem keeps_latest (xs : List Binary64) :
    let s := demandAll {} xs
    s.entries.length ≤ 16 ∧
    (s.entries.map Prod.fst).Nodup ∧
    s.entries.map Prod.fst = (precisions xs).dedup.rtake 16 ∧
    (∀ entry ∈ s.entries, entry.2.precision = entry.1) ∧
    (∀ x p, Precision.ofBinary64? x = some p →
      ∃ system, (s.demand x).1 = .ok system ∧ system.precision = p) ∧
    (∀ before y between x p, xs = before ++ y :: between →
      Precision.ofBinary64? y = some p → Precision.ofBinary64? x = some p →
      p ∉ precisions between →
      ((s.demand x).1 = ((demandAll {} before).demand y).1 ↔
        (precisions between).dedup.length ≤ 15)) ∧
    (∀ x, Precision.ofBinary64? x = none → ∃ misuse, s.demand x = (.error misuse, s)) := by
  have hafter := after_demandAll xs
  have hkeys := hafter.keys
  refine ⟨?_, ?_, hkeys, (demandAll {} xs).keyed, fun x p hx => ?_, ?_, fun x hx => ?_⟩
  · have hlen : (demandAll {} xs).keys.length ≤ capacity := by
      rw [hkeys]
      exact List.length_rtake_le _ _
    rwa [keys, List.length_map] at hlen
  · rw [show (demandAll {} xs).entries.map Prod.fst = _ from hkeys]
    exact (List.nodup_dedup _).sublist (List.drop_sublist _ _)
  · exact ⟨_, congrArg Prod.fst (demand_of_some hx), precision_request _ p⟩
  · rintro before y between x p rfl hy hx hp
    have hsplit : demandAll {} (before ++ y :: between) =
        ((demandAll {} before).request p).2.requestAll (precisions between) := by
      rw [demandAll, List.foldl_append, List.foldl_cons, ← demandAll, ← demandAll, demandAll_eq,
        demand_of_some hy]
    rw [demand_of_some hx, demand_of_some hy, hsplit, Except.ok.injEq,
      request_again_iff (after_demandAll before) hp]
    exact Nat.lt_succ_iff
  · exact ⟨_, demand_of_none hx⟩

/-- Fifteen others in between keep the system of one digit, sixteen do not. -/
theorem keeps_latest_first_digit :
    let numbers (n : Nat) : List Binary64 := (List.range' 2 n).map .ofNat
    ((demandAll {} (.ofNat 1 :: numbers 15)).demand (.ofNat 1)).1 = (demand {} (.ofNat 1)).1 ∧
    ((demandAll {} (.ofNat 1 :: numbers 16)).demand (.ofNat 1)).1 ≠ (demand {} (.ofNat 1)).1 := by
  have hone : Precision.ofBinary64? (.ofNat 1) = some ⟨1, by decide, by decide⟩ := by decide +kernel
  obtain ⟨-, -, -, -, -, hfifteen, -⟩ := keeps_latest (.ofNat 1 :: (List.range' 2 15).map .ofNat)
  obtain ⟨-, -, -, -, -, hsixteen, -⟩ := keeps_latest (.ofNat 1 :: (List.range' 2 16).map .ofNat)
  constructor
  · exact (hfifteen [] _ _ _ _ rfl hone hone (by decide +kernel)).mpr (by decide +kernel)
  · exact mt (hsixteen [] _ _ _ _ rfl hone hone (by decide +kernel)).mp (by decide +kernel)

end Systems

end Reckoner
