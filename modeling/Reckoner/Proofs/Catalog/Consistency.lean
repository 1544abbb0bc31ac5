/-
# The definitions that are catalogs

The four loops of `Definition.claims?` check a definition part by part, each
with what the parts before it left behind.  What they check together needs no
order and no state (`Definition.Consistent`):

    loop              left behind            checked against it
    checkOperators    symbols, claims        no symbol twice with one arity
    checkFunctions    names                  no name twice
    checkConstants    names                  no name twice
    checkBrackets     claims                 no text with two roles

Each loop passes exactly if its part is consistent in itself and with what was
left behind, so all of them pass exactly if the definition is consistent
(`Consistent.exists_claims`, `Consistent.of_claims`).
-/
import Reckoner.Proofs.Binary64
import Reckoner.Proofs.Catalog.Symbols

namespace Reckoner

theorem isName_iff {s : String} :
    isName s = true ↔ s ≠ "" ∧ ∀ ch ∈ s.toList, Text.isLetter ch = true := by
  simp only [isName, Bool.and_eq_true, decide_eq_true_eq, List.all_eq_true]

/-- The bounds are integers from zero on in order, the upper one possibly infinite. -/
def Function.Bounded (f : Function) : Prop :=
  ∃ least : Int, f.least.value? = some (least : Rat) ∧ 0 ≤ least ∧
    (f.most = .infinite false ∨ ∃ most : Int, f.most.value? = some (most : Rat) ∧ least ≤ most)

/-- Operators that an expression can tell apart by symbol and number of operands. -/
def Operator.Apart (o op : Operator) : Prop := o.symbol = op.symbol → o.arity ≠ op.arity

/-- The names of the functions and constants. -/
def Definition.names (d : Definition) : List String :=
  d.functions.map (·.name) ++ d.constants.map (·.name)

/-- Whether the parts of a definition do not contradict each other. -/
structure Definition.Consistent (d : Definition) : Prop where
  /-- Precedences are finite. -/
  finite : ∀ op ∈ d.operators, op.precedence.isFinite = true
  /-- No two operators with one number of operands share a symbol. -/
  operators : d.operators.Pairwise Operator.Apart
  /-- Names are runs of letters. -/
  letters : ∀ name ∈ d.names, name ≠ "" ∧ ∀ ch ∈ name.toList, Text.isLetter ch = true
  /-- No name is given twice. -/
  names : d.names.Nodup
  /-- The numbers of arguments are bounded by numbers of arguments. -/
  bounds : ∀ f ∈ d.functions, f.Bounded
  /-- The brackets of a pair differ. -/
  brackets : ∀ b ∈ d.functionBrackets ++ d.expressionBrackets, b.opening ≠ b.closing
  /-- Fixed texts are not empty and free of letters, digits, blanks and points. -/
  texts : ∀ s ∈ d.uses, s.text ≠ "" ∧ ∀ ch ∈ s.text.toList, Text.isLetter ch = false ∧
    isDigit ch = false ∧ Text.isBlank ch = false ∧ ch ≠ '.'
  /-- No text has two roles. -/
  roles : ∀ s ∈ d.uses, ∀ t ∈ d.uses, s.text = t.text → s.role = t.role

theorem Function.hasBounds_iff {f : Function} : f.hasBounds = true ↔ f.Bounded := by
  have hzero : (Binary64.ofNat 0).value? = some ((0 : Int) : Rat) :=
    Binary64.value?_ofNat (by decide)
  simp only [hasBounds, Bounded, Bool.and_eq_true, Bool.or_eq_true, Bool.not_eq_true',
    Binary64.isInteger_iff, decide_eq_true_eq]
  constructor
  · rintro ⟨⟨⟨⟨least, hleast⟩, hpos⟩, hmost⟩, hle⟩
    have hpos : 0 ≤ least := by
      rw [← Bool.not_eq_true, Binary64.lt_iff hleast hzero] at hpos
      exact_mod_cast not_lt.mp hpos
    refine ⟨least, hleast, hpos, ?_⟩
    rcases hmost with ⟨most, hmost⟩ | hmost
    · rw [← Bool.not_eq_true, Binary64.lt_iff hmost hleast] at hle
      exact .inr ⟨most, hmost, by exact_mod_cast not_lt.mp hle⟩
    · exact .inl hmost
  · rintro ⟨least, hleast, hpos, hmost⟩
    have hpos : f.least.lt (Binary64.ofNat 0) = false := by
      rw [← Bool.not_eq_true, Binary64.lt_iff hleast hzero]
      exact_mod_cast not_lt.mpr hpos
    rcases hmost with hmost | ⟨most, hmost, hle⟩
    · obtain ⟨x, hx, -⟩ := Binary64.value?_eq_some_iff.mp hleast
      refine ⟨⟨⟨⟨least, hleast⟩, hpos⟩, .inr hmost⟩, ?_⟩
      rw [hmost, Binary64.lt, hx]
      rfl
    · refine ⟨⟨⟨⟨least, hleast⟩, hpos⟩, .inl ⟨most, hmost⟩⟩, ?_⟩
      rw [← Bool.not_eq_true, Binary64.lt_iff hmost hleast]
      exact_mod_cast not_lt.mpr hle

namespace Definition

variable {claims uses : List Symbol}

/-- No operator seen before, with one symbol and number of operands, is among those to
come, and none comes twice. -/
theorem exists_checkOperators_iff {seen ops : List Operator} (hc : Claimed claims uses) :
    (∃ claims', checkOperators seen claims ops = .ok claims') ↔
      (∀ op ∈ ops, op.precedence.isFinite = true) ∧ (∀ o ∈ seen, ∀ op ∈ ops, o.Apart op) ∧
        ops.Pairwise Operator.Apart ∧ Claimable (uses ++ ops.map (⟨·.symbol, .operator⟩)) := by
  induction ops generalizing seen claims uses with
  | nil =>
      refine iff_of_true ⟨claims, rfl⟩ ⟨nofun, fun _ _ => nofun, .nil, ?_⟩
      rw [List.map_nil, List.append_nil]
      exact hc.toClaimable
  | cons op ops ih =>
      have hfresh : (seen.any fun o => o.symbol = op.symbol && o.arity = op.arity) = false ↔
          ∀ o ∈ seen, o.Apart op := by
        simp only [List.any_eq_false, Bool.and_eq_true, decide_eq_true_eq, not_and, Operator.Apart,
          ne_eq]
      have hsplit : uses ++ (op :: ops).map (⟨·.symbol, .operator⟩) =
          uses ++ [⟨op.symbol, .operator⟩] ++ ops.map (⟨·.symbol, .operator⟩) := by
        rw [List.map_cons, List.append_assoc, List.singleton_append]
      simp only [checkOperators, check_eq_ok, bind_eq_ok, hfresh, Bool.not_eq_false', hsplit,
        List.forall_mem_cons, List.pairwise_cons]
      constructor
      · rintro ⟨claims', hfinite, hseen, mid, hclaim, h⟩
        obtain ⟨hfinites, hseens, hpair, hall⟩ := (ih (hc.claim hclaim)).mp ⟨claims', h⟩
        obtain ⟨hop, hseens⟩ := List.forall_mem_cons.mp hseens
        exact ⟨⟨hfinite, hfinites⟩, fun o ho => ⟨hseen o ho, hseens o ho⟩, ⟨hop, hpair⟩, hall⟩
      · rintro ⟨⟨hfinite, hfinites⟩, hseen, ⟨hop, hpair⟩, hall⟩
        obtain ⟨mid, hclaim⟩ := hc.exists_claim_iff.mpr hall.left
        have hseens : ∀ o ∈ op :: seen, ∀ op' ∈ ops, o.Apart op' :=
          List.forall_mem_cons.mpr ⟨hop, fun o ho => (hseen o ho).2⟩
        obtain ⟨claims', h⟩ := (ih (hc.claim hclaim)).mpr ⟨hfinites, hseens, hpair, hall⟩
        exact ⟨claims', hfinite, fun o ho => (hseen o ho).1, mid, hclaim, h⟩

/-- The names of the functions are left behind, the last one first. -/
theorem checkFunctions_eq_ok {seen names : List String} {fs : List Function} :
    checkFunctions seen fs = .ok names ↔
      (∀ f ∈ fs, isName f.name = true ∧ f.hasBounds = true ∧ f.name ∉ seen) ∧
        (fs.map (·.name)).Nodup ∧ names = (fs.map (·.name)).reverse ++ seen := by
  induction fs generalizing seen with
  | nil =>
      simp only [checkFunctions, Except.ok.injEq, List.not_mem_nil, false_implies, implies_true,
        List.map_nil, List.nodup_nil, List.reverse_nil, List.nil_append, true_and]
      exact eq_comm
  | cons f fs ih =>
      rw [List.forall_mem_cons]
      simp only [checkFunctions, check_eq_ok, ih, List.contains_eq_mem, decide_eq_false_iff_not,
        Bool.not_eq_false', List.mem_cons, not_or, List.map_cons, List.nodup_cons,
        List.reverse_cons, List.append_assoc, List.singleton_append, List.mem_map, not_exists,
        not_and]
      constructor
      · rintro ⟨hname, hbounds, hfresh, hall, hnodup, hnames⟩
        exact ⟨⟨⟨hname, hbounds, hfresh⟩, fun g hg => ⟨(hall g hg).1, (hall g hg).2.1,
          (hall g hg).2.2.2⟩⟩, ⟨fun g hg => (hall g hg).2.2.1, hnodup⟩, hnames⟩
      · rintro ⟨⟨⟨hname, hbounds, hfresh⟩, hall⟩, ⟨hother, hnodup⟩, hnames⟩
        exact ⟨hname, hbounds, hfresh, fun g hg => ⟨(hall g hg).1, (hall g hg).2.1, hother g hg,
          (hall g hg).2.2⟩, hnodup, hnames⟩

theorem checkConstants_eq_ok {taken : List String} {ks : List Constant} {u : Unit} :
    checkConstants taken ks = .ok u ↔
      (∀ k ∈ ks, isName k.name = true ∧ k.name ∉ taken) ∧ (ks.map (·.name)).Nodup := by
  induction ks generalizing taken with
  | nil => exact iff_of_true rfl ⟨nofun, List.nodup_nil⟩
  | cons k ks ih =>
      rw [List.forall_mem_cons]
      simp only [checkConstants, check_eq_ok, ih, List.contains_eq_mem, decide_eq_false_iff_not,
        Bool.not_eq_false', List.mem_cons, not_or, List.map_cons, List.nodup_cons, List.mem_map,
        not_exists, not_and]
      constructor
      · rintro ⟨hname, hfresh, hall, hnodup⟩
        exact ⟨⟨⟨hname, hfresh⟩, fun l hl => ⟨(hall l hl).1, (hall l hl).2.2⟩⟩,
          fun l hl => (hall l hl).2.1, hnodup⟩
      · rintro ⟨⟨⟨hname, hfresh⟩, hall⟩, hother, hnodup⟩
        exact ⟨hname, hfresh, fun l hl => ⟨(hall l hl).1, hother l hl, (hall l hl).2⟩, hnodup⟩

theorem exists_checkBrackets_iff {bs : List Brackets} (hc : Claimed claims uses) :
    (∃ claims', checkBrackets claims bs = .ok claims') ↔
      (∀ b ∈ bs, b.opening ≠ b.closing) ∧ Claimable (uses ++ Brackets.uses bs) := by
  induction bs generalizing claims uses with
  | nil =>
      refine iff_of_true ⟨claims, rfl⟩ ⟨nofun, ?_⟩
      rw [Brackets.uses, List.flatMap_nil, List.append_nil]
      exact hc.toClaimable
  | cons b bs ih =>
      have hsplit : uses ++ Brackets.uses (b :: bs) =
          uses ++ [⟨b.opening, .opening⟩] ++ [⟨b.closing, .closing⟩] ++ Brackets.uses bs := by
        simp only [Brackets.uses, List.flatMap_cons, List.append_assoc, List.cons_append,
          List.nil_append]
      rw [checkBrackets, List.forall_mem_cons, hsplit]
      constructor
      · rintro ⟨claims', h⟩
        split at h
        · cases h
        · next hne =>
            simp only [bind_eq_ok] at h
            obtain ⟨opened, hopen, closed, hclose, h⟩ := h
            obtain ⟨hother, hall⟩ := (ih ((hc.claim hopen).claim hclose)).mp ⟨claims', h⟩
            exact ⟨⟨hne, hother⟩, hall⟩
      · rintro ⟨⟨hne, hother⟩, hall⟩
        obtain ⟨opened, hopen⟩ := hc.exists_claim_iff.mpr hall.left.left
        have hopened := hc.claim hopen
        obtain ⟨closed, hclose⟩ := hopened.exists_claim_iff.mpr hall.left
        obtain ⟨claims', h⟩ := (ih (hopened.claim hclose)).mpr ⟨hother, hall⟩
        simp only [if_neg hne, bind_eq_ok]
        exact ⟨claims', opened, hopen, closed, hclose, h⟩

variable {d : Definition}

theorem Consistent.claimable (h : d.Consistent) : Claimable d.uses where
  sound := fun s hs => isSymbolText_iff.mpr (h.texts s hs)
  agree := by
    intro s hs t ht he
    have hrole := h.roles s hs t ht he
    obtain ⟨text, role⟩ := s
    obtain ⟨text', role'⟩ := t
    cases he
    cases hrole
    rfl

theorem Consistent.exists_claims (h : d.Consistent) : ∃ claims, d.claims? = .ok claims := by
  have hall := h.claimable
  rw [uses, ← List.append_assoc] at hall
  obtain ⟨hfletters, hkletters⟩ := List.forall_mem_append.mp h.letters
  obtain ⟨hfnodup, hknodup, hdisjoint⟩ := List.nodup_append.mp h.names
  obtain ⟨ops, hops⟩ := (exists_checkOperators_iff .nil).mpr
    ⟨h.finite, List.forall_mem_nil _, h.operators, hall.left.left⟩
  have hfs : checkFunctions [] d.functions = .ok ((d.functions.map (·.name)).reverse ++ []) := by
    refine checkFunctions_eq_ok.mpr ⟨fun f hf => ⟨?_, ?_, List.not_mem_nil⟩, hfnodup, rfl⟩
    · exact isName_iff.mpr (hfletters _ (List.mem_map_of_mem hf))
    · exact Function.hasBounds_iff.mpr (h.bounds f hf)
  have hks : checkConstants ((d.functions.map (·.name)).reverse ++ []) d.constants = .ok () := by
    refine checkConstants_eq_ok.mpr ⟨fun k hk => ⟨?_, fun hmem => ?_⟩, hknodup⟩
    · exact isName_iff.mpr (hkletters _ (List.mem_map_of_mem hk))
    · rw [List.append_nil, List.mem_reverse] at hmem
      exact hdisjoint _ hmem _ (List.mem_map_of_mem hk) rfl
  have hclaimed := Claimed.nil.operators hops
  obtain ⟨bs, hbs⟩ := (exists_checkBrackets_iff hclaimed).mpr ⟨h.brackets, hall.left⟩
  obtain ⟨claims, hsep⟩ := (hclaimed.brackets hbs).exists_claim_iff.mpr hall
  refine ⟨claims, ?_⟩
  simp only [claims?, bind_eq_ok]
  exact ⟨ops, hops, _, hfs, (), hks, bs, hbs, hsep⟩

theorem Consistent.of_claims {claims : List Symbol} (h : d.claims? = .ok claims) :
    d.Consistent := by
  have huses := (Claimed.definition h).toClaimable
  simp only [claims?, bind_eq_ok] at h
  obtain ⟨ops, hops, names, hfs, u, hks, bs, hbs, -⟩ := h
  obtain ⟨hfinite, -, hpair, -⟩ := (exists_checkOperators_iff .nil).mp ⟨ops, hops⟩
  obtain ⟨hfunctions, hfnodup, hnames⟩ := checkFunctions_eq_ok.mp hfs
  obtain ⟨hconstants, hknodup⟩ := checkConstants_eq_ok.mp hks
  rw [hnames, List.append_nil] at hconstants
  obtain ⟨hbrackets, -⟩ := (exists_checkBrackets_iff (Claimed.nil.operators hops)).mp ⟨bs, hbs⟩
  refine ⟨hfinite, hpair, ?_, ?_, fun f hf => Function.hasBounds_iff.mp (hfunctions f hf).2.1,
    hbrackets, fun s hs => isSymbolText_iff.mp (huses.sound s hs),
    fun s hs t ht he => congrArg Symbol.role (huses.agree s hs t ht he)⟩
  · refine List.forall_mem_append.mpr ⟨List.forall_mem_map.mpr ?_, List.forall_mem_map.mpr ?_⟩
    · exact fun f hf => isName_iff.mp (hfunctions f hf).1
    · exact fun k hk => isName_iff.mp (hconstants k hk).1
  · refine List.nodup_append.mpr ⟨hfnodup, hknodup, ?_⟩
    rintro name hf _ hk rfl
    obtain ⟨k, hmem, rfl⟩ := List.mem_map.mp hk
    exact (hconstants k hmem).2 (List.mem_reverse.mpr hf)

end Definition

theorem Catalog.consistency (c : Catalog) : c.toDefinition.Consistent := by
  obtain ⟨claims, hc, -⟩ := c.exists_claims
  exact .of_claims hc

end Reckoner
