/-
# The grammar of the command line

Words are understood exactly if they are the words of a `Reading`, and then they say what the
reading says (`ofWords_reading`).  A reading is a row of parts in any order, and perhaps the word
`--` with arbitrary words behind it:

    part             words
    plain            a word that does not begin with two hyphens and is not `-h`
    trace            --trace
    help             -h   --help
    setting          --precision N   --precision=N     1 ≤ N ≤ 1000000000
                     --digits N      --digits=N        1 ≤ N
                     --style NAME    --style=NAME      standard   spreadsheet

`read` takes one part after the other from the front (`read_part`), and where it finds none that
fits, it stops with a fault.  What has been read is overwritten by later settings of the same kind
and added to by everything else, which `foldl_take` says for all parts at once.
-/
import Reckoner.Proofs.CommandLine.Words

namespace Reckoner

namespace CommandLine

/-- A word that is part of the expression wherever it stands. -/
def IsPlain (word : String) : Prop := ¬ ['-', '-'] <+: word.toList ∧ word ≠ "-h"

/-- What an option with a value asks for. -/
inductive Setting where
  | precision (p : Precision)
  | style (s : Style)
  | digits (n : Nat) (positive : 0 < n)

namespace Setting

def name : Setting → String
  | precision _ => "--precision"
  | style _ => "--style"
  | digits _ _ => "--digits"

/-- Whether the option asks for the setting with this value. -/
def IsWritten (value : String) : Setting → Prop
  | precision p => IsCount value p.digits
  | style s => value = s.word
  | digits n _ => IsCount value n

theorem name_mem (s : Setting) : s.name ∈ ["--precision", "--style", "--digits"] := by
  cases s <;> simp only [name, List.mem_cons, true_or, or_true]

theorem prefix_name (s : Setting) : ['-', '-'] <+: s.name.toList := by
  cases s <;> (simp only [name]; decide)

theorem equals_not_mem_name (s : Setting) : '=' ∉ s.name.toList := by
  cases s <;> (simp only [name]; decide)

end Setting

/-- A part of the words in front of the word `--`. -/
inductive Part where
  /-- A word of the expression. -/
  | plain (word : String) (h : IsPlain word)
  | trace
  /-- A request for help, in the short form or in the long one. -/
  | help (short : Bool)
  /-- An option and its value, behind an equals sign in the same word or in the next word. -/
  | setting (s : Setting) (value : String) (h : s.IsWritten value) (joined : Bool)

namespace Part

def words : Part → List String
  | plain word _ => [word]
  | trace => ["--trace"]
  | help short => [if short then "-h" else "--help"]
  | setting s value _ joined => if joined then [s.name ++ "=" ++ value] else [s.name, value]

def plain? : Part → Option String
  | plain word _ => some word
  | _ => none

def precision? : Part → Option Precision
  | setting (.precision p) _ _ _ => some p
  | _ => none

def style? : Part → Option Style
  | setting (.style s) _ _ _ => some s
  | _ => none

def digits? : Part → Option Nat
  | setting (.digits n _) _ _ _ => some n
  | _ => none

def isTrace : Part → Bool
  | trace => true
  | _ => false

def isHelp : Part → Bool
  | help _ => true
  | _ => false

end Part

/-- A way to read words. -/
structure Reading where
  parts : List Part
  /-- The words behind the word `--`, where that ends the parts. -/
  behind : Option (List String)

namespace Reading

def words (r : Reading) : List String :=
  r.parts.flatMap Part.words ++
    match r.behind with
    | some rest => "--" :: rest
    | none => []

/-- The reading with one more part in front. -/
def cons (p : Part) (r : Reading) : Reading := { r with parts := p :: r.parts }

theorem words_cons (p : Part) (r : Reading) : (r.cons p).words = p.words ++ r.words := by
  simp only [words, cons, List.flatMap_cons, List.append_assoc]

/-- What the words say: of the settings of a kind the last one counts. -/
def options (r : Reading) : Options where
  precision := (r.parts.filterMap Part.precision?).getLast?
  style := (r.parts.filterMap Part.style?).getLast?.getD .standard
  digits := (r.parts.filterMap Part.digits?).getLast?.map .ofNat
  trace := r.parts.any Part.isTrace
  help := r.parts.any Part.isHelp
  expression := r.parts.filterMap Part.plain? ++ r.behind.getD []

end Reading

/-! ## One part -/

theorem isOption_eq_false_iff {word : String} :
    Options.isOption word = false ↔ ¬ ['-', '-'] <+: word.toList := by
  rw [Options.isOption, ← Bool.not_eq_true, List.isPrefixOf_iff_prefix]

namespace Options

/-- A setting takes the place of an earlier one of its kind. -/
def adopt (o : Options) : Setting → Options
  | .precision p => { o with precision := some p }
  | .style s => { o with style := s }
  | .digits n _ => { o with digits := some (.ofNat n) }

/-- What has been read when one more part has been. -/
def take (o : Options) : Part → Options
  | .plain word _ => o.append [word]
  | .trace => { o with trace := true }
  | .help _ => { o with help := true }
  | .setting s _ _ _ => o.adopt s

variable {o o' : Options} {name value word : String}

theorem set_eq_ok_iff : o.set name value = .ok o' ↔
    ∃ s : Setting, s.name = name ∧ s.IsWritten value ∧ o.adopt s = o' := by
  constructor
  · intro h
    unfold set at h
    split at h
    · next hname =>
        split at h
        · next p hp =>
            cases h
            exact ⟨.precision p, hname.symm, precision?_eq_some_iff.mp hp, rfl⟩
        · cases h
    split at h
    · next hname =>
        split at h
        · next x hx =>
            cases h
            obtain ⟨n, hcount, hpos, rfl⟩ := digits?_eq_some_iff.mp hx
            exact ⟨.digits n hpos, hname.symm, hcount, rfl⟩
        · cases h
    split at h
    · next hname =>
        split at h
        · next s hs =>
            cases h
            exact ⟨.style s, hname.symm, style?_eq_some_iff.mp hs, rfl⟩
        · cases h
    · cases h
  · rintro ⟨s, rfl, h, rfl⟩
    unfold set
    cases s with
    | precision p =>
        have hp : CommandLine.precision? value = some p := precision?_eq_some_iff.mpr h
        simp only [Setting.name, if_true, hp, adopt]
    | digits n hpos =>
        have hx : CommandLine.digits? value = some (.ofNat n) :=
          digits?_eq_some_iff.mpr ⟨n, h, hpos, rfl⟩
        simp only [Setting.name, String.reduceEq, if_false, if_true, hx, adopt]
    | style s =>
        have hs : CommandLine.style? value = some s := style?_eq_some_iff.mpr h
        simp only [Setting.name, String.reduceEq, if_false, if_true, hs, adopt]

/-- A word with an equals sign is cut at the first one. -/
theorem split_joined (h : '=' ∉ name.toList) (value : String) :
    split (name ++ "=" ++ value) = (name, some value) := by
  have hne : ∀ c ∈ name.toList, decide (c ≠ '=') = true := fun c hc =>
    decide_eq_true fun he => h (he ▸ hc)
  have hcut : (name ++ "=" ++ value).toList = name.toList ++ '=' :: value.toList := by
    simp only [String.toList_append, List.append_assoc]
    rfl
  simp only [split, hcut, List.takeWhile_append_of_pos hne, List.dropWhile_append_of_pos hne]
  simp

theorem eq_of_split_some (h : split word = (name, some value)) : word = name ++ "=" ++ value := by
  simp only [split] at h
  split at h
  · next c rest hrest =>
      cases h
      have hc : c = '=' := by
        have := List.head?_dropWhile_not (· ≠ '=') word.toList
        rw [hrest] at this
        simpa using this
      subst hc
      have hall := List.takeWhile_append_dropWhile (p := (· ≠ '=')) (l := word.toList)
      rw [hrest] at hall
      refine String.toList_inj.mp (hall.symm.trans ?_)
      simp only [String.toList_append, String.toList_ofList, List.append_assoc]
      rfl
  · cases h

theorem eq_of_split_none (h : split word = (name, none)) : word = name := by
  simp only [split] at h
  split at h
  · cases h
  · next hrest =>
      cases h
      have hall := List.takeWhile_append_dropWhile (p := (· ≠ '=')) (l := word.toList)
      rw [hrest, List.append_nil] at hall
      rw [hall, String.ofList_toList]

theorem read_part (o : Options) (p : Part) (rest : List String) :
    o.read (p.words ++ rest) = (o.take p).read rest := by
  cases p with
  | plain word h =>
      have hend : word ≠ "--" := fun he => h.1 (he ▸ by decide)
      have hhelp : word ≠ "--help" := fun he => h.1 (he ▸ by decide)
      have htrace : word ≠ "--trace" := fun he => h.1 (he ▸ by decide)
      rw [Part.words, List.singleton_append, read.eq_def o (word :: rest)]
      simp only [hend, hhelp, htrace, h.2, isOption_eq_false_iff.mpr h.1, if_false, decide_false,
        Bool.or_false, Bool.false_eq_true, Bool.not_false, if_true]
      rfl
  | trace =>
      rw [Part.words, List.singleton_append, read.eq_def o ("--trace" :: rest)]
      rfl
  | help short =>
      rw [Part.words, List.singleton_append]
      cases short with
      | true =>
          rw [read.eq_def o (_ :: rest)]
          rfl
      | false =>
          rw [read.eq_def o (_ :: rest)]
          rfl
  | setting s value h joined =>
      have hset : o.set s.name value = .ok (o.adopt s) := set_eq_ok_iff.mpr ⟨s, rfl, h, rfl⟩
      cases joined with
      | false =>
          rw [Part.words, if_neg Bool.false_ne_true, List.cons_append, List.singleton_append,
            read_option s.name_mem, hset]
          rfl
      | true =>
          have hequals : '=' ∈ (s.name ++ "=" ++ value).toList := by
            simp only [String.toList_append, List.mem_append]
            exact .inl (.inr (by decide))
          have hne : ∀ word : String, '=' ∉ word.toList → s.name ++ "=" ++ value ≠ word :=
            fun word hword he => hword (he ▸ hequals)
          have hoption : isOption (s.name ++ "=" ++ value) = true := by
            rw [isOption, List.isPrefixOf_iff_prefix, String.toList_append, String.toList_append,
              List.append_assoc]
            exact s.prefix_name.trans (List.prefix_append _ _)
          rw [Part.words, if_pos rfl, List.singleton_append, read.eq_def o (_ :: rest)]
          simp only [hne "--" (by decide), hne "-h" (by decide), hne "--help" (by decide),
            hne "--trace" (by decide), hoption, split_joined s.equals_not_mem_name, hset, if_false,
            decide_false, Bool.or_false, Bool.false_eq_true, Bool.not_true]
          rfl

/-- What was read was a row of parts. -/
theorem exists_reading_of_read {words : List String} (h : o.read words = .ok o') :
    ∃ r : Reading, r.words = words := by
  fun_induction read o words with
  | case1 o => exact ⟨⟨[], none⟩, rfl⟩
  | case2 o rest => exact ⟨⟨[], some rest⟩, rfl⟩
  | case3 o word rest _ hhelp ih =>
      obtain ⟨r, rfl⟩ := ih h
      rw [Bool.or_eq_true, decide_eq_true_eq, decide_eq_true_eq] at hhelp
      rcases hhelp with rfl | rfl
      · exact ⟨r.cons (.help true), r.words_cons _⟩
      · exact ⟨r.cons (.help false), r.words_cons _⟩
  | case4 o rest _ _ ih =>
      obtain ⟨r, rfl⟩ := ih h
      exact ⟨r.cons .trace, r.words_cons _⟩
  | case5 o word rest _ hhelp _ hplain ih =>
      obtain ⟨r, rfl⟩ := ih h
      rw [Bool.not_eq_true', isOption_eq_false_iff] at hplain
      have hne : word ≠ "-h" := fun he => hhelp (by rw [he]; rfl)
      exact ⟨r.cons (.plain word ⟨hplain, hne⟩), r.words_cons _⟩
  | case6 o word _ _ _ _ name value rest hsplit ih =>
      obtain ⟨o₁, hset, hrest⟩ := bind_eq_ok.mp h
      obtain ⟨s, rfl, hvalue, -⟩ := set_eq_ok_iff.mp hset
      obtain ⟨r, rfl⟩ := ih o₁ hrest
      obtain rfl := eq_of_split_some hsplit
      exact ⟨r.cons (.setting s value hvalue true), r.words_cons _⟩
  | case7 o word _ _ _ _ name value rest hsplit ih =>
      obtain ⟨o₁, hset, hrest⟩ := bind_eq_ok.mp h
      obtain ⟨s, rfl, hvalue, -⟩ := set_eq_ok_iff.mp hset
      obtain ⟨r, rfl⟩ := ih o₁ hrest
      obtain rfl := eq_of_split_none hsplit
      exact ⟨r.cons (.setting s value hvalue false), r.words_cons _⟩
  | case8 => cases h

/-! ## All parts -/

theorem getLast?_filterMap_cons {α β : Type} (f : α → Option β) (a : α) (l : List α) :
    ((a :: l).filterMap f).getLast? = (l.filterMap f).getLast?.or (f a) := by
  rw [List.filterMap_cons]
  cases f a with
  | none => rw [Option.or_none]
  | some b =>
      rw [List.getLast?_cons]
      cases (l.filterMap f).getLast? <;> rfl

theorem take_eq (o : Options) (p : Part) :
    o.take p =
      { precision := p.precision?.or o.precision
        style := p.style?.getD o.style
        digits := (p.digits?.map .ofNat).or o.digits
        trace := o.trace || p.isTrace
        help := o.help || p.isHelp
        expression := o.expression ++ p.plain?.toList } := by
  obtain ⟨precision, style, digits, trace, help, expression⟩ := o
  cases p with
  | plain | trace | help =>
      cases trace <;> cases help <;>
        simp [take, append, Part.precision?, Part.style?, Part.digits?, Part.isTrace, Part.isHelp,
          Part.plain?]
  | setting s value h joined =>
      cases s <;> cases trace <;> cases help <;>
        simp [take, adopt, Part.precision?, Part.style?, Part.digits?, Part.isTrace, Part.isHelp,
          Part.plain?]

/-- What a row of parts adds to what has been read before. -/
theorem foldl_take (parts : List Part) (o : Options) :
    parts.foldl take o =
      { precision := (parts.filterMap Part.precision?).getLast?.or o.precision
        style := (parts.filterMap Part.style?).getLast?.getD o.style
        digits := ((parts.filterMap Part.digits?).getLast?.map .ofNat).or o.digits
        trace := o.trace || parts.any Part.isTrace
        help := o.help || parts.any Part.isHelp
        expression := o.expression ++ parts.filterMap Part.plain? } := by
  induction parts generalizing o with
  | nil => simp
  | cons p parts ih =>
      have hplain : (p :: parts).filterMap Part.plain? =
          p.plain?.toList ++ parts.filterMap Part.plain? := by
        cases h : p.plain? <;> simp [h]
      rw [List.foldl_cons, ih, take_eq]
      simp only [getLast?_filterMap_cons, hplain, List.any_cons, Bool.or_assoc, List.append_assoc,
        Option.or_assoc, Option.map_or, Option.getD_or]

theorem read_words (o : Options) (r : Reading) :
    o.read r.words = .ok ((r.parts.foldl take o).append (r.behind.getD [])) := by
  obtain ⟨parts, behind⟩ := r
  induction parts generalizing o with
  | nil =>
      cases behind with
      | none =>
          rw [Reading.words, read.eq_def]
          simp [append]
      | some rest =>
         rw [Reading.words, List.flatMap_nil, List.nil_append, read.eq_def]
         rfl
  | cons p parts ih =>
      have hcons := Reading.words_cons p ⟨parts, behind⟩
      rw [Reading.cons] at hcons
      rw [hcons, read_part, ih, List.foldl_cons]

end Options

/-- Words are understood exactly if there is a reading of them, and are a fault exactly if there is
none.  They say what any reading of them says. -/
theorem ofWords_reading :
    (∀ r : Reading, Options.ofWords r.words = .ok r.options) ∧
    ∀ words : List String,
      ((∃ o, Options.ofWords words = .ok o) ↔ ∃ r : Reading, r.words = words) ∧
      ((∃ fault, Options.ofWords words = .error fault) ↔ ¬ ∃ r : Reading, r.words = words) := by
  have hread : ∀ r : Reading, Options.ofWords r.words = .ok r.options := by
    intro r
    rw [Options.ofWords, Options.read_words, Options.foldl_take]
    simp only [Options.append, Reading.options, Option.or_none, Bool.false_or, List.nil_append]
  have hunderstood : ∀ words : List String,
      (∃ o, Options.ofWords words = .ok o) ↔ ∃ r : Reading, r.words = words := by
    intro words
    constructor
    · rintro ⟨o, h⟩
      exact Options.exists_reading_of_read h
    · rintro ⟨r, rfl⟩
      exact ⟨r.options, hread r⟩
  refine ⟨hread, fun words => ⟨hunderstood words, ?_⟩⟩
  rw [← hunderstood]
  cases Options.ofWords words with
  | error fault => simp
  | ok o => simp

/-- Behind `--digits` the word `--` is a value, and not one that fits. -/
example : (Options.ofWords ["--digits=3", "-2", "--digits", "--", "-h"]).toOption = none ∧
    (Options.ofWords ["--digits=3", "-2", "--digits", " 4 ", "--", "-h"]).toOption =
      some { digits := some (.ofNat 4), expression := ["-2", "-h"] } := by
  decide +kernel

end CommandLine

end Reckoner
