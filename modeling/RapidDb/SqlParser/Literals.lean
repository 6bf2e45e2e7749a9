import Mathlib.Data.List.TakeWhile
import Mathlib.Tactic.IntervalCases
import RapidDb.SqlParser.FlexLexer

/-!
# Literals of strings and integers

A string in single quotes is read back as it is. Of a string in double quotes the first quote is
cropped and the last is kept, and no rule matches an empty one. An integer is read with base 0, so
that a leading zero makes it octal and an 8 or a 9 ends it.
-/

namespace RapidDb

namespace FlexLexer

structure Text where
  chars : List Char
  noNul : '\x00' ∉ chars

inductive Literal where
  | singleQuoted (s : Text)
  | doubleQuoted (s : Text) (plain : '"' ∉ s.chars ∧ '\n' ∉ s.chars)
  | numeral (zeros n : ℕ)

/-- A string with its single quotes doubled. -/
def escape (s : List Char) : List Char :=
  s.flatMap fun char => if char = '\'' then ['\'', '\''] else [char]

namespace Literal

def text : Literal → List Char
  | singleQuoted s => '\'' :: (escape s.chars ++ ['\''])
  | doubleQuoted s _ => '"' :: (s.chars ++ ['"'])
  | numeral zeros n => List.replicate zeros '0' ++ Nat.toDigits 10 n

/-- A literal gives its value and nothing else; a number over the limit gives an error and no
number. -/
def RoundTrip : Literal → Prop
  | literal@(singleQuoted s) | literal@(doubleQuoted s _) =>
      lex literal.text = some { tokens := [.STRING s.chars], errors := [] }
  | literal@(numeral _ n) =>
      ∃ lexed, lex literal.text = some lexed ∧
        if n ≤ LLONG_MAX then lexed = { tokens := [.INTVAL n], errors := [] }
        else lexed.errors ≠ [] ∧ ∀ ival, .INTVAL ival ∉ lexed.tokens

/-- The digits of a number up to the first 8 or 9, with base 8. -/
def octal (n : ℕ) : ℕ :=
  Nat.ofDigitChars 8 ((Nat.toDigits 10 n).takeWhile fun char => char.toNat < '0'.toNat + 8) 0

/-- Single quotes; and a number without a leading zero, of one octal digit, or over the limit also
with base 8. -/
def IsKept : Literal → Prop
  | singleQuoted _ => True
  | doubleQuoted _ _ => False
  | numeral zeros n => zeros = 0 ∨ n < 8 ∨ LLONG_MAX < n ∧ LLONG_MAX < octal n

end Literal

/-! ## Words that begin with a digit or a quote -/

def Plain (char : Char) : Prop := char.isDigit = false ∧ char ≠ '\'' ∧ char ≠ '"'

instance decidablePlain (char : Char) : Decidable (Plain char) :=
  inferInstanceAs (Decidable (_ ∧ _))

instance (chars : List Char) : Decidable (∀ char ∈ chars, Plain char) :=
  List.decidableBAll _ _

instance (found : Option Char) : Decidable (∀ char ∈ found, Plain char) :=
  decidable_of_iff (∀ char ∈ found.toList, Plain char) (by simp)

variable {char : Char}

theorem toUpper_of_not_plain (notPlain : ¬Plain char) : char.toUpper = char := by
  have notLower : ¬('a'.val ≤ char.val ∧ char.val ≤ 'z'.val) := by
    rintro ⟨atLeast, -⟩
    apply notPlain
    refine ⟨?_, ?_, ?_⟩
    · simp only [Char.isDigit, Bool.and_eq_false_iff, decide_eq_false_iff_not]
      right
      intro atMost
      exact absurd (UInt32.le_trans atLeast atMost) (by decide)
    · rintro rfl
      exact absurd atLeast (by decide)
    · rintro rfl
      exact absurd atLeast (by decide)
  exact dif_neg notLower

variable {word : List Char}

theorem plain_of_isWord {text : String} (plain : ∀ first ∈ text.toList.head?, Plain first)
    (accepted : isWord text (char :: word) = true) : Plain char := by
  by_contra notPlain
  simp only [isWord, List.map_cons, decide_eq_true_eq, toUpper_of_not_plain notPlain] at accepted
  exact notPlain (plain char (by simp [← accepted]))

theorem words_plain : ∀ text ∈ words, ∀ first ∈ text.toList.head?, Plain first := by
  decide +kernel

theorem plain_of_areWords {first second : String} (notEmpty : first.length ≠ 0)
    (plain : ∀ char ∈ first.toList.head?, Plain char)
    (accepted : areWords first second (char :: word) = true) : Plain char := by
  rcases Nat.exists_eq_succ_of_ne_zero notEmpty with ⟨length, isLength⟩
  simp only [areWords, Bool.and_eq_true, isLength, List.take_succ_cons] at accepted
  exact plain_of_isWord plain accepted.1.1

theorem point_of_isFloat
    (accepted : isFloat (char :: word) = true) : char.isDigit = true ∧ '.' ∈ word := by
  simp only [isFloat, Bool.and_eq_true, List.head?_cons, Option.any_some] at accepted
  rcases accepted with ⟨digit, rest⟩
  refine ⟨digit, ?_⟩
  rw [List.dropWhile_cons_of_pos digit] at rest
  have suffix := List.dropWhile_suffix Char.isDigit (l := word)
  cases found : word.dropWhile Char.isDigit with
  | nil => simp [found] at rest
  | cons point decimals =>
      by_cases isPoint : point = '.'
      · subst isPoint
        exact suffix.subset (by simp [found])
      · simp [found, isPoint] at rest

theorem plain_of_isBlank (blank : isBlank char = true) : Plain char := by
  simp only [isBlank, Bool.or_eq_true, decide_eq_true_eq] at blank
  rcases blank with (rfl | rfl) | rfl
  · decide
  · decide
  · decide

theorem singleChars_plain : ∀ char ∈ singleChars, Plain char := by
  decide

variable {rule : Rule}

theorem spaceRules_start (mem : rule ∈ spaceRules)
    (active : rule.active .INITIAL = true) (accepted : rule.accepts (char :: word) = true) :
    Plain char := by
  simp only [spaceRules, List.mem_cons, List.not_mem_nil, or_false] at mem
  rcases mem with rfl | rfl | rfl | rfl
  · simp only [decide_eq_true_eq, List.cons.injEq] at accepted
    rw [accepted.1]
    decide
  · cases active
  · cases active
  · simp only [List.all_cons, Bool.and_eq_true] at accepted
    exact plain_of_isBlank accepted.2.1

theorem operatorRule_start {text name : String} (plain : ∀ first ∈ text.toList.head?, Plain first)
    (accepted : (operatorRule text name).accepts (char :: word) = true) : Plain char := by
  simp only [operatorRule, decide_eq_true_eq] at accepted
  exact plain char (by simp [← accepted])

theorem operatorRules_start (mem : rule ∈ operatorRules)
    (accepted : rule.accepts (char :: word) = true) : Plain char := by
  simp only [operatorRules, List.mem_cons, List.not_mem_nil, or_false] at mem
  rcases mem with rfl | rfl | rfl | rfl | rfl | rfl | rfl | rfl | rfl | rfl
  · exact plain_of_areWords (by decide) (by decide) accepted
  · exact plain_of_areWords (by decide) (by decide) accepted
  iterate 7 exact operatorRule_start (by decide) accepted
  · simp only [List.all_cons, Bool.and_eq_true, decide_eq_true_eq] at accepted
    exact singleChars_plain char accepted.2.1

theorem floatRules_start (mem : rule ∈ floatRules) (accepted : rule.accepts (char :: word) = true) :
    Plain char ∨ char.isDigit = true ∧ '.' ∈ word := by
  simp only [floatRules, List.mem_cons, List.not_mem_nil, or_false] at mem
  rcases mem with rfl | rfl | rfl
  · exact .inr (point_of_isFloat accepted)
  · left
    simp only [List.head?_cons, Option.some.injEq, Bool.and_eq_true, decide_eq_true_eq] at accepted
    rw [accepted.1]
    decide
  · left
    simp only [decide_eq_true_eq] at accepted
    have isMinus : char = '-' := (List.cons.inj accepted).1
    rw [isMinus]
    decide

/-- The rules before those of literals match nothing that begins with a digit or a quote, apart from
floats. -/
theorem earlyRules_start (mem : rule ∈ earlyRules)
    (active : rule.active .INITIAL = true) (accepted : rule.accepts (char :: word) = true) :
    Plain char ∨ char.isDigit = true ∧ '.' ∈ word := by
  simp only [earlyRules, List.mem_append, List.mem_map] at mem
  rcases mem with ((space | ⟨text, isText, rfl⟩) | operator) | float
  · exact .inl (spaceRules_start space active accepted)
  · exact .inl (plain_of_isWord (words_plain text isText) accepted)
  · exact .inl (operatorRules_start operator accepted)
  · exact floatRules_start float accepted

theorem earlyRules_inString : ∀ rule ∈ earlyRules, rule.active .singlequotedstring = false := by
  decide +kernel

theorem earlyRules_quote (mem : rule ∈ earlyRules)
    (quote : char = '\'' ∨ char = '"') (active : rule.active .INITIAL = true) :
    rule.accepts (char :: word) = false := by
  by_contra accepted
  rcases earlyRules_start mem active (by simpa using accepted) with ⟨-, plain⟩ | ⟨digit, -⟩
  · rcases quote with rfl | rfl
    · exact plain.1 rfl
    · exact plain.2 rfl
  · rcases quote with rfl | rfl
    · cases digit
    · cases digit

/-! ## Which rule is taken -/

open LexRule

variable {text : List Char}

theorem choose_digits (notEmpty : text ≠ []) (digits : ∀ char ∈ text, char.isDigit = true) :
    choose .INITIAL text rules = some (text.length, integerRule.action) := by
  apply @choose_eq_some _ _ _ .INITIAL text earlyRules
  · exact Nat.le_refl _
  · simpa [Matches, integerRule, inclusive, notEmpty] using digits
  · intro other _ longer isLonger inText
    omega
  · rintro other mem ⟨active, accepted⟩
    cases text with
    | nil => exact notEmpty rfl
    | cons char word =>
        rw [List.take_length] at accepted
        rcases earlyRules_start mem active accepted with plain | ⟨-, point⟩
        · simp [plain.1] at digits
        · have isDigit := digits '.' (List.mem_cons_of_mem char point)
          cases isDigit

theorem choose_doubleQuoted {s : List Char} (notEmpty : s ≠ [])
    (plain : '"' ∉ s ∧ '\n' ∉ s) :
    choose .INITIAL ('"' :: (s ++ ['"'])) rules =
      some (('"' :: (s ++ ['"'])).length, doubleQuotedRule.action) := by
  apply @choose_eq_some _ _ _ .INITIAL _ (earlyRules ++ [integerRule])
  · exact Nat.le_refl _
  · have long : 0 < s.length := List.length_pos_iff.mpr notEmpty
    have last : ('"' :: (s ++ ['"'])).getLast? = some '"' := by
      rw [← List.cons_append, List.getLast?_concat]
    have inner : ∀ char ∈ s, ¬char = '"' ∧ ¬char = '\n' := by
      intro char mem
      exact ⟨fun isQuote => plain.1 (isQuote ▸ mem), fun isEnd => plain.2 (isEnd ▸ mem)⟩
    rw [Matches, List.take_length]
    refine ⟨rfl, ?_⟩
    simpa [doubleQuotedRule, isDoubleQuoted, long, last] using inner
  · intro other _ longer isLonger inText
    omega
  · rintro other mem ⟨active, accepted⟩
    rw [List.take_length] at accepted
    rcases List.mem_append.mp mem with early | late
    · simp [earlyRules_quote early (.inr rfl) active] at accepted
    · obtain rfl : other = integerRule := by simpa using late
      simp [integerRule] at accepted

theorem rules_quote (mem : rule ∈ rules)
    (active : rule.active .INITIAL = true) (accepted : rule.accepts ('\'' :: word) = true) :
    word = [] := by
  rcases List.mem_append.mp mem with early | late
  · simp [earlyRules_quote early (.inl rfl) active] at accepted
  · simp only [List.mem_cons, List.not_mem_nil, or_false] at late
    rcases late with rfl | rfl | rfl | rfl | rfl | rfl | rfl | rfl
    · simp [integerRule] at accepted
    · simp [doubleQuotedRule, isDoubleQuoted] at accepted
    · simp [identifierRule, isIdentifier] at accepted
    · simpa [openRule] using accepted
    · cases active
    · cases active
    · cases active
    · simp only [unknownRule, List.length_cons, Bool.and_eq_true, decide_eq_true_eq,
        Nat.add_eq_right, List.length_eq_zero_iff] at accepted
      exact accepted.1

theorem choose_quote (input : List Char) :
    choose .INITIAL ('\'' :: input) rules = some (1, openRule.action) := by
  apply @choose_eq_some _ _ _ .INITIAL _ (earlyRules ++
    [integerRule, doubleQuotedRule, identifierRule])
  · simp
  · exact ⟨rfl, rfl⟩
  · rintro other mem longer isLonger inText ⟨active, accepted⟩
    rcases Nat.exists_eq_add_of_lt isLonger with ⟨more, rfl⟩
    rw [List.take_succ_cons] at accepted
    have empty := rules_quote (by simpa [rules] using mem) active accepted
    rw [List.take_eq_nil_iff] at empty
    rcases empty with none_more | rfl
    · omega
    · simp at inText
  · rintro other mem ⟨active, accepted⟩
    rcases List.mem_append.mp mem with early | late
    · simp [earlyRules_quote early (.inl rfl) active] at accepted
    · simp only [List.mem_cons, List.not_mem_nil, or_false] at late
      rcases late with rfl | rfl | rfl
      · cases accepted
      · cases accepted
      · cases accepted

theorem rules_inString (mem : rule ∈ rules) (active : rule.active .singlequotedstring = true) :
    rule = twoQuotesRule ∨ rule = pieceRule ∨ rule = closeRule := by
  rcases List.mem_append.mp mem with early | late
  · simp [earlyRules_inString rule early] at active
  · simp only [List.mem_cons, List.not_mem_nil, or_false] at late
    rcases late with rfl | rfl | rfl | rfl | rfl | rfl | rfl | rfl
    · cases active
    · cases active
    · cases active
    · cases active
    · exact .inl rfl
    · exact .inr (.inl rfl)
    · exact .inr (.inr rfl)
    · cases active

/-- The rules before those of a string in single quotes. -/
def outsideRules : List Rule :=
  earlyRules ++ [integerRule, doubleQuotedRule, identifierRule, openRule]

theorem rules_eq :
    rules = outsideRules ++ [twoQuotesRule, pieceRule, closeRule, unknownRule] := by
  simp [rules, outsideRules]

theorem outsideRules_inString (mem : rule ∈ outsideRules) (input : List Char)
    (length : ℕ) : ¬rule.Matches .singlequotedstring input length := by
  rintro ⟨active, -⟩
  rcases List.mem_append.mp mem with early | late
  · simp [earlyRules_inString rule early] at active
  · simp only [List.mem_cons, List.not_mem_nil, or_false] at late
    rcases late with rfl | rfl | rfl | rfl
    · cases active
    · cases active
    · cases active
    · cases active

theorem choose_twoQuotes (input : List Char) :
    choose .singlequotedstring ('\'' :: '\'' :: input) rules =
      some (2, twoQuotesRule.action) := by
  rw [rules_eq]
  apply choose_eq_some
  · simp
  · exact ⟨rfl, rfl⟩
  · rintro other mem longer isLonger inText ⟨active, accepted⟩
    obtain ⟨more, rfl⟩ : ∃ more, longer = more + 3 := ⟨longer - 3, by omega⟩
    rw [List.take_succ_cons, List.take_succ_cons] at accepted
    cases input with
    | nil => simp at inText
    | cons char input =>
        rw [List.take_succ_cons] at accepted
        rcases rules_inString (by simpa [rules_eq] using mem) active with rfl | rfl | rfl
        · simp [twoQuotesRule] at accepted
        · simp [pieceRule] at accepted
        · simp [closeRule] at accepted
  · intro other mem
    exact outsideRules_inString mem _ _

theorem choose_piece {piece rest : List Char} (notEmpty : piece ≠ []) (plain : '\'' ∉ piece) :
    choose .singlequotedstring (piece ++ '\'' :: rest) rules =
      some (piece.length, pieceRule.action) := by
  have split : rules = (outsideRules ++ [twoQuotesRule]) ++
      pieceRule :: [closeRule, unknownRule] := by
    simp [rules_eq]
  rcases List.exists_cons_of_ne_nil notEmpty with ⟨first, more, rfl⟩
  have notQuote : first ≠ '\'' := fun isQuote => plain (by simp [isQuote])
  rw [split]
  apply choose_eq_some
  · simp
  · rw [Matches, List.take_left']
    · refine ⟨rfl, ?_⟩
      simp only [pieceRule, List.all_eq_true, decide_eq_true_eq]
      exact fun char mem isQuote => plain (isQuote ▸ mem)
    · rfl
  · rintro other mem longer isLonger inText ⟨active, accepted⟩
    obtain ⟨extra, rfl⟩ : ∃ extra, longer = (first :: more).length + (extra + 1) :=
      ⟨longer - (first :: more).length - 1, by omega⟩
    rw [List.take_length_add_append, List.take_succ_cons] at accepted
    rcases rules_inString (by simpa [split] using mem) active with rfl | rfl | rfl
    · simp [twoQuotesRule, notQuote] at accepted
    · simp [pieceRule] at accepted
    · simp [closeRule, notQuote] at accepted
  · rintro other mem found
    rcases List.mem_append.mp mem with outside | late
    · exact outsideRules_inString outside _ _ found
    · obtain rfl : other = twoQuotesRule := by simpa using late
      rcases found with ⟨-, accepted⟩
      simp [twoQuotesRule, notQuote] at accepted

theorem choose_close : choose .singlequotedstring ['\''] rules = some (1, closeRule.action) := by
  rfl

theorem lex_empty_doubleQuoted :
    lex ['"', '"'] =
      some { tokens := [], errors := ["[SQL-Lexer-Error] Unknown Character: \""] } := by
  decide +kernel

/-! ## Scanning a literal -/

section

variable {fuel length : ℕ} {scanner scanner' : Scanner} {char : Char} {input : List Char}
  {action : Action}

theorem scan_of_scan
    (chosen : choose scanner.start (char :: input) rules = some (length, action))
    (acted : action ((char :: input).take length) scanner = (scanner', .scan)) :
    scan (fuel + 1) scanner (char :: input) = scan fuel scanner' ((char :: input).drop length) := by
  simp only [scan, chosen, acted]

theorem scan_of_token {token : Token}
    (chosen : choose scanner.start (char :: input) rules = some (length, action))
    (acted : action ((char :: input).take length) scanner = (scanner', .token token)) :
    scan (fuel + 1) scanner (char :: input) =
      (scan fuel scanner' ((char :: input).drop length)).map (Lexed.cons token) := by
  simp only [scan, chosen, acted]

end

theorem lex_of_token {action : Action} {token : Token} {errors : List String}
    (notEmpty : text ≠ []) (chosen : choose .INITIAL text rules = some (text.length, action))
    (acted : action text { start := .INITIAL, strbuf := [], errors := [] } =
      ({ start := .INITIAL, strbuf := [], errors := errors }, .token token)) :
    lex text = some { tokens := [token], errors := errors } := by
  cases text with
  | nil => exact absurd rfl notEmpty
  | cons char input =>
      rw [lex, scan_of_token chosen (by rw [List.take_length]; exact acted), List.drop_length]
      rfl

theorem cStr_eq (noNul : '\x00' ∉ text) : cStr text = text := by
  rw [cStr, List.takeWhile_eq_self_iff]
  intro char mem
  have notNul : char ≠ '\x00' := fun isNul => noNul (isNul ▸ mem)
  simpa using notNul

theorem lex_doubleQuoted {s : List Char} (noNul : '\x00' ∉ s) (notEmpty : s ≠ [])
    (plain : '"' ∉ s ∧ '\n' ∉ s) :
    lex ('"' :: (s ++ ['"'])) = some { tokens := [.STRING (s ++ ['"'])], errors := [] } := by
  have whole : '\x00' ∉ '"' :: (s ++ ['"']) := by simpa using noNul
  apply lex_of_token (List.cons_ne_nil _ _) (choose_doubleQuoted notEmpty plain)
  simp only [doubleQuotedRule, give, cStr_eq whole]
  simp [List.take_of_length_le]

theorem escape_cons_quote (s : List Char) : escape ('\'' :: s) = '\'' :: '\'' :: escape s := by
  simp [escape]

theorem escape_append {piece : List Char} (plain : '\'' ∉ piece) (s : List Char) :
    escape (piece ++ s) = piece ++ escape s := by
  induction piece with
  | nil => rfl
  | cons char piece ih =>
      simp only [List.mem_cons, not_or] at plain
      have rest := ih plain.2
      simp only [escape] at rest ⊢
      simp [Ne.symm plain.1, rest]

theorem exists_piece (s : List Char) :
    ∃ piece rest, s = piece ++ rest ∧ '\'' ∉ piece ∧ (rest = [] ∨ ∃ more, rest = '\'' :: more) := by
  induction s with
  | nil => exact ⟨[], [], rfl, by simp, .inl rfl⟩
  | cons char s ih =>
      by_cases isQuote : char = '\''
      · exact ⟨[], char :: s, rfl, by simp, .inr ⟨s, by rw [isQuote]⟩⟩
      · rcases ih with ⟨piece, rest, rfl, plain, atRest⟩
        exact ⟨char :: piece, rest, rfl, by simp [plain, Ne.symm isQuote], atRest⟩

theorem scan_close (fuel : ℕ) {buffer : List Char} (noNul : '\x00' ∉ buffer)
    (errors : List String) :
    scan (fuel + 2) { start := .singlequotedstring, strbuf := buffer, errors := errors } ['\''] =
      some { tokens := [.STRING buffer], errors := errors } := by
  rw [scan_of_token choose_close rfl, cStr_eq noNul]
  rfl

theorem scan_piece (fuel : ℕ) {piece : List Char} (notEmpty : piece ≠ []) (plain : '\'' ∉ piece)
    (noNul : '\x00' ∉ piece) (buffer tail : List Char) (errors : List String) :
    scan (fuel + 1) { start := .singlequotedstring, strbuf := buffer, errors := errors }
        (piece ++ '\'' :: tail) =
      scan fuel { start := .singlequotedstring, strbuf := buffer ++ piece, errors := errors }
        ('\'' :: tail) := by
  have chosen := @choose_piece piece tail notEmpty plain
  rcases List.exists_cons_of_ne_nil notEmpty with ⟨char, more, rfl⟩
  have acted : pieceRule.action ((char :: more ++ '\'' :: tail).take (char :: more).length)
      { start := .singlequotedstring, strbuf := buffer, errors := errors } =
        ({ start := .singlequotedstring, strbuf := buffer ++ char :: more, errors := errors },
          .scan) := by
    rw [List.take_append_length]
    simp only [pieceRule, cStr_eq noNul]
  rw [List.cons_append] at chosen acted ⊢
  rw [scan_of_scan chosen acted, ← List.cons_append, List.drop_append_length]

/-- Inside a string, up to its end. The induction is on the length, as a piece is taken at once. -/
theorem scan_string (bound : ℕ) : ∀ (s : List Char) (fuel : ℕ) (buffer : List Char)
    (errors : List String), s.length ≤ bound → '\x00' ∉ buffer ++ s →
      (escape s).length + 1 < fuel →
      scan fuel { start := .singlequotedstring, strbuf := buffer, errors := errors }
          (escape s ++ ['\'']) =
        some { tokens := [.STRING (buffer ++ s)], errors := errors } := by
  induction bound with
  | zero =>
      intro s fuel buffer errors short noNul enough
      obtain rfl : s = [] := List.length_eq_zero_iff.mp (by omega)
      obtain ⟨fuel, rfl⟩ : ∃ less, fuel = less + 2 := ⟨fuel - 2, by simp [escape] at enough; omega⟩
      simpa [escape] using scan_close fuel (by simpa using noNul) errors
  | succ bound ih =>
      intro s fuel buffer errors short noNul enough
      obtain ⟨fuel, rfl⟩ : ∃ less, fuel = less + 2 := ⟨fuel - 2, by omega⟩
      rcases exists_piece s with ⟨piece, rest, rfl, plain, atRest⟩
      cases piece with
      | nil =>
          rcases atRest with rfl | ⟨more, rfl⟩
          · simpa [escape] using scan_close fuel (by simpa using noNul) errors
          · -- two quotes stand for one
            rw [List.nil_append, escape_cons_quote] at enough ⊢
            rw [List.cons_append, List.cons_append, scan_of_scan (choose_twoQuotes _) rfl]
            have further := ih more (fuel + 1) (buffer ++ ['\'']) errors
              (by simpa using short) (by simpa using noNul) (by simp at enough; omega)
            simpa using further
      | cons char piece =>
          have noNulPiece : '\x00' ∉ char :: piece := by
            intro mem
            exact noNul (by simp at mem ⊢; tauto)
          have next : ∃ tail, escape rest ++ ['\''] = '\'' :: tail := by
            rcases atRest with rfl | ⟨more, rfl⟩
            · exact ⟨[], rfl⟩
            · exact ⟨'\'' :: (escape more ++ ['\'']), by simp [escape_cons_quote]⟩
          rcases next with ⟨tail, isTail⟩
          rw [escape_append plain] at enough ⊢
          rw [List.append_assoc, isTail,
            scan_piece (fuel + 1) (List.cons_ne_nil char piece) plain noNulPiece, ← isTail]
          have further := ih rest (fuel + 1) (buffer ++ char :: piece) errors
            (by simp at short; omega) (by simpa using noNul) (by simp at enough; omega)
          simpa using further

theorem lex_singleQuoted {s : List Char} (noNul : '\x00' ∉ s) :
    lex ('\'' :: (escape s ++ ['\''])) = some { tokens := [.STRING s], errors := [] } := by
  rw [lex, scan_of_scan (choose_quote _) rfl]
  exact scan_string s.length s _ [] [] (Nat.le_refl _) (by simpa using noNul) (by simp)

/-! ## Numbers -/

theorem lex_digits (notEmpty : text ≠ []) (digits : ∀ char ∈ text, char.isDigit = true) :
    lex text =
      some (if (strtoll text).2 then { tokens := [.code outOfRange.length], errors := [outOfRange] }
        else { tokens := [.INTVAL (strtoll text).1], errors := [] }) := by
  rcases read : strtoll text with ⟨ival, _ | _⟩
  · apply lex_of_token notEmpty (choose_digits notEmpty digits)
    simp [integerRule, read]
  · apply lex_of_token notEmpty (choose_digits notEmpty digits)
    simp [integerRule, read]

theorem lt_of_isDigit (digit : char.isDigit = true) :
    char.toNat < '0'.toNat + 10 := by
  simp only [Char.isDigit, Bool.and_eq_true, decide_eq_true_eq, UInt32.le_iff_toNat_le] at digit
  have nine : '9'.val.toNat = 57 := rfl
  have zero : '0'.toNat = 48 := rfl
  have val : char.toNat = char.val.toNat := rfl
  omega

theorem pos_of_isDigit (digit : char.isDigit = true) (notZero : char ≠ '0') :
    0 < char.toNat - '0'.toNat := by
  simp only [Char.isDigit, Bool.and_eq_true, decide_eq_true_eq, ge_iff_le,
    UInt32.le_iff_toNat_le] at digit
  have zero : '0'.val.toNat = '0'.toNat := rfl
  have val : char.toNat = char.val.toNat := rfl
  have different : char.toNat ≠ '0'.toNat := fun same => notZero (Char.toNat_inj.mp same)
  omega

theorem le_ofDigitChars (digits : List Char) (init : ℕ) :
    init ≤ Nat.ofDigitChars 10 digits init := by
  induction digits generalizing init with
  | nil => simp
  | cons char digits ih =>
      rw [Nat.ofDigitChars_cons]
      have further := ih (10 * init + (char.toNat - '0'.toNat))
      omega

namespace Literal

theorem head_toDigits {n : ℕ} (positive : 0 < n) : (Nat.toDigits 10 n).head? ≠ some '0' := by
  induction n using Nat.strong_induction_on with
  | _ n ih =>
      rcases Nat.lt_or_ge n 10 with small | large
      · rw [Nat.toDigits_of_lt_base small]
        interval_cases n <;> decide
      · have further := ih (n / 10) (by omega) (by omega)
        rw [Nat.toDigits_of_base_le (by decide) large]
        cases written : Nat.toDigits 10 (n / 10) with
        | nil => exact absurd written Nat.toDigits_ne_nil
        | cons first digits => simpa [written] using further

theorem ofDigitChars_lt (digits : List Char) {init init' : ℕ} (le : init ≤ init')
    (positive : 0 < init') (more : digits ≠ []) :
    Nat.ofDigitChars 8 (digits.takeWhile fun char => char.toNat < '0'.toNat + 8) init <
      Nat.ofDigitChars 10 digits init' := by
  induction digits generalizing init init' with
  | nil => exact absurd rfl more
  | cons char digits ih =>
      have atLeast := le_ofDigitChars digits (10 * init' + (char.toNat - '0'.toNat))
      rw [@Nat.ofDigitChars_cons 10]
      by_cases octalDigit : char.toNat < '0'.toNat + 8
      · rw [List.takeWhile_cons_of_pos (by simpa using octalDigit), Nat.ofDigitChars_cons]
        by_cases last : digits = []
        · subst last
          simp only [List.takeWhile_nil, Nat.ofDigitChars_nil]
          omega
        · exact ih (by omega) (by omega) last
      · rw [List.takeWhile_cons_of_neg (by simpa using octalDigit), Nat.ofDigitChars_nil]
        omega

theorem octal_eq_of_lt {n : ℕ} (less : n < 8) : octal n = n := by
  interval_cases n <;> rfl

theorem octal_lt {n : ℕ} (atLeast : 8 ≤ n) : octal n < n := by
  have value : Nat.ofDigitChars 10 (Nat.toDigits 10 n) 0 = n := Nat.ofDigitChars_ten_toDigits
  have head := head_toDigits (show 0 < n by omega)
  have digit := fun char => @Nat.isDigit_of_mem_toDigits 10 n char (by decide) (by decide)
  rw [octal]
  cases written : Nat.toDigits 10 n with
  | nil => exact absurd written Nat.toDigits_ne_nil
  | cons first digits =>
      rw [written, Nat.ofDigitChars_cons] at value
      by_cases octalDigit : first.toNat < '0'.toNat + 8
      · rw [List.takeWhile_cons_of_pos (by simpa using octalDigit), Nat.ofDigitChars_cons]
        have notZero := pos_of_isDigit (digit first (by simp [written]))
          (by simpa [written] using head)
        by_cases last : digits = []
        · subst last
          simp only [Nat.ofDigitChars_nil] at value
          omega
        · calc
            _ < Nat.ofDigitChars 10 digits (10 * 0 + (first.toNat - '0'.toNat)) :=
              ofDigitChars_lt digits (by omega) (by omega) last
            _ = n := value
      · rw [List.takeWhile_cons_of_neg (by simpa using octalDigit), Nat.ofDigitChars_nil]
        omega

/-- What the text of a number is read as. -/
def readAs (zeros n : ℕ) : ℕ := if zeros = 0 then n else octal n

theorem takeWhile_digits (n : ℕ) :
    ((Nat.toDigits 10 n).takeWhile fun char => char.toNat < '0'.toNat + 10) =
      Nat.toDigits 10 n := by
  rw [List.takeWhile_eq_self_iff]
  intro char mem
  simpa using lt_of_isDigit (Nat.isDigit_of_mem_toDigits (by decide) (by decide) mem)

theorem strtoll_numeral (zeros n : ℕ) :
    strtoll (numeral zeros n).text =
      if readAs zeros n ≤ LLONG_MAX then ((readAs zeros n : ℤ), false)
      else (LLONG_MAX, true) := by
  cases zeros with
  | zero =>
      rcases Nat.eq_zero_or_pos n with rfl | positive
      · rfl
      · simp only [strtoll, text, readAs, List.replicate_zero, List.nil_append,
          head_toDigits positive, if_true, if_false, takeWhile_digits,
          Nat.ofDigitChars_ten_toDigits]
  | succ zeros =>
      have zerosOctal : ∀ char ∈ List.replicate (zeros + 1) '0',
          decide (char.toNat < '0'.toNat + 8) = true := by
        intro char mem
        rw [List.eq_of_mem_replicate mem]
        rfl
      have isOctal : (numeral (zeros + 1) n).text.head? = some '0' := rfl
      simp only [strtoll, isOctal, if_true, readAs, Nat.add_eq_zero_iff, one_ne_zero, and_false,
        if_false]
      simp only [text, List.takeWhile_append_of_pos zerosOctal, Nat.ofDigitChars_append,
        Nat.ofDigitChars_replicate_zero, Nat.mul_zero]
      rfl

theorem lex_numeral (zeros n : ℕ) :
    lex (numeral zeros n).text =
      some
        (if readAs zeros n ≤ LLONG_MAX then { tokens := [.INTVAL (readAs zeros n)], errors := [] }
        else { tokens := [.code outOfRange.length], errors := [outOfRange] }) := by
  have notEmpty : (numeral zeros n).text ≠ [] := by
    simp [text, Nat.toDigits_ne_nil]
  have digits : ∀ char ∈ (numeral zeros n).text, char.isDigit = true := by
    intro char mem
    rcases List.mem_append.mp mem with zero | digit
    · rw [List.eq_of_mem_replicate zero]
      rfl
    · exact Nat.isDigit_of_mem_toDigits (by decide) (by decide) digit
  rw [lex_digits notEmpty digits, strtoll_numeral]
  split
  · rfl
  · rfl

theorem readAs_eq_iff {zeros n : ℕ} : readAs zeros n = n ↔ zeros = 0 ∨ n < 8 := by
  by_cases noZeros : zeros = 0
  · simp [readAs, noZeros]
  · rcases Nat.lt_or_ge n 8 with less | atLeast
    · simp [readAs, octal_eq_of_lt less, less]
    · have differs := Nat.ne_of_lt (octal_lt atLeast)
      simp [readAs, noZeros, differs, atLeast]

theorem readAs_iff (zeros n : ℕ) :
    (if n ≤ LLONG_MAX then readAs zeros n = n else LLONG_MAX < readAs zeros n) ↔
      zeros = 0 ∨ n < 8 ∨ LLONG_MAX < n ∧ LLONG_MAX < octal n := by
  rcases Nat.lt_or_ge LLONG_MAX n with isOver | inRange
  · have notOctal : ¬n < 8 := by
      have limit : 8 ≤ LLONG_MAX := by decide
      omega
    rw [if_neg (Nat.not_le.mpr isOver)]
    by_cases noZeros : zeros = 0
    · simp [readAs, noZeros, isOver]
    · simp [readAs, noZeros, isOver, notOctal]
  · rw [if_pos inRange, readAs_eq_iff]
    simp [Nat.not_lt.mpr inRange]

/-- A literal is read back. -/
theorem roundTrip_iff (literal : Literal) : literal.RoundTrip ↔ literal.IsKept := by
  cases literal with
  | singleQuoted s => exact iff_of_true (lex_singleQuoted s.noNul) trivial
  | doubleQuoted s plain =>
      refine iff_of_false ?_ id
      intro same
      rw [RoundTrip, text] at same
      by_cases empty : s.chars = []
      · rw [empty, List.nil_append, lex_empty_doubleQuoted] at same
        simp at same
      · rw [lex_doubleQuoted s.noNul empty plain] at same
        simp at same
  | numeral zeros n =>
      rw [IsKept, ← readAs_iff]
      simp only [RoundTrip, lex_numeral, Option.some.injEq, exists_eq_left']
      by_cases inRange : n ≤ LLONG_MAX
      · rw [if_pos inRange, if_pos inRange]
        by_cases kept : readAs zeros n ≤ LLONG_MAX
        · simp [kept]
        · have differs : readAs zeros n ≠ n := by omega
          simp [kept, differs]
      · rw [if_neg inRange, if_neg inRange]
        by_cases kept : readAs zeros n ≤ LLONG_MAX
        · simp [kept]
        · simp [kept, Nat.not_le.mp kept]

/-- The number 10 with a leading zero is read as 8. -/
theorem not_roundTrip : ¬∀ literal : Literal, literal.RoundTrip := by
  intro kept
  rcases kept (numeral 1 10) with ⟨lexed, found, same⟩
  have read : lex (numeral 1 10).text = some { tokens := [.INTVAL 8], errors := [] } := by
    decide +kernel
  cases read.symm.trans found
  simp at same

end Literal

end FlexLexer

end RapidDb
