import Mathlib.Algebra.Group.Int.Defs
import Mathlib.Algebra.GroupWithZero.Nat
import Mathlib.Tactic.Common
import RapidDb.Library.LongestMatch

/-!
# The lexer

The rules of `flex_lexer.l` and the scanner that is generated from them: it takes the longest word,
and the earlier of two rules. A character is a byte, and letters match in both cases. What a rule
hands to C++ as a string ends at a zero byte.
-/

namespace RapidDb

namespace FlexLexer

inductive StartCond where
  | INITIAL
  | COMMENT
  | singlequotedstring
deriving DecidableEq, Repr

/-- What the parser gets: a character or another number of its own, or a token with its value. A
float is given by its text. -/
inductive Token where
  | code (number : ℕ)
  | word (name : String)
  | FLOATVAL (fval : List Char)
  | INTVAL (ival : ℤ)
  | STRING (sval : List Char)
  | IDENTIFIER (sval : List Char)
deriving DecidableEq, Repr

structure Scanner where
  start : StartCond
  strbuf : List Char
  /-- What has been printed. -/
  errors : List String
deriving DecidableEq, Repr

inductive Next where
  | scan
  | token (token : Token)
  /-- `return 0`. -/
  | stop
deriving DecidableEq, Repr

abbrev Action : Type := List Char → Scanner → Scanner × Next

abbrev Rule : Type := LexRule StartCond Char Action

def cStr (text : List Char) : List Char := text.takeWhile (· ≠ '\x00')

def LLONG_MAX : ℕ := 2 ^ 63 - 1

def LLONG_MIN : ℤ := -2 ^ 63

/-- `strtoll` with base 0, of digits: the base is 8 behind a zero, and a number over the limit sets
`errno`. -/
def strtoll (digits : List Char) : ℤ × Bool :=
  let base := if digits.head? = some '0' then 8 else 10
  let value := Nat.ofDigitChars base (digits.takeWhile fun char => char.toNat < '0'.toNat + base) 0
  if value ≤ LLONG_MAX then (value, false) else (LLONG_MAX, true)

/-! ## Patterns -/

def isBlank (char : Char) : Bool := char = ' ' || char = '\t' || char = '\n'

def isWord (text : String) (word : List Char) : Bool := word.map Char.toUpper = text.toList

def areWords (first second : String) (word : List Char) : Bool :=
  let rest := word.drop first.length
  isWord first (word.take first.length) && rest.head?.any isBlank &&
    isWord second (rest.dropWhile isBlank)

/-- `[-+*/(){},.;<>=^%:?[\]|]`. -/
def singleChars : List Char := "-+*/()\x7b\x7d,.;<>=^%:?[]|".toList

def isFloat (word : List Char) : Bool :=
  word.head?.any Char.isDigit &&
    match word.dropWhile Char.isDigit with
    | '.' :: decimals => decimals.all Char.isDigit
    | _ => false

/-- A character between two quotes, or more of them. -/
def isDoubleQuoted (word : List Char) : Bool :=
  2 < word.length && word.head? = some '"' && word.getLast? = some '"' &&
    (word.tail.dropLast.all fun char => char ≠ '"' && char ≠ '\n')

def isIdentifier (word : List Char) : Bool :=
  word.head?.any Char.isAlpha && word.all fun char => char.isAlphanum || char = '_'

/-! ## Rules -/

def inclusive : StartCond → Bool
  | .singlequotedstring => false
  | _ => true

def skip : Action := fun _ scanner => (scanner, .scan)

def begin (start : StartCond) : Action := fun _ scanner => ({ scanner with start := start }, .scan)

def give (token : List Char → Token) : Action := fun yytext scanner =>
  (scanner, .token (token yytext))

def spaceRules : List Rule :=
  [⟨inclusive, fun word => word = ['-', '-'], begin .COMMENT⟩,
    ⟨fun start => start = .COMMENT, fun word => word.all (· ≠ '\n'), skip⟩,
    ⟨fun start => start = .COMMENT, fun word => word = ['\n'], begin .INITIAL⟩,
    ⟨inclusive, fun word => word ≠ [] && word.all isBlank, skip⟩]

def words : List String :=
  ["ADD", "AFTER", "ALL", "ALTER", "ANALYZE", "AND", "ARRAY", "AS", "ASC", "AUTO_INCREMENT", "AVG",
    "AVERAGE", "BEFORE", "BEGIN", "BETWEEN", "BIGINT", "BLOB", "BOOLEAN", "BY", "CALL", "CASCADE",
    "CASE", "CAST", "CHAR", "COLUMN", "COLUMNS", "COMMIT", "COMMENT", "CONTROL", "COPY", "COUNT",
    "CREATE", "CROSS", "DATABASE", "DATABASES", "DATE", "DATETIME", "DAY", "DAYS", "DEALLOCATE",
    "DECIMAL", "DEFAULT", "DELETE", "DELTA", "DESC", "DESCRIBE", "DIRECT", "DISTINCT", "DOUBLE",
    "DROP", "ELSE", "END", "ESCAPE", "EXCEPT", "EXECUTE", "EXISTS", "EXPLAIN", "EXTRACT", "FALSE",
    "FILE", "FLOAT", "FOLLOWING", "FOR", "FORMAT", "FROM", "FULL", "GLOBAL", "GROUP", "GROUPS",
    "HASH", "HAVING", "HINT", "HOUR", "HOURS", "IF", "ILIKE", "IMPORT", "IN", "INDEX", "INNER",
    "INSERT", "INT", "INTEGER", "INTERSECT", "INTERVAL", "INTO", "IS", "ISNULL", "JOIN", "KEY",
    "LEFT", "LIKE", "LIMIT", "LOAD", "LOCAL", "LOCKED", "LONG", "MAX", "MERGE", "MIN", "MINUS",
    "MINUTE", "MINUTES", "MONTH", "MONTHS", "NATURAL", "NO", "NOT", "NOWAIT", "NULL", "NVARCHAR",
    "OF", "OFF", "OFFSET", "ON", "OR", "ORDER", "OUTER", "OVER", "PARAMETERS", "PARTITION", "PLAN",
    "PRECEDING", "PREPARE", "PRIMARY", "RANGE", "REAL", "RENAME", "RESTRICT", "RIGHT", "ROLLBACK",
    "ROWS", "SCHEMA", "SCHEMAS", "SECOND", "SECONDS", "SELECT", "SET", "SHARE", "SHOW", "SKIP",
    "SMALLINT", "SORTED", "SPATIAL", "START", "SUM", "TABLE", "TABLES", "TEMPORARY", "TEXT", "THEN",
    "TIME", "TIMESTAMP", "TO", "TOP", "TRANSACTION", "TRUE", "TRUNCATE", "UNBOUNDED", "UNION",
    "UNIQUE", "UNLOAD", "UPDATE", "UPSERT", "USE", "USING", "VALUES", "VARCHAR", "VIEW", "VIRTUAL",
    "WHEN", "WHERE", "WITH", "YEAR", "YEARS"]

/-- `TOKEN` of a word. -/
def wordToken (text : String) : String := if text = "AVG" then "AVERAGE" else text

def wordRule (text : String) : Rule :=
  ⟨inclusive, isWord text, give fun _ => .word (wordToken text)⟩

def operatorRule (text name : String) : Rule :=
  ⟨inclusive, fun word => word = text.toList, give fun _ => .word name⟩

def operatorRules : List Rule :=
  [⟨inclusive, areWords "CURRENT" "ROW", give fun _ => .word "CURRENT_ROW"⟩,
    ⟨inclusive, areWords "CHARACTER" "VARYING", give fun _ => .word "CHARACTER_VARYING"⟩,
    operatorRule "==" "EQ", operatorRule "!=" "NE", operatorRule "<>" "NE", operatorRule "<=" "LE",
    operatorRule ">=" "GE", operatorRule "||" "OR", operatorRule "&&" "AND",
    ⟨inclusive, fun word => word.length = 1 && word.all (· ∈ singleChars),
      give fun yytext => .code ((yytext.headD '\x00').toNat)⟩]

def floatRules : List Rule :=
  [⟨inclusive, isFloat, give .FLOATVAL⟩,
    ⟨inclusive, fun word => word.head? = some '.' && word.tail.all Char.isDigit, give .FLOATVAL⟩,
    ⟨inclusive, fun word => word = "-9223372036854775808".toList,
      give fun _ => .INTVAL LLONG_MIN⟩]

def outOfRange : String := "[SQL-Lexer-Error] Integer cannot be parsed - is it out of range?"

def integerRule : Rule :=
  ⟨inclusive, fun word => word ≠ [] && word.all Char.isDigit, fun yytext scanner =>
    match strtoll yytext with
    | (_, true) =>
        -- what is returned is the number of the characters that have been printed
        ({ scanner with errors := scanner.errors ++ [outOfRange] },
          .token (.code outOfRange.length))
    | (ival, false) => (scanner, .token (.INTVAL ival))⟩

def doubleQuotedRule : Rule :=
  ⟨inclusive, isDoubleQuoted, give fun yytext =>
    -- from the second character on, as many as there are without one
    .STRING (((cStr yytext).drop 1).take ((cStr yytext).length - 1))⟩

def identifierRule : Rule :=
  ⟨inclusive, isIdentifier, give fun yytext => .IDENTIFIER (cStr yytext)⟩

def openRule : Rule :=
  ⟨inclusive, fun word => word = ['\''], fun _ scanner =>
    ({ scanner with start := .singlequotedstring, strbuf := [] }, .scan)⟩

def inString (start : StartCond) : Bool := start = .singlequotedstring

def twoQuotesRule : Rule :=
  ⟨inString, fun word => word = ['\'', '\''], fun _ scanner =>
    ({ scanner with strbuf := scanner.strbuf ++ ['\''] }, .scan)⟩

def pieceRule : Rule :=
  ⟨inString, fun word => word.all (· ≠ '\''), fun yytext scanner =>
    ({ scanner with strbuf := scanner.strbuf ++ cStr yytext }, .scan)⟩

def closeRule : Rule :=
  ⟨inString, fun word => word = ['\''], fun _ scanner =>
    ({ scanner with start := .INITIAL }, .token (.STRING (cStr scanner.strbuf)))⟩

def unknownRule : Rule :=
  ⟨inclusive, fun word => word.length = 1 && word.all (· ≠ '\n'), fun yytext scanner =>
    ({ scanner with
        errors := scanner.errors ++
          ["[SQL-Lexer-Error] Unknown Character: " ++ String.ofList (yytext.take 1)] },
      .stop)⟩

/-- The rules up to those of integers and strings. -/
def earlyRules : List Rule := spaceRules ++ words.map wordRule ++ operatorRules ++ floatRules

def rules : List Rule :=
  earlyRules ++
    [integerRule, doubleQuotedRule, identifierRule, openRule, twoQuotesRule, pieceRule, closeRule,
      unknownRule]

/-! ## Scanning -/

/-- The tokens of a text, up to the first 0, and what is printed. -/
structure Lexed where
  tokens : List Token
  errors : List String
deriving DecidableEq, Repr

def Lexed.cons (token : Token) (lexed : Lexed) : Lexed :=
  { lexed with tokens := token :: lexed.tokens }

/-- Calls of `yylex` until it returns 0; there is no result when the fuel runs out. -/
def scan : ℕ → Scanner → List Char → Option Lexed
  | 0, _, _ => none
  | _ + 1, scanner, [] =>
      some
        { tokens := []
          errors :=
            if scanner.start = .singlequotedstring then
              scanner.errors ++ ["[SQL-Lexer-Error] Unterminated string"]
            else
              scanner.errors }
  | fuel + 1, scanner, char :: input =>
      match LexRule.choose scanner.start (char :: input) rules with
      | none => scan fuel scanner input
      | some (length, action) =>
          let (scanner', next) := action ((char :: input).take length) scanner
          match next with
          | .scan => scan fuel scanner' ((char :: input).drop length)
          | .token token =>
              (scan fuel scanner' ((char :: input).drop length)).map (Lexed.cons token)
          | .stop => some { tokens := [], errors := scanner'.errors }

def lex (text : List Char) : Option Lexed :=
  scan (text.length + 1) { start := .INITIAL, strbuf := [], errors := [] } text

end FlexLexer

end RapidDb
