/-
The words of the scripting language.

White space and comments are dropped.  What is left are keywords, identifiers, numbers, strings,
operators and punctuation.  A keyword is registered before identifiers, so that it wins over the
identifier of the same length.
-/
import ScriptLang.Token.Lexer

namespace ScriptLang.Grammar

/-- The reserved words. -/
def keywords : List String :=
  [ "var", "function", "class", "extends", "constructor", "new", "return", "if", "else", "while",
    "do", "for", "switch", "case", "default", "break", "continue", "goto", "this", "super", "null",
    "true", "false", "public", "private", "protected", "static", "get", "set" ]

/-- The operators. -/
def operators : List String :=
  [ "+", "-", "*", "/", "%", "=", "==", "!=", "===", "!==", "<", ">", "<=", ">=", "&&", "||", "!",
    "&", "|", "^", "~", "<<", ">>", "++", "--", "+=", "-=", "*=", "/=", "%=", "&&=", "||=", "??",
    "??=", "?", "=>" ]

/-- The punctuation characters. -/
def punctuation : String := "()\x7b\x7d[];,.:#"

/-- A run of white space. -/
def whitespace : Rule := (Rule.chars " \t\r\n").some

/-- A comment up to the end of its line. -/
def lineComment : Rule := .seq (.literal "//") (Rule.except "\n").many

/-- A comment between brackets of its own, up to the first closing one. -/
def blockComment : Rule :=
  let stars := (Rule.chars "*").some
  let body := (Rule.except "*").many
  .sequence
    [ .literal "/*", body, stars, (Rule.sequence [.except "/*", body, stars]).many, .literal "/" ]

/-- One of the reserved words. -/
def keyword : Rule := .alternatives (keywords.map Rule.literal)

/-- A character that can start an identifier. -/
def identifierStart : Rule := .alt (.alt (.range 'a' 'z') (.range 'A' 'Z')) (.chars "_$")

/-- A name. -/
def identifier : Rule :=
  .seq identifierStart (Rule.alt identifierStart (.range '0' '9')).many

/-- A number with an optional fraction and an optional exponent. -/
def number : Rule :=
  let digits := (Rule.range '0' '9').some
  .sequence
    [ digits, (Rule.seq (.literal ".") digits).optional,
      (Rule.sequence [.chars "eE", (Rule.chars "+-").optional, digits]).optional ]

/-- A string between the given quotes, in which a backslash takes the character after it along. -/
def stringBetween (quote : Char) : Rule :=
  .sequence
    [ .literal (String.singleton quote),
      (Rule.alt (.except (String.ofList [quote, '\\', '\n'])) (.seq (.literal "\\") .any)).many,
      .literal (String.singleton quote) ]

/-- A string between double or single quotes. -/
def string : Rule := .alt (stringBetween '"') (stringBetween '\'')

/-- One of the operators. -/
def operator : Rule := .alternatives (operators.map Rule.literal)

/-- The kinds of words, in order of registration. -/
def lexemes : List Lexeme :=
  [ ⟨"whitespace", whitespace, true⟩,
    ⟨"line-comment", lineComment, true⟩,
    ⟨"block-comment", blockComment, true⟩,
    ⟨"keyword", keyword, false⟩,
    ⟨"identifier", identifier, false⟩,
    ⟨"number", number, false⟩,
    ⟨"string", string, false⟩,
    ⟨"operator", operator, false⟩,
    ⟨"punctuation", .chars punctuation, false⟩ ]

end ScriptLang.Grammar
