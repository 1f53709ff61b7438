/-
  TokenGrammar.Grammar.Basic

  Grammars: the rules of a language and the words that they mention.  A grammar
  is compiled from a source with one rule to a line, such as

      ROOT := pair* EOF
      pair := ID "=" [ NUMBER | STRING ] ";"!
-/
import TokenGrammar.Grammar.Draft
import TokenGrammar.Lexer.Tokenize

namespace TokenGrammar

/-- The rules of a language, and its symbols and keywords, longest first. -/
structure Grammar where
  rules : RuleTable
  symbols : List String
  keywords : List String
  deriving DecidableEq

namespace Grammar

/-- The signs of the grammar notation. -/
def signs : List String := [":=", "?", "[", "]", "*", "|", "$", "!", "~"]

/-- The lexer for the sources of grammars. -/
def sourceLexer : Lexer :=
  Lexer.base
    |>.withSymbols signs
    |>.withKeywords (Category.all.map Category.tag)
    |>.withQuotes literalQuotes
    |>.withLineComment "#"

/-- The grammar with some rules.  Its symbols and keywords are the literals of
    the rules. -/
def ofRules (rules : RuleTable) : Grammar :=
  ⟨rules, symbolicWords rules.literals, keywordWords rules.literals⟩

/-- The grammar that a source describes. -/
def compile (source : String) : Except GrammarError Grammar :=
  (RuleTable.ofTokens (sourceLexer.tokenize source)).map ofRules

/-- A lexer for the language of the grammar. -/
def lexer (grammar : Grammar) : Lexer :=
  Lexer.base.withSymbols grammar.symbols |>.withKeywords grammar.keywords

end Grammar

end TokenGrammar
