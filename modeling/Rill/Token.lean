-- SUMMARY: Tokens of the language: keywords, symbols and literals, with their spellings.
import Rill.Source
import Rill.Decimal.FloatText

/-!
# Tokens

The kinds of lexeme the grammar is written over. Keywords and symbols have one fixed spelling each;
integer literals are unsigned, a leading minus sign belongs to the grammar.
-/

namespace Rill

/-- A reserved word. -/
inductive Keyword
  | andKw | asKw | assertKw | breakKw | continueKw | debugKw | doKw | downtoKw | elseKw | elsifKw
  | endKw | falseKw | forKw | foreachKw | functionKw | ifKw | inKw | localKw | nanKw | notKw | nullKw
  | optionKw | orKw | passKw | printKw | refKw | repeatKw | returnKw | stepKw | thenKw | throwKw | toKw
  | trueKw | untilKw | whileKw
  deriving Repr, DecidableEq

def Keyword.spelling : Keyword → String
  | .andKw => "and"
  | .asKw => "as"
  | .assertKw => "assert"
  | .breakKw => "break"
  | .continueKw => "continue"
  | .debugKw => "debug"
  | .doKw => "do"
  | .downtoKw => "downto"
  | .elseKw => "else"
  | .elsifKw => "elsif"
  | .endKw => "end"
  | .falseKw => "false"
  | .forKw => "for"
  | .foreachKw => "foreach"
  | .functionKw => "function"
  | .ifKw => "if"
  | .inKw => "in"
  | .localKw => "local"
  | .nanKw => "nan"
  | .notKw => "not"
  | .nullKw => "null"
  | .optionKw => "option"
  | .orKw => "or"
  | .passKw => "pass"
  | .printKw => "print"
  | .refKw => "ref"
  | .repeatKw => "repeat"
  | .returnKw => "return"
  | .stepKw => "step"
  | .thenKw => "then"
  | .throwKw => "throw"
  | .toKw => "to"
  | .trueKw => "true"
  | .untilKw => "until"
  | .whileKw => "while"

/-- Every reserved word. -/
def Keyword.all : List Keyword :=
  [.andKw, .asKw, .assertKw, .breakKw, .continueKw, .debugKw, .doKw, .downtoKw, .elseKw, .elsifKw,
   .endKw, .falseKw, .forKw, .foreachKw, .functionKw, .ifKw, .inKw, .localKw, .nanKw, .notKw, .nullKw,
   .optionKw, .orKw, .passKw, .printKw, .refKw, .repeatKw, .returnKw, .stepKw, .thenKw, .throwKw, .toKw,
   .trueKw, .untilKw, .whileKw]

/-- The reserved word with a given spelling. -/
def Keyword.ofSpelling? (text : String) : Option Keyword :=
  Keyword.all.find? (·.spelling == text)

/-- An operator or a punctuation mark. -/
inductive Mark
  | assign | plusAssign | minusAssign | starAssign | slashAssign | caretAssign | percentAssign | ampAssign
  | plus | minus | star | slash | caret | percent | amp
  | eqEq | notEq | lt | ltEq | gt | gtEq | spaceship | atSign
  | lParen | rParen | lBracket | rBracket | lBrace | rBrace
  | comma | colon | dot | semicolon
  deriving Repr, DecidableEq

def Mark.spelling : Mark → String
  | .assign => "="
  | .plusAssign => "+="
  | .minusAssign => "-="
  | .starAssign => "*="
  | .slashAssign => "/="
  | .caretAssign => "^="
  | .percentAssign => "%="
  | .ampAssign => "&="
  | .plus => "+"
  | .minus => "-"
  | .star => "*"
  | .slash => "/"
  | .caret => "^"
  | .percent => "%"
  | .amp => "&"
  | .eqEq => "=="
  | .notEq => "!="
  | .lt => "<"
  | .ltEq => "<="
  | .gt => ">"
  | .gtEq => ">="
  | .spaceship => "<=>"
  | .atSign => "@"
  | .lParen => "("
  | .rParen => ")"
  | .lBracket => "["
  | .rBracket => "]"
  | .lBrace => "\x7b"
  | .rBrace => "\x7d"
  | .comma => ","
  | .colon => ":"
  | .dot => "."
  | .semicolon => ";"

/-- What a token is. `eol` ends a line, `eof` the text. -/
inductive TokenKind
  | int (value : Nat)
  | float (value : Float)
  | str (text : String)
  | ident (name : String)
  | keyword (word : Keyword)
  | mark (m : Mark)
  | eol
  | eof
  deriving Repr, DecidableEq

/-- Source spelling of fixed tokens; empty for literals, names and line ends. -/
def TokenKind.spelling : TokenKind → String
  | .keyword w => w.spelling
  | .mark m => m.spelling
  | _ => ""

/-- A text between double quotes. -/
def quoted (text : String) : String := "\"" ++ text ++ "\""

/-- How an error message names a token. -/
def TokenKind.describe : TokenKind → String
  | .int n => "integer " ++ toString n
  | .float x => "float " ++ Decimal.plainForm.write x
  | .str _ => "string literal"
  | .ident name => "identifier " ++ quoted name
  | .eol => "end of line"
  | .eof => "end of file"
  | .keyword w => quoted w.spelling
  | .mark m => quoted m.spelling

/-- One lexeme: its kind, its span and the line it starts on. -/
structure Token where
  kind : TokenKind
  span : Span
  line : Nat
  deriving Repr, DecidableEq

/-- Statements are separated by line ends and semicolons. -/
def Token.isSeparator (t : Token) : Bool :=
  match t.kind with
  | .eol | .mark .semicolon => true
  | _ => false

end Rill
