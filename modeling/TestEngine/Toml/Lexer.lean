import TestEngine.Text.Character

/-!
# Tokens of a settings file

The lexer takes one character at a time; where it stands is a `Lexer.Place`. Comments end here:
only the line end behind one is a token. Blanks are tokens, since a single space may stand between
a day and its time.
-/

namespace TestEngine.Toml

inductive Token where
  | dot
  | equals
  | comma
  | openSquare
  | closeSquare
  | openBrace
  | closeBrace
  | space
  | tab
  | lineEnd
  /-- A bare key, or a part of a value that is written as one word. -/
  | bare (s : String)
  /-- A text on one line. -/
  | quoted (s : String)
  /-- A text between triple marks. -/
  | block (s : String)
  deriving DecidableEq, Inhabited, Repr

namespace Lexer

/-- The mark around a text. Only in a basic one is the backslash special. -/
inductive Mark where
  | basic
  | literal
  deriving DecidableEq, Repr

def Mark.char : Mark → Char
  | .basic => '"'
  | .literal => '\''

/-- Where the lexer stands. What was read of the token at hand is kept in reverse. -/
inductive Place where
  | between
  | bare (read : List Char)
  | comment
  /-- Behind a carriage return outside of texts: a line feed has to follow. -/
  | carriage
  /-- Behind the first mark of a text. -/
  | oneMark (m : Mark)
  /-- Behind two marks: they are an empty text or the beginning of a triple one. -/
  | twoMarks (m : Mark)
  /-- In a text on one line. -/
  | line (m : Mark) (read : List Char)
  /-- Right behind the triple mark that opens a block, where a line end is dropped. -/
  | blockStart (m : Mark)
  | blockStartCarriage (m : Mark)
  /-- In a block; `marks` marks in a row were read last. -/
  | block (m : Mark) (read : List Char) (marks : Nat)
  | blockCarriage (m : Mark) (read : List Char)
  /-- Behind a backslash. -/
  | escape (inBlock : Bool) (read : List Char)
  /-- In an escape that names a code point: the digits to come and the value of those read. -/
  | code (inBlock : Bool) (read : List Char) (left : Nat) (value : Nat)
  /-- Behind a backslash at the end of a line of a block, where blanks and line ends are dropped. -/
  | fold (read : List Char) (lineEnded : Bool)
  | foldCarriage (read : List Char)

/-- The tokens read so far, last first. -/
structure State where
  place : Place
  tokens : List Token

/-- A character of a word. -/
def isBare (c : Char) : Bool := c.isAlphanum || c == '_' || c == '-' || c == '+' || c == ':'

/-- A character that a text or a comment may hold as it is: no control character but the tab. -/
def isPlain (c : Char) : Bool := c == '\t' || (0x20 ≤ c.toNat && c.toNat != 0x7F)

def spelled (read : List Char) : String := String.ofList read.reverse

/-- A character between tokens. -/
def stepBetween (tokens : List Token) (c : Char) : Option State :=
  match c with
  | '.' => some ⟨.between, .dot :: tokens⟩
  | '=' => some ⟨.between, .equals :: tokens⟩
  | ',' => some ⟨.between, .comma :: tokens⟩
  | '[' => some ⟨.between, .openSquare :: tokens⟩
  | ']' => some ⟨.between, .closeSquare :: tokens⟩
  | '\x7b' => some ⟨.between, .openBrace :: tokens⟩
  | '\x7d' => some ⟨.between, .closeBrace :: tokens⟩
  | ' ' => some ⟨.between, .space :: tokens⟩
  | '\t' => some ⟨.between, .tab :: tokens⟩
  | '\n' => some ⟨.between, .lineEnd :: tokens⟩
  | '\r' => some ⟨.carriage, tokens⟩
  | '#' => some ⟨.comment, tokens⟩
  | '"' => some ⟨.oneMark .basic, tokens⟩
  | '\'' => some ⟨.oneMark .literal, tokens⟩
  | c => if isBare c then some ⟨.bare [c], tokens⟩ else none

/-- A character of a text on one line. -/
def stepLine (m : Mark) (read : List Char) (tokens : List Token) (c : Char) : Option State :=
  if c = m.char then some ⟨.between, .quoted (spelled read) :: tokens⟩
  else if m = .basic ∧ c = '\\' then some ⟨.escape false read, tokens⟩
  else if isPlain c then some ⟨.line m (c :: read), tokens⟩
  else none

/-- A character of a block. The last three of up to five marks in a row close it. -/
def stepBlock (m : Mark) (read : List Char) (marks : Nat) (tokens : List Token) (c : Char) :
    Option State :=
  if c = m.char ∧ marks < 5 then some ⟨.block m read (marks + 1), tokens⟩
  else if 3 ≤ marks then
    stepBetween (.block (spelled (List.replicate (marks - 3) m.char ++ read)) :: tokens) c
  else
    let read := List.replicate marks m.char ++ read
    if m = .basic ∧ c = '\\' then some ⟨.escape true read, tokens⟩
    else if c = '\r' then some ⟨.blockCarriage m read, tokens⟩
    else if c = '\n' ∨ isPlain c then some ⟨.block m (c :: read) 0, tokens⟩
    else none

/-- Goes on in a text behind an escape. -/
def resume (inBlock : Bool) (read : List Char) : Place :=
  if inBlock then .block .basic read 0 else .line .basic read

/-- The character of a short escape. -/
def escaped? : Char → Option Char
  | 'b' => some (Char.ofNat 8)
  | 't' => some '\t'
  | 'n' => some '\n'
  | 'f' => some (Char.ofNat 12)
  | 'r' => some '\r'
  | 'e' => some (Char.ofNat 27)
  | '"' => some '"'
  | '\\' => some '\\'
  | _ => none

/-- The number of digits behind the letter of an escape that names a code point. -/
def codeLength? : Char → Option Nat
  | 'x' => some 2
  | 'u' => some 4
  | 'U' => some 8
  | _ => none

/-- A character behind a backslash. -/
def stepEscape (inBlock : Bool) (read : List Char) (tokens : List Token) (c : Char) :
    Option State :=
  match escaped? c, codeLength? c with
  | some e, _ => some ⟨resume inBlock (e :: read), tokens⟩
  | none, some n => some ⟨.code inBlock read n 0, tokens⟩
  | none, none =>
    if !inBlock then none
    else match c with
      | ' ' | '\t' => some ⟨.fold read false, tokens⟩
      | '\n' => some ⟨.fold read true, tokens⟩
      | '\r' => some ⟨.foldCarriage read, tokens⟩
      | _ => none

/-- The character of a code point, which must not be one half of a surrogate pair. -/
def character? (n : Nat) : Option Char :=
  if n.isValidChar then some (Char.ofNat n) else none

/-- One character. -/
def step (st : State) (c : Char) : Option State :=
  match st.place with
  | .between => stepBetween st.tokens c
  | .bare read =>
    if isBare c then some ⟨.bare (c :: read), st.tokens⟩
    else stepBetween (.bare (spelled read) :: st.tokens) c
  | .comment =>
    if c = '\n' then some ⟨.between, .lineEnd :: st.tokens⟩
    else if c = '\r' then some ⟨.carriage, st.tokens⟩
    else if isPlain c then some st
    else none
  | .carriage => if c = '\n' then some ⟨.between, .lineEnd :: st.tokens⟩ else none
  | .oneMark m => if c = m.char then some ⟨.twoMarks m, st.tokens⟩ else stepLine m [] st.tokens c
  | .twoMarks m =>
    if c = m.char then some ⟨.blockStart m, st.tokens⟩
    else stepBetween (.quoted "" :: st.tokens) c
  | .line m read => stepLine m read st.tokens c
  | .blockStart m =>
    if c = '\n' then some ⟨.block m [] 0, st.tokens⟩
    else if c = '\r' then some ⟨.blockStartCarriage m, st.tokens⟩
    else stepBlock m [] 0 st.tokens c
  | .blockStartCarriage m => if c = '\n' then some ⟨.block m [] 0, st.tokens⟩ else none
  | .block m read marks => stepBlock m read marks st.tokens c
  | .blockCarriage m read =>
    if c = '\n' then some ⟨.block m ('\n' :: '\r' :: read) 0, st.tokens⟩ else none
  | .escape inBlock read => stepEscape inBlock read st.tokens c
  | .code inBlock read left value => do
    let n := 16 * value + (← Hexadecimal.value? c)
    if left ≤ 1 then some ⟨resume inBlock ((← character? n) :: read), st.tokens⟩
    else some ⟨.code inBlock read (left - 1) n, st.tokens⟩
  | .fold read lineEnded =>
    if c = ' ' ∨ c = '\t' then some st
    else if c = '\n' then some ⟨.fold read true, st.tokens⟩
    else if c = '\r' then some ⟨.foldCarriage read, st.tokens⟩
    else if lineEnded then stepBlock .basic read 0 st.tokens c
    else none
  | .foldCarriage read => if c = '\n' then some ⟨.fold read true, st.tokens⟩ else none

/-- The end of the text, which ends the last line. -/
def finish (st : State) : Option (List Token) :=
  match st.place with
  | .carriage => none
  | _ =>
    match step st '\n' with
    | some ⟨.between, tokens⟩ => some tokens.reverse
    | _ => none

/-- A text without the byte order mark that it may begin with. -/
def withoutMark : List Char → List Char
  | '\uFEFF' :: rest => rest
  | cs => cs

/-- The tokens of a text. -/
def tokens? (s : String) : Option (List Token) :=
  (withoutMark s.toList).foldlM step ⟨.between, []⟩ >>= finish

end Lexer

end TestEngine.Toml
