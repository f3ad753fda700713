import TestEngine.Toml.Lexer
import TestEngine.Toml.Scalar
import TestEngine.Toml.Value

/-!
# Reading a settings file

The reader takes one token at a time. It keeps the table that the lines define, the header that the
lines are below of, the brackets that are open, innermost first, and what may come next.

Words are values only once their end is seen: a number has its point among its tokens, and a day
may be followed by a space and a time.
-/

namespace TestEngine.Toml

namespace Reader

/-- What a key is read for. -/
inductive KeyUse where
  /-- A line that sets the key. -/
  | line
  /-- An entry between braces. -/
  | entry
  /-- The header of a table. -/
  | header
  /-- The header of the next table of a list. -/
  | itemHeader
  deriving DecidableEq, Repr

/-- What may come next. Keys are kept as their parts, last first. -/
inductive Next where
  | line
  /-- What follows the bracket that opens a header. -/
  | header
  /-- A part of a key. -/
  | part (use : KeyUse) (read : List String)
  /-- A dot, or what ends a key. -/
  | afterPart (use : KeyUse) (read : List String)
  /-- The second bracket that closes the header of a list's table. -/
  | headerEnd (key : List String)
  | lineEnd
  /-- What follows the key of an entry on a later line: the equals sign. -/
  | equals (key : List String)
  /-- A value on this line. -/
  | value
  /-- A value on this line or a later one. -/
  | entryValue
  /-- A value or the closing bracket of a list. -/
  | item
  /-- A key or the closing brace of a table. -/
  | entry
  /-- A comma or the closing bracket or brace. -/
  | separator
  /-- The rest of a word. -/
  | word (read : String)
  /-- The time of a day that was read, behind a space. -/
  | time (day : String)

/-- Brackets that are open. -/
inductive Open where
  /-- A list with the items read so far, last first. -/
  | list (items : List Toml)
  /-- A table between braces with the entries read so far, and the key at hand, last part first. -/
  | braces (draft : Draft) (key : List String)

structure State where
  root : Draft
  /-- The path of the table that lines add to. -/
  header : List String
  /-- The key of the line at hand, last part first. -/
  key : List String
  brackets : List Open
  next : Next

/-- How deep brackets may be nested. -/
def maxDepth : Nat := 80

/-- How many parts a key may have. -/
def maxParts : Nat := 80

def start : State := ⟨Draft.empty, [], [], [], .line⟩

namespace State

/-- A value is complete. -/
def place (st : State) (v : Toml) : Option State :=
  match st.brackets with
  | [] =>
    match st.key with
    | [] => none
    | last :: front =>
      (st.root.descend false (Draft.define front.reverse last v) st.header).map fun root =>
        { st with root, next := .lineEnd }
  | .list items :: outer =>
    some { st with brackets := .list (v :: items) :: outer, next := .separator }
  | .braces _ [] :: _ => none
  | .braces draft (last :: front) :: outer =>
    (draft.define front.reverse last v).map fun draft =>
      { st with brackets := .braces draft [] :: outer, next := .separator }

/-- A header is complete. -/
def enter (st : State) (key : List String)
    (opening : List String → String → Draft → Option Draft) : Option State :=
  match key with
  | [] => none
  | last :: front =>
    (opening front.reverse last st.root).map fun root =>
      { st with root, header := key.reverse, next := .lineEnd }

/-- A key is complete and its value follows. -/
def setKey (st : State) (use : KeyUse) (key : List String) : Option State :=
  match use, st.brackets with
  | .line, [] => some { st with key, next := .value }
  | .entry, .braces draft _ :: outer =>
    some { st with brackets := .braces draft key :: outer, next := .entryValue }
  | _, _ => none

/-- A bracket or brace opens. -/
def push (st : State) (o : Open) (next : Next) : Option State :=
  if st.brackets.length < maxDepth then some { st with brackets := o :: st.brackets, next }
  else none

/-- The innermost bracket or brace closes. -/
def close (st : State) (t : Token) : Option State :=
  match st.brackets, t with
  | .list items :: outer, .closeSquare =>
    { st with brackets := outer }.place (.list items.reverse)
  | .braces draft _ :: outer, .closeBrace => { st with brackets := outer }.place draft.toValue
  | _, _ => none

/-- A comma between brackets or braces. -/
def comma (st : State) : Option State :=
  match st.brackets with
  | .list _ :: _ => some { st with next := .item }
  | .braces .. :: _ => some { st with next := .entry }
  | [] => none

end State

/-- The text of a part of a key. -/
def keyPart? : Token → Option String
  | .quoted s => some s
  | .bare s => if s.toList.all fun c => c != '+' && c != ':' then some s else none
  | _ => none

/-- The first token of a value. -/
def stepValue (st : State) : Token → Option State
  | .space | .tab => some st
  | .openSquare => st.push (.list []) .item
  | .openBrace => st.push (.braces Draft.empty []) .entry
  | .quoted s | .block s => st.place (.text s)
  | .bare s => some { st with next := .word s }
  | _ => none

/-- A part of a key. -/
def stepPart (st : State) (use : KeyUse) (read : List String) (t : Token) : Option State :=
  match t with
  | .space | .tab => some { st with next := .part use read }
  | t => (keyPart? t).map fun s => { st with next := .afterPart use (s :: read) }

/-- What follows a part of a key. -/
def stepAfterPart (st : State) (use : KeyUse) (read : List String) (t : Token) : Option State :=
  match t, use with
  | .space, _ | .tab, _ => some st
  | .dot, _ => if read.length < maxParts then some { st with next := .part use read } else none
  | .lineEnd, .entry => some { st with next := .equals read }
  | .equals, _ => st.setKey use read
  | .closeSquare, .header => st.enter read Draft.openTable
  | .closeSquare, .itemHeader => some { st with next := .headerEnd read }
  | _, _ => none

/-- A token that is no part of a word. -/
def stepApart (st : State) (t : Token) : Option State :=
  match st.next, t with
  | .line, .space | .line, .tab | .line, .lineEnd => some st
  | .line, .openSquare => some { st with next := .header }
  | .line, t => stepPart st .line [] t
  | .header, .openSquare => some { st with next := .part .itemHeader [] }
  | .header, t => stepPart st .header [] t
  | .part use read, t => stepPart st use read t
  | .afterPart use read, t => stepAfterPart st use read t
  | .headerEnd key, .closeSquare => st.enter key Draft.openItem
  | .lineEnd, .space | .lineEnd, .tab => some st
  | .lineEnd, .lineEnd => some { st with next := .line }
  | .equals _, .space | .equals _, .tab | .equals _, .lineEnd => some st
  | .equals key, .equals => st.setKey .entry key
  | .value, t => stepValue st t
  | .entryValue, .lineEnd => some st
  | .entryValue, t => stepValue st t
  | .item, .lineEnd => some st
  | .item, .closeSquare => st.close .closeSquare
  | .item, t => stepValue st t
  | .entry, .space | .entry, .tab | .entry, .lineEnd => some st
  | .entry, .closeBrace => st.close .closeBrace
  | .entry, t => stepPart st .entry [] t
  | .separator, .space | .separator, .tab | .separator, .lineEnd => some st
  | .separator, .comma => st.comma
  | .separator, t => st.close t
  | _, _ => none

/-- A word ends before a token. -/
def stepBehind (st : State) (word : String) (t : Token) : Option State := do
  stepApart (← st.place (← scalar? word)) t

/-- One token. -/
def step (st : State) (t : Token) : Option State :=
  match st.next, t with
  | .word read, .bare s => some { st with next := .word (read ++ s) }
  | .word read, .dot => some { st with next := .word (read ++ ".") }
  | .word read, .space =>
    if Moment.isDayForm read then some { st with next := .time read } else stepBehind st read .space
  | .word read, t => stepBehind st read t
  | .time day, .bare s =>
    some { st with next := .word (day ++ " " ++ s) }
  | .time day, t => stepBehind st day t
  | _, t => stepApart st t

/-- The table that a list of tokens spells. -/
def table? (tokens : List Token) : Option Entries :=
  match tokens.foldlM step start with
  | some { next := .line, root := .table _ entries, .. } => some (Draft.toEntries entries)
  | _ => none

end Reader

/-- The table that a text spells. -/
def parse? (s : String) : Option Entries := Lexer.tokens? s >>= Reader.table?

end TestEngine.Toml
