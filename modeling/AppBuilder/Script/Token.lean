import AppBuilder.Json.Parser
import AppBuilder.Text.Blank

/-!
The words of scripts.

`Script.tokens` cuts a text into tokens, each with its position. Text in back quotes may
hold code: it is cut into pieces, each followed by the tokens of its code, up to the
last piece. The list always ends with the end of the text or with a malformed token,
whose message is given only once the token is needed.
-/

namespace AppBuilder.Script

/-! ### Positions -/

/-- A place in a text; lines and columns count from one. -/
structure Pos where
  line : Nat
  column : Nat
deriving DecidableEq, Repr

def Pos.start : Pos := ⟨1, 1⟩

/-- The place after a character. -/
def Pos.after (p : Pos) (c : Char) : Pos :=
  if c = '\n' then ⟨p.line + 1, 1⟩ else ⟨p.line, p.column + 1⟩

/-- The place after some characters. -/
def Pos.afterAll (p : Pos) (cs : List Char) : Pos := cs.foldl Pos.after p

/-! ### Tokens -/

/-- A word of a script. -/
inductive Token where
  | int (n : Int)
  | float (x : Float)
  | text (s : String)
  | char (c : Char)
  /-- Text in back quotes up to a piece of code. -/
  | piece (s : String)
  /-- Text in back quotes up to the closing quote. -/
  | lastPiece (s : String)
  | name (s : String)
  | symbol (s : String)
  | malformed (message : String)
  | finish
deriving DecidableEq

/-- A token and where it starts. -/
structure Located where
  token : Token
  pos : Pos

/-- The keywords. -/
def keywords : List String :=
  ["let", "if", "else", "for", "in", "loop", "fn", "throw", "true", "false"]

/-- Words that are neither names nor keywords. -/
def reservedWords : List String :=
  ["async", "await", "case", "default", "go", "goto", "is", "match", "module", "new", "nil",
    "null", "package", "protected", "public", "shared", "spawn", "static", "super", "sync",
    "thread", "use", "var", "void", "with", "yield"]

/-- The symbols, each before those it starts with. -/
def symbols : List String :=
  ["#\x7b", "==", "!=", "<=", ">=", "&&", "||", "..", "+=", "-=", "*=", "/=", "%=", "(", ")",
    "[", "]", "\x7b", "\x7d", ",", ";", ":", ".", "+", "-", "*", "/", "%", "<", ">", "=", "!"]

/-! ### Blanks -/

/-- The rest of a text after a line comment. -/
def dropLine (cs : List Char) : List Char := cs.dropWhile (· ≠ '\n')

/-- The text of a block comment at a depth, and what follows it. -/
def spanBlock (depth : Nat) : List Char → List Char × List Char
  | [] => ([], [])
  | '*' :: '/' :: cs =>
    match depth with
    | 0 => (['*', '/'], cs)
    | depth + 1 =>
      let r := spanBlock depth cs
      ('*' :: '/' :: r.1, r.2)
  | '/' :: '*' :: cs =>
    let r := spanBlock (depth + 1) cs
    ('/' :: '*' :: r.1, r.2)
  | c :: cs =>
    let r := spanBlock depth cs
    (c :: r.1, r.2)

/-- Skip white space and comments. -/
def skipBlanks : Nat → Pos → List Char → Pos × List Char
  | 0, p, cs => (p, cs)
  | fuel + 1, p, cs =>
    match cs with
    | '/' :: '/' :: rest =>
      let comment := rest.takeWhile (· ≠ '\n')
      skipBlanks fuel ((p.after '/').after '/' |>.afterAll comment) (dropLine rest)
    | '/' :: '*' :: rest =>
      let (comment, rest) := spanBlock 0 rest
      skipBlanks fuel ((p.after '/').after '*' |>.afterAll comment) rest
    | c :: rest => if isBlank c then skipBlanks fuel (p.after c) rest else (p, cs)
    | [] => (p, [])

/-! ### Numbers and names -/

def isDigit (c : Char) : Bool := '0' ≤ c && c ≤ '9'

def isNameStart (c : Char) : Bool := c.isAlpha || c = '_'

def isNameChar (c : Char) : Bool := c.isAlphanum || c = '_'

/-- Whole digits, which may hold underscores. -/
def spanDigits (cs : List Char) : List Char × List Char :=
  cs.span fun c => isDigit c || c = '_'

/-- An exponent at the start of a text: its characters and what follows. -/
def spanExponent : List Char → List Char × List Char
  | e :: '-' :: d :: cs =>
    if (e = 'e' ∨ e = 'E') ∧ isDigit d then
      let r := spanDigits (d :: cs)
      (e :: '-' :: r.1, r.2)
    else ([], e :: '-' :: d :: cs)
  | e :: '+' :: d :: cs =>
    if (e = 'e' ∨ e = 'E') ∧ isDigit d then
      let r := spanDigits (d :: cs)
      (e :: '+' :: r.1, r.2)
    else ([], e :: '+' :: d :: cs)
  | e :: d :: cs =>
    if (e = 'e' ∨ e = 'E') ∧ isDigit d then
      let r := spanDigits (d :: cs)
      (e :: r.1, r.2)
    else ([], e :: d :: cs)
  | cs => ([], cs)

/-- A fraction at the start of a text: a point that neither another point nor a name
follows, and digits. -/
def spanFraction : List Char → List Char × List Char
  | '.' :: cs =>
    match cs with
    | c :: _ =>
      if c = '.' ∨ isNameStart c then ([], '.' :: cs)
      else
        let r := spanDigits cs
        ('.' :: r.1, r.2)
    | [] => (['.'], [])
  | cs => ([], cs)

/-- The largest whole number of a script. -/
def maxInt : Int := twoTo 63 - 1

/-- The smallest whole number of a script. -/
def minInt : Int := -twoTo 63

/-- The number that a row of characters writes; a whole one beyond the range of whole
numbers is a floating-point number. -/
def numberToken (cs : List Char) : Token :=
  let cs := cs.filter (· ≠ '_')
  let asFloat :=
    match readFloat? (String.ofList cs) with
    | some x => Token.float x
    | none => .malformed ("Invalid number: '" ++ String.ofList cs ++ "'")
  if cs.all isDigit then
    let n : Int := digitsValue cs
    if n ≤ maxInt then .int n else asFloat
  else asFloat

/-- A number at the start of a text: its characters and what follows. -/
def spanNumber (cs : List Char) : List Char × List Char :=
  let (whole, rest) := spanDigits cs
  let (fraction, rest) := spanFraction rest
  let (exponent, rest) := spanExponent rest
  (whole ++ fraction ++ exponent, rest)

/-- The token of a word. -/
def wordToken (s : String) : Token :=
  if reservedWords.contains s then .malformed ("'" ++ s ++ "' is a reserved keyword")
  else if keywords.contains s then .symbol s
  else .name s

/-! ### Texts -/

/-- The character of an escape and what follows it. -/
def escape? : List Char → Option (Char × List Char)
  | 'n' :: cs => some ('\n', cs)
  | 'r' :: cs => some ('\r', cs)
  | 't' :: cs => some ('\t', cs)
  | '\\' :: cs => some ('\\', cs)
  | '"' :: cs => some ('"', cs)
  | '\x27' :: cs => some ('\x27', cs)
  | '\x60' :: cs => some ('\x60', cs)
  | 'u' :: cs => (Json.hexUnit? cs).map fun r => (Char.ofNat r.1, r.2)
  | _ => none

/-- The outcome of reading a text in quotes: its value, how many characters it took up
and what follows, or a message. -/
inductive QuotedText where
  | closed (value : List Char) (length : Nat) (rest : List Char)
  | bad (message : String)

/-- Read the rest of a text up to its quote. -/
def spanQuoted (quote : Char) : Nat → List Char → Nat → List Char → QuotedText
  | 0, _, _, _ => .bad "Open string is not terminated"
  | fuel + 1, acc, n, cs =>
    match cs with
    | [] => .bad "Open string is not terminated"
    | '\n' :: _ => .bad "Open string is not terminated"
    | '\\' :: rest =>
      match escape? rest with
      | some (c, rest') =>
        spanQuoted quote fuel (c :: acc) (n + 1 + (rest.length - rest'.length)) rest'
      | none =>
        .bad ("Invalid escape sequence: '\\" ++ String.ofList (rest.take 1) ++ "'")
    | c :: rest =>
      if c = quote then .closed acc.reverse (n + 1) rest
      else spanQuoted quote fuel (c :: acc) (n + 1) rest

/-- How a piece of text in back quotes ends. -/
inductive PieceEnd where
  | quote
  | code
  | missing

/-- Read a piece of text in back quotes; a doubled back quote stands for one. -/
def spanPiece : Nat → List Char → List Char → PieceEnd × List Char × List Char
  | 0, acc, cs => (.missing, acc.reverse, cs)
  | fuel + 1, acc, cs =>
    match cs with
    | [] => (.missing, acc.reverse, [])
    | '\x60' :: '\x60' :: rest => spanPiece fuel ('\x60' :: acc) rest
    | '\x60' :: rest => (.quote, acc.reverse, rest)
    | '$' :: '\x7b' :: rest => (.code, acc.reverse, rest)
    | c :: rest => spanPiece fuel (c :: acc) rest

/-! ### Cutting -/

/-- The first symbol that a text starts with. -/
def symbolAt? (cs : List Char) : Option String :=
  symbols.find? fun s => s.toList.isPrefixOf cs

/-- The token for a character that starts no token. -/
def strayToken (c : Char) : Token :=
  if c ∈ ['?', '@', '$', '~', '#'] then .malformed ("'" ++ c.toString ++ "' is a reserved symbol")
  else .malformed ("Unexpected '" ++ c.toString ++ "'")

/-- Cut a text. `depths` counts, for every piece of code in back quotes around the
place, the braces open in it. Each step uses up a character, which bounds their
number. -/
def cut : Nat → List Nat → Pos → List Char → List Located
  | 0, _, p, _ => [⟨.finish, p⟩]
  | fuel + 1, depths, p, cs =>
    let (p, cs) := skipBlanks (cs.length + 1) p cs
    let piece := fun (depths : List Nat) (start : Pos) (cs : List Char) =>
      let (stop, value, rest) := spanPiece (cs.length + 1) [] cs
      let after := (start.after '\x60').afterAll (cs.take (cs.length - rest.length))
      match stop with
      | .quote => ⟨.lastPiece (String.ofList value), start⟩ :: cut fuel depths after rest
      | .code => ⟨.piece (String.ofList value), start⟩ :: cut fuel (0 :: depths) after rest
      | .missing => [⟨.malformed "Open string is not terminated", start⟩]
    match cs with
    | [] => [⟨.finish, p⟩]
    | c :: rest =>
      if isDigit c then
        let (digits, rest) := spanNumber cs
        ⟨numberToken digits, p⟩ :: cut fuel depths (p.afterAll digits) rest
      else if isNameStart c then
        let word := cs.takeWhile isNameChar
        ⟨wordToken (String.ofList word), p⟩ ::
          cut fuel depths (p.afterAll word) (cs.dropWhile isNameChar)
      else if c = '"' then
        match spanQuoted '"' (cs.length + 1) [] 1 rest with
        | .closed value n rest =>
          ⟨.text (String.ofList value), p⟩ :: cut fuel depths (p.afterAll (cs.take n)) rest
        | .bad message => [⟨.malformed message, p⟩]
      else if c = '\x27' then
        match spanQuoted '\x27' (cs.length + 1) [] 1 rest with
        | .closed [value] n rest =>
          ⟨.char value, p⟩ :: cut fuel depths (p.afterAll (cs.take n)) rest
        | .closed value _ _ =>
          [⟨.malformed ("Invalid character: '" ++ String.ofList value ++ "'"), p⟩]
        | .bad message => [⟨.malformed message, p⟩]
      else if c = '\x60' then piece depths p rest
      else match depths with
        | 0 :: outer =>
          if c = '\x7d' then ⟨.symbol "\x7d", p⟩ :: piece outer p rest
          else symbolStep fuel depths p cs c
        | _ => symbolStep fuel depths p cs c
where
  symbolStep (fuel : Nat) (depths : List Nat) (p : Pos) (cs : List Char) (c : Char) :
      List Located :=
    match symbolAt? cs with
    | none => [⟨strayToken c, p⟩]
    | some s =>
      let depths := match depths with
        | d :: ds =>
          if s = "\x7b" ∨ s = "#\x7b" then (d + 1) :: ds
          else if s = "\x7d" then (d - 1) :: ds
          else d :: ds
        | [] => []
      ⟨.symbol s, p⟩ :: cut fuel depths (p.afterAll s.toList) (cs.drop s.length)

/-- The tokens of a text. -/
def tokens (text : String) : List Located :=
  cut (text.length + 1) [] .start text.toList

end AppBuilder.Script
