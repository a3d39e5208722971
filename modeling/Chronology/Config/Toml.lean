/-!
# TOML documents

A reader for TOML documents, enough for configuration files: key/value pairs with bare, quoted
and dotted keys; basic, literal and multi-line strings; integers in decimal, hexadecimal, octal
and binary; floats, booleans and date-times kept as text; arrays and inline tables; table
headers `[a.b]` and array-of-tables headers `[[a.b]]`; comments.

Each key and value keeps its span in the text, as character offsets, so that a later check of the
document can point at the place it refuses.

## Main definitions

* `Toml.Value`: the values of a document, with spans.
* `Toml.parse`: a document as its top-level table, or the place and reason it cannot be read.
-/

namespace Chronology.Toml

/-- A stretch of the text, from `start` up to `stop`, in characters. -/
structure Span where
  start : Nat
  stop : Nat
deriving DecidableEq, Repr, Inhabited

/-- The values of a document. Table entries keep the spans of their keys and values. -/
inductive Value where
  | string (s : String)
  | integer (n : Int)
  | float (text : String)
  | boolean (b : Bool)
  | datetime (text : String)
  | array (items : List (Value × Span))
  | table (entries : List (String × Span × Value × Span))
deriving Inhabited

/-- Why and where a text is not a TOML document. -/
structure ParseError where
  span : Span
  message : String

/-- The rest of the text and the characters read so far. -/
structure Cursor where
  rest : List Char
  pos : Nat

namespace Cursor

/-- The cursor after `n` more characters. -/
def advance (c : Cursor) (n : Nat) : Cursor := ⟨c.rest.drop n, c.pos + n⟩

/-- The cursor after the leading characters that pass the test. -/
def skipWhile (c : Cursor) (test : Char → Bool) : Cursor :=
  c.advance (c.rest.takeWhile test).length

/-- The cursor after spaces and tabs. -/
def skipBlanks (c : Cursor) : Cursor := c.skipWhile fun ch => ch == ' ' || ch == '\t'

/-- The cursor after blanks and a comment, if any. -/
def skipComment (c : Cursor) : Cursor :=
  let c := c.skipBlanks
  match c.rest with
  | '#' :: _ => c.skipWhile (· != '\n')
  | _ => c

/-- The cursor after blanks, comments and line breaks. -/
def skipLayout (c : Cursor) : Cursor :=
  let cs := c.rest
  let rec go : List Char → Nat → Nat
    | [], n => n
    | ch :: rest, n =>
      if ch == ' ' || ch == '\t' || ch == '\n' || ch == '\r' then go rest (n + 1)
      else if ch == '#' then
        go (rest.drop (rest.takeWhile (· != '\n')).length)
          (n + 1 + (rest.takeWhile (· != '\n')).length)
      else n
  termination_by cs => cs.length
  decreasing_by all_goals (simp only [List.length_cons, List.length_drop]; omega)
  c.advance (go cs 0)

end Cursor

/-- Fails at the cursor. -/
def failAt {α : Type} (c : Cursor) (message : String) : Except ParseError α :=
  .error ⟨⟨c.pos, c.pos + 1⟩, message⟩

/-- Characters of a bare key. -/
def isBareKeyChar (ch : Char) : Bool := ch.isAlphanum || ch == '_' || ch == '-'

/-- The value of hexadecimal digits. -/
def hexValue (ds : List Char) : Option Nat :=
  ds.foldlM (fun n ch =>
    if ch.isDigit then some (n * 16 + (ch.toNat - '0'.toNat))
    else if 'a' ≤ ch ∧ ch ≤ 'f' then some (n * 16 + (ch.toNat - 'a'.toNat + 10))
    else if 'A' ≤ ch ∧ ch ≤ 'F' then some (n * 16 + (ch.toNat - 'A'.toNat + 10))
    else none) 0

/-- The character of an escape after a backslash, and the characters it takes. -/
def escape (cs : List Char) : Option (Char × Nat) :=
  match cs with
  | 'b' :: _ => some ('\x08', 1)
  | 't' :: _ => some ('\t', 1)
  | 'n' :: _ => some ('\n', 1)
  | 'f' :: _ => some ('\x0c', 1)
  | 'r' :: _ => some ('\r', 1)
  | 'e' :: _ => some ('\x1b', 1)
  | '"' :: _ => some ('"', 1)
  | '\\' :: _ => some ('\\', 1)
  | 'u' :: rest => (hexValue (rest.take 4)).bind fun n =>
      if (rest.take 4).length = 4 then some (Char.ofNat n, 5) else none
  | 'U' :: rest => (hexValue (rest.take 8)).bind fun n =>
      if (rest.take 8).length = 8 then some (Char.ofNat n, 9) else none
  | _ => none

/-- The body of a basic string after its opening quote, up to and past the closing quote. -/
def basicString (c : Cursor) : Except ParseError (String × Cursor) :=
  let rec go (c : Cursor) (acc : List Char) (fuel : Nat) : Except ParseError (String × Cursor) :=
    match fuel with
    | 0 => failAt c "invalid basic string"
    | fuel + 1 =>
      match c.rest with
      | '"' :: _ => .ok (String.ofList acc.reverse, c.advance 1)
      | '\\' :: rest =>
        match escape rest with
        | some (ch, n) => go (c.advance (n + 1)) (ch :: acc) fuel
        | none => failAt (c.advance 1) "invalid escape sequence"
      | '\n' :: _ => failAt c "invalid basic string"
      | ch :: _ => go (c.advance 1) (ch :: acc) fuel
      | [] => failAt c "invalid basic string"
  go c [] (c.rest.length + 1)

/-- The body of a multi-line basic string after its opening quotes. -/
def multilineBasicString (c : Cursor) : Except ParseError (String × Cursor) :=
  let c := match c.rest with
    | '\n' :: _ => c.advance 1
    | '\r' :: '\n' :: _ => c.advance 2
    | _ => c
  let rec go (c : Cursor) (acc : List Char) (fuel : Nat) : Except ParseError (String × Cursor) :=
    match fuel with
    | 0 => failAt c "invalid multiline basic string"
    | fuel + 1 =>
      match c.rest with
      | '"' :: '"' :: '"' :: _ =>
        -- up to two quotes may end the body
        let extra := ((c.rest.drop 3).takeWhile (· == '"')).length
        if extra > 2 then failAt c "invalid multiline basic string"
        else .ok (String.ofList (acc.reverse ++ List.replicate extra '"'), c.advance (3 + extra))
      | '\\' :: rest =>
        let blank := rest.takeWhile fun ch => ch == ' ' || ch == '\t'
        match rest.drop blank.length with
        | '\n' :: _ | '\r' :: '\n' :: _ =>
          go ((c.advance 1).skipWhile fun ch => ch == ' ' || ch == '\t' || ch == '\n' || ch == '\r')
            acc fuel
        | _ =>
          match escape rest with
          | some (ch, n) => go (c.advance (n + 1)) (ch :: acc) fuel
          | none => failAt (c.advance 1) "invalid escape sequence"
      | ch :: _ => go (c.advance 1) (ch :: acc) fuel
      | [] => failAt c "invalid multiline basic string"
  go c [] (c.rest.length + 1)

/-- The body of a literal string after its opening quote. -/
def literalString (c : Cursor) : Except ParseError (String × Cursor) :=
  let body := c.rest.takeWhile fun ch => ch != '\x27' && ch != '\n'
  match c.rest.drop body.length with
  | '\x27' :: _ => .ok (String.ofList body, c.advance (body.length + 1))
  | _ => failAt (c.advance body.length) "invalid literal string"

/-- The body of a multi-line literal string after its opening quotes. -/
def multilineLiteralString (c : Cursor) : Except ParseError (String × Cursor) :=
  let c := match c.rest with
    | '\n' :: _ => c.advance 1
    | '\r' :: '\n' :: _ => c.advance 2
    | _ => c
  let rec go (c : Cursor) (acc : List Char) (fuel : Nat) : Except ParseError (String × Cursor) :=
    match fuel with
    | 0 => failAt c "invalid multiline literal string"
    | fuel + 1 =>
      match c.rest with
      | '\x27' :: '\x27' :: '\x27' :: _ =>
        let extra := ((c.rest.drop 3).takeWhile (· == '\x27')).length
        if extra > 2 then failAt c "invalid multiline literal string"
        else .ok (String.ofList (acc.reverse ++ List.replicate extra '\x27'), c.advance (3 + extra))
      | ch :: _ => go (c.advance 1) (ch :: acc) fuel
      | [] => failAt c "invalid multiline literal string"
  go c [] (c.rest.length + 1)

/-- A string of any of the four kinds, at its opening quote. -/
def stringAt (c : Cursor) : Except ParseError (String × Cursor) :=
  match c.rest with
  | '"' :: '"' :: '"' :: _ => multilineBasicString (c.advance 3)
  | '"' :: _ => basicString (c.advance 1)
  | '\x27' :: '\x27' :: '\x27' :: _ => multilineLiteralString (c.advance 3)
  | _ => literalString (c.advance 1)

/-- Digits with single underscores between them, without the underscores. -/
def digitsWithUnderscores (test : Char → Bool) (cs : List Char) : Option (List Char) :=
  if !cs.isEmpty && cs.all (fun ch => test ch || ch == '_') && cs.head? != some '_' &&
      cs.getLast? != some '_' && !((cs.zip cs.tail).any fun (a, b) => a == '_' && b == '_') then
    some (cs.filter (· != '_'))
  else none

/-- The value of digits in a base. -/
def digitsValue (base : Nat) (ds : List Char) : Nat :=
  ds.foldl (fun n ch => n * base + ((hexValue [ch]).getD 0)) 0

/-- An integer as written: decimal with an optional sign and no leading zero, or hexadecimal,
octal or binary after `0x`, `0o`, `0b`. -/
def integerOf (cs : List Char) : Option Int :=
  match cs with
  | '0' :: 'x' :: rest => (digitsWithUnderscores (fun ch => (hexValue [ch]).isSome) rest).map
      fun ds => (digitsValue 16 ds : Int)
  | '0' :: 'o' :: rest => (digitsWithUnderscores (fun ch => '0' ≤ ch ∧ ch ≤ '7') rest).map
      fun ds => (digitsValue 8 ds : Int)
  | '0' :: 'b' :: rest => (digitsWithUnderscores (fun ch => ch == '0' || ch == '1') rest).map
      fun ds => (digitsValue 2 ds : Int)
  | _ =>
    let (negative, body) := match cs with
      | '-' :: rest => (true, rest)
      | '+' :: rest => (false, rest)
      | _ => (false, cs)
    match body with
    | ['0'] => some 0
    | '0' :: _ :: _ => none
    | _ => (digitsWithUnderscores Char.isDigit body).map fun ds =>
        let n : Int := digitsValue 10 ds
        if negative then -n else n

/-- Whether the text is a float: a decimal integer part with a fraction, an exponent or both, or
an infinity or NaN. -/
def isFloat (cs : List Char) : Bool :=
  let body := match cs with
    | '-' :: rest | '+' :: rest => rest
    | _ => cs
  if body == "inf".toList || body == "nan".toList then true
  else
    let intPart := body.takeWhile fun ch => ch.isDigit || ch == '_'
    let rest := body.drop intPart.length
    let intOk := (integerOf intPart).isSome && intPart.head? != some '_'
    let (frac, rest) := match rest with
      | '.' :: r => (some (r.takeWhile fun ch => ch.isDigit || ch == '_'),
          r.drop (r.takeWhile fun ch => ch.isDigit || ch == '_').length)
      | _ => (none, rest)
    let fracOk := match frac with
      | some f => (digitsWithUnderscores Char.isDigit f).isSome
      | none => true
    let expOk := match rest with
      | [] => frac.isSome
      | e :: r => (e == 'e' || e == 'E') &&
          (digitsWithUnderscores Char.isDigit (match r with
            | '-' :: s | '+' :: s => s
            | _ => r)).isSome
    intOk && fracOk && expOk

/-- Whether the text looks like a date, a time or a date-time. -/
def isDateTime (cs : List Char) : Bool :=
  let digit (i : Nat) := (cs.getD i 'x').isDigit
  (cs.length ≥ 10 && digit 0 && digit 1 && digit 2 && digit 3 && cs.getD 4 'x' == '-' &&
    digit 5 && digit 6 && cs.getD 7 'x' == '-' && digit 8 && digit 9) ||
  (cs.length ≥ 8 && digit 0 && digit 1 && cs.getD 2 'x' == ':' && digit 3 && digit 4 &&
    cs.getD 5 'x' == ':' && digit 6 && digit 7)

/-- A scalar that is not a string: boolean, number or date-time. -/
def scalarAt (c : Cursor) : Except ParseError (Value × Cursor) :=
  let token := c.rest.takeWhile fun ch => ch.isAlphanum || ch == '_' || ch == '-' || ch == '+' ||
    ch == '.' || ch == ':'
  -- a date and a time may be joined by a single space
  let token := match c.rest.drop token.length with
    | ' ' :: d :: rest =>
      if isDateTime token && token.length == 10 && d.isDigit then
        token ++ ' ' :: d :: rest.takeWhile fun ch => ch.isAlphanum || ch == '-' || ch == '+' ||
          ch == '.' || ch == ':'
      else token
    | _ => token
  let after := c.advance token.length
  if token.isEmpty then failAt c "invalid string\nexpected `\"`, `\x27`"
  else if token == "true".toList then .ok (.boolean true, after)
  else if token == "false".toList then .ok (.boolean false, after)
  else match integerOf token with
    | some n => .ok (.integer n, after)
    | none =>
      if isFloat token then .ok (.float (String.ofList token), after)
      else if isDateTime token then .ok (.datetime (String.ofList token), after)
      else .error ⟨⟨c.pos, c.pos + token.length⟩, "invalid number"⟩

/-- One part of a key: bare or quoted. -/
def simpleKey (c : Cursor) : Except ParseError (String × Cursor) :=
  match c.rest with
  | '"' :: _ | '\x27' :: _ =>
    match c.rest with
    | '"' :: '"' :: '"' :: _ | '\x27' :: '\x27' :: '\x27' :: _ => failAt c "invalid key"
    | _ => stringAt c
  | _ =>
    let bare := c.rest.takeWhile isBareKeyChar
    if bare.isEmpty then failAt c "invalid key" else .ok (String.ofList bare, c.advance bare.length)

/-- A dotted key: its parts, each with its own span, and the span of the whole key. -/
def key (c : Cursor) : Except ParseError (List (String × Span) × Span × Cursor) := do
  let start := c.pos
  let rec go (c : Cursor) (acc : List (String × Span)) (fuel : Nat) :
      Except ParseError (List (String × Span) × Span × Cursor) := do
    match fuel with
    | 0 => failAt c "invalid key"
    | fuel + 1 =>
      let partStart := c.pos
      let (k, c) ← simpleKey c
      let stop := c.pos
      let acc := (k, ⟨partStart, stop⟩) :: acc
      let c' := c.skipBlanks
      match c'.rest with
      | '.' :: _ => go (c'.advance 1).skipBlanks acc fuel
      | _ => .ok (acc.reverse, ⟨start, stop⟩, c)
  go c [] (c.rest.length + 1)

/-- The entries of a table with `value` set at the dotted key below them; a key already set is
refused, and tables on the way are created, each spanning its own part of the key. -/
def insertDotted (entries : List (String × Span × Value × Span)) (path : List (String × Span))
    (value : Value) (valueSpan : Span) :
    Except String (List (String × Span × Value × Span)) :=
  match path with
  | [] => .ok entries
  | [(k, keySpan)] =>
    if (entries.find? (·.1 == k)).isSome then .error "duplicate key"
    else .ok (entries ++ [(k, keySpan, value, valueSpan)])
  | (k, keySpan) :: ks =>
    match entries.find? (·.1 == k) with
    | some (_, ks0, .table inner, vs0) => do
      let inner ← insertDotted inner ks value valueSpan
      .ok (entries.map fun e => if e.1 == k then (k, ks0, .table inner, vs0) else e)
    | some _ => .error "duplicate key"
    | none => do
      let inner ← insertDotted [] ks value valueSpan
      .ok (entries ++ [(k, keySpan, .table inner, keySpan)])

mutual

/-- A value at the cursor. -/
def value (c : Cursor) : Nat → Except ParseError (Value × Span × Cursor)
  | 0 => failAt c "nesting too deep"
  | fuel + 1 => do
    match c.rest with
    | '"' :: _ | '\x27' :: _ =>
      let (s, c') ← stringAt c
      pure (.string s, ⟨c.pos, c'.pos⟩, c')
    | '[' :: _ =>
      let (items, c') ← arrayItems (c.advance 1) [] fuel
      pure (.array items, ⟨c.pos, c'.pos⟩, c')
    | '\x7b' :: _ =>
      let (entries, c') ← inlineEntries (c.advance 1).skipBlanks [] true fuel
      pure (.table entries, ⟨c.pos, c'.pos⟩, c')
    | _ =>
      let (v, c') ← scalarAt c
      pure (v, ⟨c.pos, c'.pos⟩, c')

/-- The items of an array after its opening bracket, up to and past the closing bracket. -/
def arrayItems (c : Cursor) (acc : List (Value × Span)) : Nat →
    Except ParseError (List (Value × Span) × Cursor)
  | 0 => failAt c "nesting too deep"
  | fuel + 1 => do
    let c := c.skipLayout
    match c.rest with
    | ']' :: _ => pure (acc.reverse, c.advance 1)
    | _ =>
      let (v, span, c) ← value c fuel
      let c := c.skipLayout
      match c.rest with
      | ',' :: _ => arrayItems (c.advance 1) ((v, span) :: acc) fuel
      | ']' :: _ => pure (((v, span) :: acc).reverse, c.advance 1)
      | _ => failAt c "invalid array\nexpected `]`"

/-- The entries of an inline table after its opening brace, up to and past the closing brace. -/
def inlineEntries (c : Cursor) (acc : List (String × Span × Value × Span)) (first : Bool) :
    Nat → Except ParseError (List (String × Span × Value × Span) × Cursor)
  | 0 => failAt c "nesting too deep"
  | fuel + 1 => do
    match c.rest with
    | '\x7d' :: _ => if first then pure (acc, c.advance 1) else failAt c "invalid inline table"
    | _ =>
      let (path, keySpan, c) ← key c
      let c := c.skipBlanks
      let c ← match c.rest with
        | '=' :: _ => pure ((c.advance 1).skipBlanks)
        | _ => failAt c "expected `.`, `=`"
      let (v, span, c) ← value c fuel
      let acc ← match insertDotted acc path v span with
        | .ok acc => pure acc
        | .error m => .error ⟨keySpan, m⟩
      let c := c.skipBlanks
      match c.rest with
      | ',' :: _ => inlineEntriesAfterComma (c.advance 1).skipBlanks acc fuel
      | '\x7d' :: _ => pure (acc, c.advance 1)
      | _ => failAt c "invalid inline table\nexpected `\x7d`"

/-- The entries after a comma of an inline table: another entry must follow. -/
def inlineEntriesAfterComma (c : Cursor) (acc : List (String × Span × Value × Span)) :
    Nat → Except ParseError (List (String × Span × Value × Span) × Cursor)
  | 0 => failAt c "nesting too deep"
  | fuel + 1 =>
    match c.rest with
    | '\x7d' :: _ => failAt c "invalid inline table\nexpected key"
    | _ => inlineEntries c acc false fuel

end

/-- The lines of a document: a key/value pair, a table header or an array-of-tables header. -/
inductive Line where
  | pair (path : List (String × Span)) (keySpan : Span) (value : Value) (valueSpan : Span)
  | header (path : List (String × Span)) (span : Span)
  | arrayHeader (path : List (String × Span)) (span : Span)

/-- The end of a line: blanks, a comment, then a line break or the end of the text. -/
def lineEnd (c : Cursor) : Except ParseError Cursor :=
  let c := c.skipComment
  match c.rest with
  | [] => .ok c
  | '\n' :: _ => .ok (c.advance 1)
  | '\r' :: '\n' :: _ => .ok (c.advance 2)
  | _ => failAt c "expected newline, `#`"

/-- The lines of the document from the cursor on. -/
def lines (c : Cursor) (acc : List Line) : Nat → Except ParseError (List Line)
  | 0 => .ok acc.reverse
  | fuel + 1 => do
    let c := c.skipLayout
    match c.rest with
    | [] => pure acc.reverse
    | '[' :: '[' :: _ =>
      let start := c.pos
      let (path, _, c) ← key (c.advance 2).skipBlanks
      let c := c.skipBlanks
      let c ← match c.rest with
        | ']' :: ']' :: _ => pure (c.advance 2)
        | _ => failAt c "invalid array table\nexpected `]]`"
      let span : Span := ⟨start, c.pos⟩
      lines (← lineEnd c) (.arrayHeader path span :: acc) fuel
    | '[' :: _ =>
      let start := c.pos
      let (path, _, c) ← key (c.advance 1).skipBlanks
      let c := c.skipBlanks
      let c ← match c.rest with
        | ']' :: _ => pure (c.advance 1)
        | _ => failAt c "invalid table header\nexpected `.`, `]`"
      let span : Span := ⟨start, c.pos⟩
      lines (← lineEnd c) (.header path span :: acc) fuel
    | _ =>
      let (path, keySpan, c) ← key c
      let c := c.skipBlanks
      let c ← match c.rest with
        | '=' :: _ => pure ((c.advance 1).skipBlanks)
        | _ => failAt c "expected `.`, `=`"
      let (v, span, c) ← value c (c.rest.length + 1)
      lines (← lineEnd c) (.pair path keySpan v span :: acc) fuel

/-- The table at `path` below `v` changed by `f`, tables on the way created (spanning `span`,
each under its own part of the key); an array of tables on the way stands for its last
table. -/
def modifyAt (f : List (String × Span × Value × Span) → Except String (List (String × Span × Value × Span)))
    (span : Span) : Nat → List (String × Span) → Value → Except String Value
  | 0, _, _ => .error "nesting too deep"
  | fuel + 1, path, .array items =>
    match items.getLast? with
    | some (last, s) => do
      let last ← modifyAt f span fuel path last
      pure (.array (items.dropLast ++ [(last, s)]))
    | none => .error "invalid table"
  | _, [], .table entries => .table <$> f entries
  | fuel + 1, (k, keySpan) :: ks, .table entries =>
    match entries.find? (·.1 == k) with
    | some (_, ks0, child, vs0) => do
      let child ← modifyAt f span fuel ks child
      pure (.table (entries.map fun e => if e.1 == k then (k, ks0, child, vs0) else e))
    | none => do
      let child ← modifyAt f span fuel ks (.table [])
      pure (.table (entries ++ [(k, keySpan, child, span)]))
  | _, _, _ => .error "duplicate key"

/-- The document with a line applied; `current` is the path of the table that pairs go into. -/
def applyLine (doc : Value) (current : List (String × Span)) :
    Line → Except ParseError (Value × List (String × Span))
  | .pair path keySpan v valueSpan =>
    match modifyAt (fun entries => insertDotted entries path v valueSpan) keySpan
        (2 * current.length + 2) current doc with
    | .ok doc => .ok (doc, current)
    | .error m => .error ⟨keySpan, m⟩
  | .header path span =>
    match modifyAt pure span (2 * path.length + 2) path doc with
    | .ok doc => .ok (doc, path)
    | .error m => .error ⟨span, m⟩
  | .arrayHeader path span =>
    match path.reverse with
    | [] => .error ⟨span, "invalid array table"⟩
    | (last, lastSpan) :: parentRev =>
      let parent := parentRev.reverse
      let push (entries : List (String × Span × Value × Span)) :
          Except String (List (String × Span × Value × Span)) :=
        match entries.find? (·.1 == last) with
        | some (_, ks0, .array items, vs0) =>
          .ok (entries.map fun e =>
            if e.1 == last then (last, ks0, .array (items ++ [(.table [], span)]), vs0) else e)
        | some _ => .error "duplicate key"
        | none => .ok (entries ++ [(last, lastSpan, .array [(.table [], span)], span)])
      match modifyAt push span (2 * parent.length + 2) parent doc with
      | .ok doc => .ok (doc, path)
      | .error m => .error ⟨span, m⟩

/-- Reads a TOML document into its top-level table. -/
def parse (text : String) : Except ParseError Value := do
  let ls ← lines ⟨text.toList, 0⟩ [] (text.length + 1)
  let (doc, _) ← ls.foldlM (fun (doc, current) line => applyLine doc current line) (.table [], [])
  pure doc

end Chronology.Toml
