import LispMachine.Diagnostic
import LispMachine.Double.Reading
import LispMachine.Text.Alphanumeric
import LispMachine.Text.Blank

set_option autoImplicit false

namespace LispMachine

def isSymbolChar (c : Char) : Bool :=
  Text.isAlphanumeric c ||
    match c with
    | '+' | '-' | '*' | '/' | '<' | '>' | '=' | '!' | '?' | '_' | '.' | '&' | '%' | '\x27' | '$' => true
    | _ => false

namespace Lexeme

def delimiter? : Char → Option Lexeme
  | '(' => some .leftParen
  | ')' => some .rightParen
  | '[' => some .leftBracket
  | ']' => some .rightBracket
  | '\x7b' => some .leftBrace
  | '\x7d' => some .rightBrace
  | _ => none

def reserved? : String → Option Lexeme
  | "def" => some .define
  | "defn" => some .function
  | "let" => some .bind
  | "if" => some .branch
  | "do" => some .block
  | "cond" => some .cond
  | "->" => some .compose
  | "true" => some .yes
  | "false" => some .no
  | "nil" => some .nil
  | _ => none

end Lexeme

namespace Lexer

abbrev Meaning := Except LexicalFault (Lexeme × Option Datum)

def isDigits (cs : List Char) : Bool := !cs.isEmpty && cs.all Char.isDigit

def decimalValue (cs : List Char) : Nat := cs.foldl (fun n c => 10 * n + (c.toNat - 48)) 0

def unsigned : List Char → List Char
  | '-' :: cs => cs
  | cs => cs

def isNegative : List Char → Bool
  | '-' :: _ => true
  | _ => false

def looksNumeric (run : List Char) : Bool :=
  match unsigned run with
  | c :: _ => c.isDigit
  | [] => false

def integer (run : List Char) : Meaning :=
  let magnitude : Int := decimalValue (unsigned run)
  let n := if isNegative run then -magnitude else magnitude
  if Int64.minValue.toInt ≤ n ∧ n ≤ Int64.maxValue.toInt then
    .ok (.long, some (.long (Int64.ofInt n)))
  else .error (.integerTooLarge (String.ofList run))

-- Digits make an integer, digits around one point a double; other runs that start like a number
-- are no part of the language.
def number (run : List Char) : Meaning :=
  let digits := unsigned run
  let whole := digits.takeWhile (· ≠ '.')
  match digits.dropWhile (· ≠ '.') with
  | [] => if isDigits whole then integer run else .ok (.unknown, none)
  | _ :: places =>
      if isDigits whole && isDigits places then
        let d := Double.ofDecimal (isNegative run) (decimalValue (whole ++ places)) places.length
        .ok (.double, some (.double d))
      else .ok (.unknown, none)

def symbolRun (run : List Char) : Meaning :=
  match Lexeme.reserved? (String.ofList run) with
  | some lexeme => .ok (lexeme, none)
  | none => if looksNumeric run then number run else .ok (.ident, none)

structure Scan where
  raw : List Char
  meaning : Meaning
  rest : List Char

def unescape? : Char → Option Char
  | 'n' => some '\n'
  | 't' => some '\t'
  | 'r' => some '\r'
  | '"' => some '"'
  | '\\' => some '\\'
  | _ => none

-- The string behind an opening quote; `raw` and `value` hold what has been read, last character
-- first. A wrong escape ends the scan right behind it.
def scanString (raw value : List Char) : List Char → Scan
  | [] => ⟨raw.reverse, .error .unterminatedString, []⟩
  | c :: rest =>
      if c = '"' then
        ⟨(c :: raw).reverse, .ok (.str, some (.str (String.ofList value.reverse))), rest⟩
      else if c = '\\' then
        match rest with
        | [] => ⟨(c :: raw).reverse, .error .unterminatedString, []⟩
        | e :: rest =>
            match unescape? e with
            | some v => scanString (e :: c :: raw) (v :: value) rest
            | none => ⟨(e :: c :: raw).reverse, .error (.invalidEscape e), rest⟩
      else scanString (c :: raw) (c :: value) rest

def scan (c : Char) (rest : List Char) : Scan :=
  match Lexeme.delimiter? c with
  | some lexeme => ⟨[c], .ok (lexeme, none), rest⟩
  | none =>
      if c = '"' then scanString [c] [] rest
      else if isSymbolChar c then
        let run := c :: rest.takeWhile isSymbolChar
        ⟨run, symbolRun run, rest.dropWhile isSymbolChar⟩
      else ⟨[c], .ok (.unknown, none), rest⟩

theorem scanString_append (raw value cs : List Char) :
    (scanString raw value cs).raw ++ (scanString raw value cs).rest = raw.reverse ++ cs := by
  fun_induction scanString raw value cs <;> simp_all

theorem scan_append (c : Char) (cs : List Char) :
    (scan c cs).raw ++ (scan c cs).rest = c :: cs := by
  unfold scan
  split
  · simp
  · split
    · simp [scanString_append]
    · split <;> simp [List.takeWhile_append_dropWhile]

theorem length_scanString_rest (raw value cs : List Char) :
    (scanString raw value cs).rest.length ≤ cs.length := by
  fun_induction scanString raw value cs <;> simp_all <;> omega

theorem length_scan_rest (c : Char) (cs : List Char) :
    (scan c cs).rest.length ≤ cs.length := by
  unfold scan
  split
  · simp
  · split
    · exact length_scanString_rest _ _ _
    · split
      · exact (List.dropWhile_sublist _).length_le
      · simp

structure Source where
  rest : List Char
  position : Position

namespace Source

def ofText (text : String) : Source := ⟨text.toList, .start⟩

def skipGapFrom (comment : Bool) : List Char → Position → Source
  | [], p => ⟨[], p⟩
  | c :: rest, p =>
      if comment then skipGapFrom (c ≠ '\n') rest (p.advance c)
      else if c = ';' then skipGapFrom true rest (p.advance c)
      else if Text.isBlank c || c = ',' then skipGapFrom false rest (p.advance c)
      else ⟨c :: rest, p⟩

def skipGap (s : Source) : Source := skipGapFrom false s.rest s.position

theorem length_skipGapFrom (comment : Bool) (cs : List Char) (p : Position) :
    (skipGapFrom comment cs p).rest.length ≤ cs.length := by
  fun_induction skipGapFrom comment cs p <;> simp_all <;> omega

-- The next token and the source behind it. At the end the same end token comes again and again;
-- behind a refused token the source goes on.
def next (s : Source) : Except Diagnostic Token × Source :=
  let s := s.skipGap
  match s.rest with
  | [] => (.ok (.eof s.position), s)
  | c :: cs =>
      let found := scan c cs
      let behind : Source := ⟨found.rest, s.position.after found.raw⟩
      match found.meaning with
      | .ok (lexeme, literal) =>
          (.ok { lexeme, text := String.ofList found.raw, literal, position := s.position }, behind)
      | .error fault => (Diagnostic.lexical fault s.position, behind)

theorem length_next {s behind : Source} {t : Token} (h : s.next = (.ok t, behind))
    (more : t.lexeme ≠ .eof) : behind.rest.length < s.rest.length := by
  have gap : s.skipGap.rest.length ≤ s.rest.length := length_skipGapFrom _ _ _
  simp only [next] at h
  split at h
  next =>
    cases h
    exact absurd rfl more
  next c cs rest =>
    have shorter := length_scan_rest c cs
    rw [rest] at gap
    simp only [List.length_cons] at gap
    split at h <;> cases h
    simp only
    omega

def tokensFrom (s : Source) (before : List Token) : Except Diagnostic (List Token) :=
  match _h : s.next with
  | (.error e, _) => .error e
  | (.ok t, behind) =>
      if _more : t.lexeme = .eof then .ok (t :: before).reverse
      else tokensFrom behind (t :: before)
termination_by s.rest.length
decreasing_by exact length_next _h _more

end Source

end Lexer

def tokenize (text : String) : Except Diagnostic (List Token) :=
  (Lexer.Source.ofText text).tokensFrom []

end LispMachine
