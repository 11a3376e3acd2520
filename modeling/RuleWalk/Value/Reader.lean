import RuleWalk.Fault.Basic

/-!
# Reading values from JSON text

Mappings keep the order of their keys; of two entries with one key the later value stays in the
earlier place. A position in the text is known by the number of characters from there to the end.
-/

namespace RuleWalk.Reader

/-- Why a text is refused: something else was expected where `left` characters were left, or a whole
number is too long. -/
inductive Refusal where
  | expected (what : Expectation) (left : Nat)
  | tooLong (digits : Nat)

def isBlank (c : Char) : Bool := c == ' ' || c == '\t' || c == '\n' || c == '\r'

def skip : List Char → List Char
  | c :: cs => if isBlank c then skip cs else c :: cs
  | [] => []

def hexDigit? (c : Char) : Option Nat :=
  if '0' ≤ c ∧ c ≤ '9' then some (c.toNat - '0'.toNat)
  else if 'a' ≤ c ∧ c ≤ 'f' then some (c.toNat - 'a'.toNat + 10)
  else if 'A' ≤ c ∧ c ≤ 'F' then some (c.toNat - 'A'.toNat + 10)
  else none

/-- Four hexadecimal digits as one number. -/
def unit? (a b c d : Char) : Option Nat := do
  let a ← hexDigit? a
  let b ← hexDigit? b
  let c ← hexDigit? c
  let d ← hexDigit? d
  return ((a * 16 + b) * 16 + c) * 16 + d

def isHighUnit (n : Nat) : Bool := 0xd800 ≤ n && n ≤ 0xdbff

def isLowUnit (n : Nat) : Bool := 0xdc00 ≤ n && n ≤ 0xdfff

/-- The character of a code point; a unit of half a pair is replaced. -/
def charOf (n : Nat) : Char := if isHighUnit n || isLowUnit n then '�' else Char.ofNat n

/-- The character after a backslash. -/
def escaped? : Char → Option Char
  | '"' => some '"'
  | '\\' => some '\\'
  | '/' => some '/'
  | 'b' => some '\x08'
  | 'f' => some '\x0c'
  | 'n' => some '\n'
  | 'r' => some '\r'
  | 't' => some '\t'
  | _ => none

/-- The characters read so far, last first, with a half pair before them. -/
def flush (half : Option Nat) (acc : List Char) : List Char :=
  match half with
  | some hi => charOf hi :: acc
  | none => acc

/-- The rest of a text whose opening quote is the first of the characters `start`. A high unit
waits in `half` for a low one that may follow it. -/
def readText (start : List Char) : Option Nat → List Char → List Char → Except Refusal (String × List Char)
  | _, _, [] => .error (.expected .closingQuote start.length)
  | half, acc, '"' :: cs => .ok (String.ofList (flush half acc).reverse, cs)
  | _, _, ['\\'] => .error (.expected .closingQuote start.length)
  | half, acc, '\\' :: 'u' :: a :: b :: c :: d :: cs =>
    match unit? a b c d with
    | none => .error (.expected .unicodeEscape (cs.length + 5))
    | some n =>
      if cs.isEmpty then .error (.expected .unicodeEscape 5)
      else
        match half with
        | some hi =>
          if isLowUnit n then
            readText start none (Char.ofNat (0x10000 + (hi - 0xd800) * 0x400 + (n - 0xdc00)) :: acc) cs
          else if isHighUnit n then readText start (some n) (charOf hi :: acc) cs
          else readText start none (charOf n :: charOf hi :: acc) cs
        | none =>
          if isHighUnit n then readText start (some n) acc cs
          else readText start none (charOf n :: acc) cs
  | _, _, '\\' :: 'u' :: cs => .error (.expected .unicodeEscape (cs.length + 1))
  | half, acc, '\\' :: c :: cs =>
    match escaped? c with
    | some x => readText start none (x :: flush half acc) cs
    | none => .error (.expected .escape (cs.length + 2))
  | half, acc, c :: cs =>
    if c.toNat < 0x20 then .error (.expected .plainCharacter (cs.length + 1))
    else readText start none (c :: flush half acc) cs

def digits (cs : List Char) : List Char × List Char := (cs.takeWhile Char.isDigit, cs.dropWhile Char.isDigit)

def number (ds : List Char) : Nat := ds.foldl (fun n d => n * 10 + (d.toNat - '0'.toNat)) 0

/-- A point and at least one digit. -/
def fraction? : List Char → Option (List Char × List Char)
  | '.' :: cs =>
    match digits cs with
    | ([], _) => none
    | r => some r
  | _ => none

/-- Digits of an exponent with a sign or without. -/
def signedDigits (cs : List Char) : Option (Int × List Char) :=
  let (negative, cs) := match cs with
    | '-' :: cs => (true, cs)
    | '+' :: cs => (false, cs)
    | cs => (false, cs)
  match digits cs with
  | ([], _) => none
  | (ds, rest) => some (if negative then -(number ds : Int) else number ds, rest)

def exponent? : List Char → Option (Int × List Char)
  | 'e' :: cs => signedDigits cs
  | 'E' :: cs => signedDigits cs
  | _ => none

/-- A number as it is written. -/
structure Numeral where
  negative : Bool
  whole : List Char
  fraction : Option (List Char)
  exponent : Option Int

/-- A number without its sign. -/
def magnitude? (negative : Bool) (cs : List Char) : Option (Numeral × List Char) :=
  let whole := match cs with
    | '0' :: rest => (['0'], rest)
    | cs => digits cs
  match whole with
  | ([], _) => none
  | (ds, rest) =>
    let (fs, rest) := match fraction? rest with
      | some (fs, rest) => (some fs, rest)
      | none => (none, rest)
    let (e, rest) := match exponent? rest with
      | some (e, rest) => (some e, rest)
      | none => (none, rest)
    some (⟨negative, ds, fs, e⟩, rest)

def numeral? : List Char → Option (Numeral × List Char)
  | '-' :: cs => magnitude? true cs
  | cs => magnitude? false cs

/-- A numeral with a fraction or an exponent is a double, any other a whole number. -/
def Numeral.value (x : Numeral) : Except Refusal Value :=
  match x.fraction, x.exponent with
  | none, none =>
    if Value.digitLimit < x.whole.length then .error (.tooLong x.whole.length)
    else .ok (.int (if x.negative then -(number x.whole : Int) else number x.whole))
  | f, e =>
    let fs := f.getD []
    .ok (.float (.ofDecimal x.negative (number (x.whole ++ fs)) (e.getD 0 - fs.length)))

/-- Adds an entry to entries in reverse order. -/
def putEntry (k : String) (v : Value) (es : List (String × Value)) : List (String × Value) :=
  if es.any fun e => e.1 == k then es.map fun e => if e.1 == k then (k, v) else e else (k, v) :: es

/-- A value, the next free serial number and the rest of the text. -/
abbrev Reading := Except Refusal (Value × Nat × List Char)

mutual

/-- Reads one value. On `k` characters `2 * k + 1` units of fuel are always enough, and one more for
the items of a list or the entries of a mapping. -/
def readValue : Nat → Nat → List Char → Reading
  | 0, _, cs => .error (.expected .value cs.length)
  | fuel + 1, n, cs =>
    match cs with
    | '"' :: rest =>
      match readText cs none [] rest with
      | .ok (s, rest) => .ok (.str s, n, rest)
      | .error e => .error e
    | '{' :: rest =>
      match skip rest with
      | '}' :: rest => .ok (.dict ⟨n, none⟩ [], n + 1, rest)
      | rest => readEntries fuel ⟨n, none⟩ (n + 1) [] rest
    | '[' :: rest =>
      match skip rest with
      | ']' :: rest => .ok (.list ⟨n, none⟩ [], n + 1, rest)
      | rest => readItems fuel ⟨n, none⟩ (n + 1) [] rest
    | 'n' :: 'u' :: 'l' :: 'l' :: rest => .ok (.null, n, rest)
    | 't' :: 'r' :: 'u' :: 'e' :: rest => .ok (.bool true, n, rest)
    | 'f' :: 'a' :: 'l' :: 's' :: 'e' :: rest => .ok (.bool false, n, rest)
    | 'N' :: 'a' :: 'N' :: rest => .ok (.float .notANumber, n, rest)
    | 'I' :: 'n' :: 'f' :: 'i' :: 'n' :: 'i' :: 't' :: 'y' :: rest =>
      .ok (.float (.infinite false), n, rest)
    | '-' :: 'I' :: 'n' :: 'f' :: 'i' :: 'n' :: 'i' :: 't' :: 'y' :: rest =>
      .ok (.float (.infinite true), n, rest)
    | _ =>
      match numeral? cs with
      | some (x, rest) => x.value.map fun v => (v, n, rest)
      | none => .error (.expected .value cs.length)

def readItems : Nat → Origin → Nat → List Value → List Char → Reading
  | 0, _, _, _, cs => .error (.expected .value cs.length)
  | fuel + 1, o, n, done, cs =>
    match readValue fuel n cs with
    | .error e => .error e
    | .ok (v, n, rest) =>
      match skip rest with
      | ']' :: rest => .ok (.list o (v :: done).reverse, n, rest)
      | ',' :: rest => readItems fuel o n (v :: done) (skip rest)
      | rest => .error (.expected .comma rest.length)

def readEntries : Nat → Origin → Nat → List (String × Value) → List Char → Reading
  | 0, _, _, _, cs => .error (.expected .value cs.length)
  | fuel + 1, o, n, done, cs =>
    match cs with
    | '"' :: rest =>
      match readText cs none [] rest with
      | .error e => .error e
      | .ok (k, rest) =>
        match skip rest with
        | ':' :: rest =>
          match readValue fuel n (skip rest) with
          | .error e => .error e
          | .ok (v, n, rest) =>
            match skip rest with
            | '}' :: rest => .ok (.dict o (putEntry k v done).reverse, n, rest)
            | ',' :: rest => readEntries fuel o n (putEntry k v done) (skip rest)
            | rest => .error (.expected .comma rest.length)
        | rest => .error (.expected .colon rest.length)
    | _ => .error (.expected .propertyName cs.length)

end

/-- The fault of refusing a text. -/
def Refusal.fault (text : List Char) : Refusal → Fault
  | expected what left => .malformed (Mistake.at text (text.length - left) what)
  | tooLong digits => .tooManyDigits Value.digitLimit (some digits)

/-- Reads a whole text; containers get serial numbers from `n` on. -/
def read (n : Nat) (text : List Char) : Except Fault (Value × Nat) :=
  let refuse (r : Refusal) := Except.error (r.fault text)
  match text with
  | '\ufeff' :: _ => refuse (.expected .noByteOrderMark text.length)
  | _ =>
    match readValue (2 * text.length + 1) n (skip text) with
    | .error r => refuse r
    | .ok (v, n, rest) =>
      match skip rest with
      | [] => .ok (v, n)
      | rest => refuse (.expected .extraData rest.length)

end RuleWalk.Reader
