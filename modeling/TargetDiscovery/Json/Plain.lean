import TargetDiscovery.Json.Reader

/-!
# The plain reader

A document is one value with blanks and comments around its tokens; a comment runs from `//` to
the end of the line or from `/*` to `*/`. Strings are byte strings: escapes stand for UTF-8, all
other bytes from 32 on stand for themselves. Values stand inside each other up to a fixed depth; a
text with a deeper one is not read to its end. Every reading function returns what is left of the
text. Texts that are no documents by this grammar are refused, though other readers may be lenient
with some of them.
-/

set_option autoImplicit false

namespace TargetDiscovery.Json

inductive Malformed
  | value
  | string
  | escape
  | memberName
  | colon
  | memberEnd
  | itemEnd
  | comment
  | trailing
  | repeatedName
  deriving DecidableEq, Repr

namespace Malformed

def message : Malformed → Bytes
  | value => ascii "value, object or array expected"
  | string => ascii "unterminated string"
  | escape => ascii "bad escape sequence in string"
  | memberName => ascii "missing \x7d or object member name"
  | colon => ascii "missing : after object member name"
  | memberEnd => ascii "missing , or \x7d in object declaration"
  | itemEnd => ascii "missing , or ] in array declaration"
  | comment => ascii "unterminated comment"
  | trailing => ascii "extra non-whitespace after JSON value"
  | repeatedName => ascii "duplicate key"

end Malformed

abbrev Step (α : Type) := Except Malformed (α × Bytes)

def isBlank (b : UInt8) : Bool := b == 32 || b == 9 || b == 10 || b == 13

/-- Where a gap between tokens stands: in blanks, in a line comment or in a block comment. -/
inductive Gap
  | blanks | line | block
  deriving DecidableEq

def skip : Gap → Bytes → Except Malformed Bytes
  | .blanks, [] => .ok []
  | .blanks, [b] => if isBlank b then .ok [] else .ok [b]
  | .blanks, b :: c :: rest =>
    if isBlank b then skip .blanks (c :: rest)
    else if b = byte '/' ∧ c = byte '/' then skip .line rest
    else if b = byte '/' ∧ c = byte '*' then skip .block rest
    else .ok (b :: c :: rest)
  | .line, [] => .ok []
  | .line, b :: rest => if b = 10 ∨ b = 13 then skip .blanks rest else skip .line rest
  | .block, b :: c :: rest =>
    if b = byte '*' ∧ c = byte '/' then skip .blanks rest else skip .block (c :: rest)
  | .block, _ => .error .comment

/-! ## Strings -/

def encodeScalar (n : Nat) : Bytes :=
  if n < 0x80 then [n.toUInt8]
  else if n < 0x800 then [(0xC0 + n / 64).toUInt8, (0x80 + n % 64).toUInt8]
  else if n < 0x10000 then
    [(0xE0 + n / 4096).toUInt8, (0x80 + n / 64 % 64).toUInt8, (0x80 + n % 64).toUInt8]
  else
    [(0xF0 + n / 262144).toUInt8, (0x80 + n / 4096 % 64).toUInt8, (0x80 + n / 64 % 64).toUInt8,
      (0x80 + n % 64).toUInt8]

def hex4? (a b c d : UInt8) : Option Nat :=
  match Bytes.hexValue a, Bytes.hexValue b, Bytes.hexValue c, Bytes.hexValue d with
  | some w, some x, some y, some z => some (((w * 16 + x) * 16 + y) * 16 + z)
  | _, _, _, _ => none

def shortEscape? (b : UInt8) : Option UInt8 :=
  if b = byte '"' ∨ b = byte '\\' ∨ b = byte '/' then some b
  else if b = byte 'b' then some 8
  else if b = byte 'f' then some 12
  else if b = byte 'n' then some 10
  else if b = byte 'r' then some 13
  else if b = byte 't' then some 9
  else none

/-- The code point behind `\u` and the rest; two surrogates make one code point. -/
def readScalar : Bytes → Step Nat
  | a :: b :: c :: d :: rest =>
    match hex4? a b c d with
    | none => .error .escape
    | some n =>
      if n < 0xD800 ∨ 0xE000 ≤ n then .ok (n, rest)
      else
        match rest with
        | e :: u :: a' :: b' :: c' :: d' :: more =>
          match hex4? a' b' c' d' with
          | some m =>
            if n < 0xDC00 ∧ e = byte '\\' ∧ u = byte 'u' ∧ 0xDC00 ≤ m ∧ m < 0xE000 then
              .ok (0x10000 + (n - 0xD800) * 1024 + (m - 0xDC00), more)
            else .error .escape
          | none => .error .escape
        | _ => .error .escape
  | _ => .error .escape

/-- The string up to its closing quote; `size` bounds the length of the text. -/
def readString : Nat → Bytes → Step Bytes
  | 0, _ => .error .string
  | _ + 1, [] => .error .string
  | size + 1, b :: rest =>
    if b = byte '"' then .ok ([], rest)
    else if b = byte '\\' then
      match rest with
      | [] => .error .string
      | e :: more =>
        if e = byte 'u' then
          match readScalar more with
          | .error x => .error x
          | .ok (n, rest) =>
            match readString size rest with
            | .error x => .error x
            | .ok (s, rest) => .ok (encodeScalar n ++ s, rest)
        else
          match shortEscape? e with
          | none => .error .escape
          | some c =>
            match readString size more with
            | .error x => .error x
            | .ok (s, rest) => .ok (c :: s, rest)
    else if b < 32 then .error .string
    else
      match readString size rest with
      | .error x => .error x
      | .ok (s, rest) => .ok (b :: s, rest)

/-! ## Numbers -/

def nearest (mantissa : Nat) (exponent : Int) : Float :=
  let size : Int := exponent + (Nat.toDigits 10 mantissa).length
  if mantissa = 0 ∨ size < -400 then 0.0
  else if 400 < size then 1.0 / 0.0
  else if exponent < 0 then Float.ofScientific mantissa true exponent.natAbs
  else Float.ofScientific mantissa false exponent.natAbs

/-- Digits behind a mark, if the mark is there; at least one is needed then. -/
def readFraction : Bytes → Step Bytes
  | b :: rest =>
    if b = byte '.' then
      let digits := rest.takeWhile Bytes.isDigit
      if digits.isEmpty then .error .value else .ok (digits, rest.drop digits.length)
    else .ok ([], b :: rest)
  | [] => .ok ([], [])

def readExponent : Bytes → Step (Option Int)
  | b :: rest =>
    if b = byte 'e' ∨ b = byte 'E' then
      let negative := rest.head? == some (byte '-')
      let signed := negative || rest.head? == some (byte '+')
      let unsigned := if signed then rest.drop 1 else rest
      let digits := unsigned.takeWhile Bytes.isDigit
      if digits.isEmpty then .error .value
      else
        let size : Int := Bytes.valueFrom 0 digits
        .ok (some (if negative then -size else size), unsigned.drop digits.length)
    else .ok (none, b :: rest)
  | [] => .ok (none, [])

/-- The number of its parts: an integer if it is written as one and fits into 64 bits. -/
def numberOf (negative : Bool) (whole fraction : Bytes) (exponent : Option Int) : Number :=
  let mantissa := Bytes.valueFrom 0 (whole ++ fraction)
  let signed : Int := if negative then -(mantissa : Int) else mantissa
  if fraction.isEmpty ∧ exponent = none ∧ Int64.minValue.toInt ≤ signed ∧ signed < UInt64.size then
    .integer signed
  else
    let x := nearest mantissa (exponent.getD 0 - fraction.length)
    .real (if negative then -x else x)

def readNumber (s : Bytes) : Step Number :=
  let negative := s.head? == some (byte '-')
  let s := if negative then s.drop 1 else s
  let whole := s.takeWhile Bytes.isDigit
  if whole.isEmpty || (whole.length != 1 && whole.head? == some (byte '0')) then .error .value
  else
    match readFraction (s.drop whole.length) with
    | .error x => .error x
    | .ok (fraction, rest) =>
      match readExponent rest with
      | .error x => .error x
      | .ok (exponent, rest) => .ok (numberOf negative whole fraction exponent, rest)

/-! ## Values -/

/-- Why a document is not read: its text is malformed, or a value in it stands too deep. -/
inductive Unread
  | malformed (cause : Malformed)
  | tooDeep
  deriving DecidableEq, Repr

abbrev Reading (α : Type) := Except Unread (α × Bytes)

def ofStep {α β : Type} (f : α → β) : Step α → Reading β
  | .ok (a, rest) => .ok (f a, rest)
  | .error cause => .error (.malformed cause)

def readWord (word : Bytes) (value : Json) (s : Bytes) : Step Json :=
  match Bytes.without? word s with
  | some rest => .ok (value, rest)
  | none => .error .value

/-- Whether a name may be the next one of an object with the names `seen`; `none` says that names
may occur again. -/
def isNew (name : Bytes) : Option (List Bytes) → Bool
  | none => true
  | some seen => !seen.contains name

mutual

/-- A value, with blanks and comments in front of it. With `strict`, no object may have a name
twice; `size` bounds the number of parts that are read, and `room` their depth. -/
def readValue (strict : Bool) : Nat → Nat → Bytes → Reading Json
  | 0, _, _ | _, 0, _ => .error .tooDeep
  | size + 1, room + 1, s =>
    match skip .blanks s with
    | .error x => .error (.malformed x)
    | .ok [] => .error (.malformed .value)
    | .ok (b :: rest) =>
      if b = byte '\x7b' then
        match skip .blanks rest with
        | .error x => .error (.malformed x)
        | .ok next =>
          if next.head? = some (byte '\x7d') then .ok (.object [], next.drop 1)
          else
            match readMembers strict size room (if strict then some [] else none) next with
            | .error x => .error x
            | .ok (members, rest) => .ok (.object members, rest)
      else if b = byte '[' then
        match skip .blanks rest with
        | .error x => .error (.malformed x)
        | .ok next =>
          if next.head? = some (byte ']') then .ok (.array [], next.drop 1)
          else
            match readItems strict size room next with
            | .error x => .error x
            | .ok (items, rest) => .ok (.array items, rest)
      else if b = byte '"' then ofStep .string (readString (rest.length + 1) rest)
      else if b = byte '-' ∨ Bytes.isDigit b then ofStep .number (readNumber (b :: rest))
      else if b = byte 't' then ofStep id (readWord (ascii "true") (.bool true) (b :: rest))
      else if b = byte 'f' then ofStep id (readWord (ascii "false") (.bool false) (b :: rest))
      else if b = byte 'n' then ofStep id (readWord (ascii "null") .null (b :: rest))
      else .error (.malformed .value)

def readItems (strict : Bool) : Nat → Nat → Bytes → Reading (List Json)
  | 0, _, _ => .error .tooDeep
  | size + 1, room, s =>
    match readValue strict size room s with
    | .error x => .error x
    | .ok (item, rest) =>
      match skip .blanks rest with
      | .error x => .error (.malformed x)
      | .ok [] => .error (.malformed .itemEnd)
      | .ok (b :: rest) =>
        if b = byte ']' then .ok ([item], rest)
        else if b = byte ',' then
          match readItems strict size room rest with
          | .error x => .error x
          | .ok (items, rest) => .ok (item :: items, rest)
        else .error (.malformed .itemEnd)

/-- Members of an object behind those with the names `seen`, and its closing brace. -/
def readMembers (strict : Bool) :
    Nat → Nat → Option (List Bytes) → Bytes → Reading (List (Bytes × Json))
  | 0, _, _, _ => .error .tooDeep
  | size + 1, room, seen, s =>
    match skip .blanks s with
    | .error x => .error (.malformed x)
    | .ok [] => .error (.malformed .memberName)
    | .ok (q :: rest) =>
      if q ≠ byte '"' then .error (.malformed .memberName)
      else
        match readString (rest.length + 1) rest with
        | .error x => .error (.malformed x)
        | .ok (name, rest) =>
          match skip .blanks rest with
          | .error x => .error (.malformed x)
          | .ok [] => .error (.malformed .colon)
          | .ok (c :: rest) =>
            if c ≠ byte ':' then .error (.malformed .colon)
            else if !isNew name seen then .error (.malformed .repeatedName)
            else
              match readValue strict size room rest with
              | .error x => .error x
              | .ok (value, rest) =>
                match skip .blanks rest with
                | .error x => .error (.malformed x)
                | .ok [] => .error (.malformed .memberEnd)
                | .ok (b :: rest) =>
                  if b = byte '\x7d' then .ok ([(name, value)], rest)
                  else if b = byte ',' then
                    match readMembers strict size room (seen.map (name :: ·)) rest with
                    | .error x => .error x
                    | .ok (members, rest) => .ok ((name, value) :: members, rest)
                  else .error (.malformed .memberEnd)

end

/-! ## Documents -/

/-- The value of a document; a text has fewer parts than twice its bytes. -/
def readText (strict : Bool) (text : Bytes) : Except Unread Json :=
  match readValue strict (2 * text.length + 2) maxDepth text with
  | .error x => .error x
  | .ok (value, rest) =>
    match skip .blanks rest with
    | .error x => .error (.malformed x)
    | .ok [] => .ok value
    | .ok _ => .error (.malformed .trailing)

def Unread.failure : Unread → Failure
  | malformed cause => .malformed cause.message
  | tooDeep => .thrown depthFault

/-- The reader of those who name no other one. -/
instance plain : Reader where
  read strict text := (readText strict text).mapError Unread.failure

end TargetDiscovery.Json
