import TargetDiscovery.Base64

/-!
# Blocks of textual key files

A block is base64 text between a line that begins it and one that ends it, both with the name of
the block. Other text around blocks is passed over, and so is a malformed block. A header in front
of the base64 text ends at a blank line. Lines are read in chunks of 254 bytes and lose blanks,
control bytes and bytes from 128 on at their end.
-/

set_option autoImplicit false

namespace TargetDiscovery.Pem

/-- A line or a chunk of one; `continues` marks what goes on from the chunk before. -/
structure Line where
  continues : Bool
  text : Bytes
  deriving Repr

def chunkSize : Nat := 254

def isTrailer (b : UInt8) : Bool := b ≤ 32 || 128 ≤ b

def lineOf (continues : Bool) (read : Bytes) : Line :=
  ⟨continues, (read.dropWhile isTrailer).reverse⟩

/-- Cuts a text into lines; `room` is what is left of the chunk that `read` begins. -/
def cutLines (continues : Bool) (room : Nat) (read : Bytes) : Bytes → List Line
  | [] => if read.isEmpty then [] else [lineOf continues read]
  | b :: rest =>
    if b = 10 then lineOf continues read :: cutLines false chunkSize [] rest
    else if room ≤ 1 then lineOf continues (b :: read) :: cutLines true chunkSize [] rest
    else cutLines continues (room - 1) (b :: read) rest

def lines (text : Bytes) : List Line := cutLines false chunkSize [] text

def between? (front back line : Bytes) : Option Bytes :=
  match Bytes.without? front line with
  | none => none
  | some rest => (Bytes.without? back.reverse rest.reverse).map List.reverse

def dashes : Bytes := ascii "-----"

def beginning? (line : Bytes) : Option Bytes := between? (ascii "-----BEGIN ") dashes line

def ending? (line : Bytes) : Option Bytes := Bytes.without? (ascii "-----END ") line

/-- Where a line inside a block stands; without a header only the end tells. -/
inductive Part
  | undecided | header | body
  deriving DecidableEq, Repr

structure Inside where
  name : Bytes
  part : Part := .undecided
  header : Bytes := []
  body : Bytes := []
  short : Bool := false

def fullLine : Nat := 64

/-- Takes one more line that is neither blank nor the end; a short line behind a header must be
the last, and none is longer than a full one. -/
def Inside.take? (s : Inside) (line : Bytes) : Option Inside :=
  let part := if s.part = .undecided ∧ line.contains (byte ':') then .header else s.part
  let text := Bytes.toNul (line ++ [10])
  if s.short then none
  else if part = .body then
    if line.length ≤ fullLine then
      some { s with body := s.body ++ text, short := decide (line.length < fullLine) }
    else none
  else some { s with part := part, header := s.header ++ text }

/-- A blank line ends the header; a second one is malformed. -/
def Inside.blank? (s : Inside) (continues : Bool) : Option Inside :=
  if continues then some s
  else if s.part = .body then none
  else some { s with part := .body }

def Inside.parts (s : Inside) : Bytes × Bytes :=
  if s.part = .undecided then ([], s.header) else (s.header, s.body)

def isGap (b : UInt8) : Bool := b == 32 || b == 9 || b == 10 || b == 13

/-- The bytes of base64 text; a hyphen ends it, and padding stands at the end only. -/
def decodeBody? (text : Bytes) : Option Bytes :=
  let s := (text.filter fun b => !isGap b).takeWhile (· != byte '-')
  let padded := (s.reverse.takeWhile (· == byte '=')).length
  if s.isEmpty || s.length % 4 != 0 || 2 < padded ||
      (s.take (s.length - padded)).contains (byte '=') then none
  else (Base64.groups? s).map fun out => out.take (out.length - padded)

structure Block where
  name : Bytes
  header : Bytes
  content : Bytes
  deriving Repr

def Inside.finish? (s : Inside) : Option Block :=
  (decodeBody? s.parts.2).map fun content => ⟨s.name, s.parts.1, content⟩

/-- The mark with which some files begin. -/
def byteOrderMark : Bytes := [0xEF, 0xBB, 0xBF]

/-- A line without the mark, which may stand where the search for a block begins. -/
def unmarked (fresh : Bool) (line : Bytes) : Bytes :=
  if fresh then (Bytes.without? byteOrderMark line).getD line else line

/-- Where the reading of lines stands: before a block, or inside one. -/
inductive Reading
  | before (fresh : Bool)
  | inside (s : Inside)

/-- The blocks of a text in their order; `none` stands for one that is given up as malformed, and
the search goes on behind the line at which that shows. -/
def scan : Reading → List Line → List (Option Block)
  | _, [] => []
  | .before fresh, line :: rest =>
    match beginning? (unmarked fresh line.text) with
    | some name => scan (.inside { name := name }) rest
    | none => scan (.before false) rest
  | .inside s, line :: rest =>
    if line.text.isEmpty then
      match s.blank? line.continues with
      | some s => scan (.inside s) rest
      | none => none :: scan (.before true) rest
    else
      match ending? line.text with
      | some last =>
        (if last = s.name ++ dashes then s.finish? else none) :: scan (.before true) rest
      | none =>
        match s.take? line.text with
        | some s => scan (.inside s) rest
        | none => none :: scan (.before true) rest

def blocks (text : Bytes) : List (Option Block) := scan (.before true) (lines text)

end TargetDiscovery.Pem
