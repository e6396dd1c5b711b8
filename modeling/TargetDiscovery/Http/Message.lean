import TargetDiscovery.Http

/-!
# Messages as text

A message is a head and a body. The head is a first line and header lines up to a blank line; it
says how the end of the body is found: by its length, by chunks that give their own lengths, or by
the end of the connection.
-/

set_option autoImplicit false

namespace TargetDiscovery.Http

def lineEnd : Bytes := [13, 10]

structure Head where
  line : Bytes
  headers : List (Bytes × Bytes)
  deriving DecidableEq, Repr

namespace Head

def text (h : Head) : Bytes :=
  h.line ++ lineEnd ++
    h.headers.flatMap (fun f => f.1 ++ ascii ": " ++ f.2 ++ lineEnd) ++ lineEnd

def cutLine? : Bytes → Option (Bytes × Bytes)
  | [] => none
  | b :: rest =>
    if b = 13 ∧ rest.head? = some 10 then some ([], rest.drop 1)
    else (cutLine? rest).map fun (line, rest) => (b :: line, rest)

/-- The lines before the first blank one and what follows it; `count` bounds their number. -/
def cutLines? : Nat → Bytes → Option (List Bytes × Bytes)
  | 0, _ => none
  | count + 1, s =>
    match cutLine? s with
    | none => none
    | some ([], rest) => some ([], rest)
    | some (line, rest) => (cutLines? count rest).map fun (lines, rest) => (line :: lines, rest)

def isBlank (b : UInt8) : Bool := b == 32 || b == 9

def trim (s : Bytes) : Bytes := ((s.dropWhile isBlank).reverse.dropWhile isBlank).reverse

def ofLine (line : Bytes) : Bytes × Bytes :=
  let (name, value) := Bytes.cut (byte ':') line
  (name, trim (value.getD []))

/-- The head at the beginning of a text and what follows it, once it is complete. -/
def cut? (s : Bytes) : Option (Head × Bytes) :=
  match cutLines? (s.length + 1) s with
  | some (line :: lines, rest) => some (⟨line, lines.map ofLine⟩, rest)
  | _ => none

def words (h : Head) : List Bytes := Bytes.pieces 32 h.line

def versionOf? (word : Bytes) : Option Nat :=
  if word = ascii "HTTP/1.1" then some 11
  else if word = ascii "HTTP/1.0" then some 10
  else none

def status? (h : Head) : Option Nat :=
  match h.words with
  | version :: status :: _ => (versionOf? version).bind fun _ => Bytes.decimal? status
  | _ => none

def request? (h : Head) : Option Request :=
  match h.words with
  | [method, target, version] =>
    (versionOf? version).map fun v => ⟨method, target, v, SortedMap.ofList h.headers⟩
  | _ => none

def mentions (h : Head) (name word : Bytes) : Bool :=
  match header? name h.headers with
  | some value =>
    (Bytes.pieces (byte ',') (value.map Bytes.toLower)).any fun part => trim part == word
  | none => false

def keepsAlive (h : Head) (version : Nat) : Bool :=
  if version = 11 then !h.mentions (ascii "Connection") (ascii "close")
  else h.mentions (ascii "Connection") (ascii "keep-alive")

end Head

/-! ## Bodies -/

inductive Framing
  | length (size : Nat)
  | chunks
  | endOfStream
  deriving DecidableEq, Repr

inductive Body
  | partly
  | whole (body rest : Bytes)
  | broken
  deriving DecidableEq, Repr

namespace Body

def chunkSize? (line : Bytes) : Option Nat :=
  let digits := line.takeWhile fun b => (Bytes.hexValue b).isSome
  if digits.isEmpty then none
  else some (digits.foldl (fun n b => n * 16 + (Bytes.hexValue b).getD 0) 0)

/-- Reads chunks behind what has been read; `count` bounds their number. -/
def ofChunks : Nat → Bytes → Bytes → Body
  | 0, _, _ => broken
  | count + 1, read, s =>
    match Head.cutLine? s with
    | none => partly
    | some (line, rest) =>
      match chunkSize? line with
      | none => broken
      | some 0 =>
        match Head.cutLines? (rest.length + 1) rest with
        | some (_, rest) => whole read rest
        | none => partly
      | some size =>
        if rest.length < size + 2 then partly
        else ofChunks count (read ++ rest.take size) (rest.drop (size + 2))

def ofText (f : Framing) (closed : Bool) (s : Bytes) : Body :=
  match f with
  | .length size => if size ≤ s.length then whole (s.take size) (s.drop size) else partly
  | .chunks => ofChunks (s.length + 1) [] s
  | .endOfStream => if closed then whole s [] else partly

end Body

namespace Head

/-- How the end of the body is found; `otherwise` tells what holds if the head does not say. -/
def framing (h : Head) (otherwise : Framing) : Framing :=
  if h.mentions (ascii "Transfer-Encoding") (ascii "chunked") then .chunks
  else
    match (header? (ascii "Content-Length") h.headers).bind Bytes.decimal? with
    | some size => .length size
    | none => otherwise

end Head

/-! ## Texts -/

def versionWord (version : Nat) : Bytes :=
  if version = 11 then ascii "HTTP/1.1" else ascii "HTTP/1.0"

def Request.text (r : Request) : Bytes :=
  Head.text ⟨r.method ++ ascii " " ++ r.target ++ ascii " " ++ versionWord r.version,
    r.fields.entries⟩

def reason (status : Nat) : Bytes :=
  if status = 200 then ascii "OK"
  else if status = 400 then ascii "Bad Request"
  else if status = 404 then ascii "Not Found"
  else if status = 405 then ascii "Method Not Allowed"
  else ascii "Unknown"

/-- The text of a response; it says how long the body is and whether the connection is kept. -/
def responseText (status version : Nat) (keepAlive : Bool) (fields : Fields) (body : Bytes) :
    Bytes :=
  let connection := if keepAlive then ascii "keep-alive" else ascii "close"
  let head : Head :=
    ⟨versionWord version ++ ascii " " ++ Bytes.decimal status ++ ascii " " ++ reason status,
      fields.entries ++
        [(ascii "Content-Length", Bytes.decimal body.length), (ascii "Connection", connection)]⟩
  head.text ++ body

end TargetDiscovery.Http
