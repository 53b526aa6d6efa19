import EvuProxy.EventLog.Append

/-!
# The events file, byte by byte

`internal/eventlog` on a disk that only one logger writes and where nothing fails: the commands of an append on the bytes of the events
file, and `ReadTail`. What a record's line is and what a line is read as (`json.Marshal`, `json.Unmarshal` and the text of a time in whole
seconds) is a parameter.
-/

namespace EvuProxy.EventLog

open Fault

/-! ## Lines -/

/-- The newline. -/
def newline : UInt8 := 10

/-- White space of ASCII. A JSON text begins and ends with no other. -/
def isLineSpace (b : UInt8) : Bool := 9 ≤ b && b ≤ 13 || b == 32

/-- `bytes.TrimSpace`. -/
def trimLine (ln : List UInt8) : List UInt8 := ((ln.dropWhile isLineSpace).reverse.dropWhile isLineSpace).reverse

/-- What `lineBytes` makes of a record, without the newline. It is one line, and neither begins nor ends with white space. -/
structure LineBody where
  bytes : List UInt8
  oneLine : newline ∉ bytes
  notBlank : bytes ≠ []
  trimmed : trimLine bytes = bytes

/-- The line of a record in the file. -/
def LineBody.line (b : LineBody) : List UInt8 := b.bytes ++ [newline]

/-- `bytes.Split(b, "\n")` without the blank lines, each with a newline again. -/
def splitLines (b : List UInt8) : List (List UInt8) :=
  ((b.splitOn newline).filter fun ln => trimLine ln ≠ []).map fun ln => ln ++ [newline]

/-! ## Appending -/

def minMaxBytes : Nat := 256 * 1024

def maxMaxBytes : Nat := 8 * 1024 * 1024

/-- The cap of a logger that `New` makes. -/
def loggerCap (maxBytes : Nat) : Nat := min (max maxBytes minMaxBytes) maxMaxBytes

/-- The commands of an append on the bytes of the file, if there is one. A compaction reads lines and writes them one after the other. -/
def diskStep (c : LogCmd Unit Unit (List UInt8)) (file : Option (List UInt8)) :
    Except String ((logSig Unit Unit (List UInt8)).Ans c) × Option (List UInt8) :=
  match c with
  | .lock _ | .unlock _ | .succeeded => (.ok (), file)
  | .stat => (.ok (file.map List.length), file)
  | .readFile =>
    match file with
    | none => (.error "no such file or directory", none)
    | some b => (.ok ((splitLines b).map fun ln => { event := ln, number := 0 }), some b)
  | .replace lines => (.ok (), some (lines.flatMap fun ln => ln.event))
  | .openAppend => (.ok 0, some (file.getD []))
  | .write _ line => (.ok (), some (file.getD [] ++ line))

/-- A disk on which nothing fails. -/
abbrev logDisk : Machine (logSig Unit Unit (List UInt8)) where
  State := Option (List UInt8)
  Choice := Unit
  calm := ()
  step c _ file := .done (diskStep c file).1 (diskStep c file).2

/-- `Append` of a line by the logger. -/
def appendBytes (maxBytes : Nat) (line : List UInt8) : Prog (logSig Unit Unit (List UInt8)) Unit := append List.length () maxBytes line

/-! ## Reading -/

section

variable {ρ : Type}

/-- How records are written and read. A time is written in whole seconds; a record is what its line says. -/
structure Codec (ρ : Type) where
  lineBytes : ρ → LineBody
  unmarshal : List UInt8 → Option ρ
  ts : ρ → Int
  unmarshal_lineBytes : ∀ r, unmarshal (lineBytes r).bytes = some r

variable (codec : Codec ρ)

/-- The bytes that `ReadTail` looks at: the last of the file, without the line that is cut. -/
def tailBytes (maxBytes : Nat) (b : List UInt8) : List UInt8 :=
  let start := b.length - min maxBytes b.length
  let buf := b.drop start
  if 0 < start ∧ newline ∈ buf then (buf.dropWhile (· ≠ newline)).drop 1 else buf

/-- The records of the lines that can be read. -/
def readRecords (buf : List UInt8) : List ρ :=
  (buf.splitOn newline).filterMap fun ln => if trimLine ln = [] then none else codec.unmarshal (trimLine ln)

/-- The limit that `ReadTail` goes by. -/
def tailLimit (limit : Int) : Nat := if limit ≤ 0 then 50 else min limit.toNat 200

/-- What `sort.Slice` may leave: records in the order of their times, the newest first. It does not keep the order of equal ones. -/
def SortedNewest (recs sorted : List ρ) : Prop := sorted.Perm recs ∧ sorted.Pairwise fun a b => codec.ts b ≤ codec.ts a

/-- What `ReadTail` may return. -/
def ReadTail (maxBytes : Nat) (limit : Int) (file : Option (List UInt8)) (out : List ρ) : Prop :=
  match file with
  | none => out = []
  | some b => ∃ sorted, SortedNewest codec (readRecords codec (tailBytes maxBytes b)) sorted ∧ out = sorted.take (tailLimit limit)

end

end EvuProxy.EventLog
