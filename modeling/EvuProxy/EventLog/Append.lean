import EvuProxy.Fault.Threads
import Mathlib.Algebra.GroupWithZero.Nat

/-!
# The event log

`internal/eventlog`: appends of several loggers, in one process or in many, to one events file. Of a line the program looks at the
length only, so an event is a value of any type with the length of its line, the newline included. A file that is replaced lives on for
whoever has it open.
-/

namespace EvuProxy.EventLog

open Fault

/-- A line of the events file. Who wrote it and when, and whether the write was undisturbed, the program never sees. -/
structure Line (ι ε : Type) where
  event : ε
  writer : Option ι := none
  number : Nat
  undisturbed : Bool := true
  deriving DecidableEq

/-- The commands of an append: the mutex of a logger, the calls on the events file, and the return to the caller. -/
inductive LogCmd (L ι ε : Type) where
  | lock (l : L)
  | unlock (l : L)
  | stat
  | readFile
  | replace (lines : List (Line ι ε))
  | openAppend
  | write (fd : Nat) (e : ε)
  | succeeded

/-- The answers: a size, if there is a file; the lines of a file; a descriptor. -/
abbrev logSig (L ι ε : Type) : Sig where
  Cmd := LogCmd L ι ε
  Ans
    | .stat => Option Nat
    | .readFile => List (Line ι ε)
    | .openAppend => Nat
    | _ => Unit
  Err := String

variable {L ι ε : Type}

/-! ## Appending -/

section program

variable (size : ε → Nat)

/-- The length of a file. -/
def fileSize (lines : List (Line ι ε)) : Nat := (lines.map fun ln => size ln.event).sum

/-- The loop of `compactLocked` from the newest line on: the lines kept, in order. -/
def keepNewest (target : Nat) : List (Line ι ε) → Nat → List (Line ι ε) → List (Line ι ε)
  | [], _, kept => kept
  | ln :: lns, total, kept =>
    if target < total + size ln.event ∧ kept ≠ [] then kept else keepNewest target lns (total + size ln.event) (ln :: kept)

/-- Drop the oldest lines until the rest fits, or one is left. -/
def dropOldest (maxBytes : Nat) : List (Line ι ε) → List (Line ι ε)
  | ln :: ln' :: lns =>
    if maxBytes < fileSize size (ln :: ln' :: lns) then dropOldest maxBytes (ln' :: lns) else ln :: ln' :: lns
  | lns => lns

/-- What `compactLocked` makes of the lines of a file; an event's line is never blank. -/
def compacted (maxBytes : Nat) (lines : List (Line ι ε)) : List (Line ι ε) :=
  let kept := dropOldest size maxBytes (keepNewest size (max (maxBytes * 80 / 100) 1024) lines.reverse 0 [])
  if maxBytes < fileSize size kept then [] else kept

/-- `compactLocked`. -/
def compactLocked (maxBytes : Nat) : Prog (logSig L ι ε) Unit := do
  let b ← Prog.perform (S := logSig L ι ε) .readFile
  Prog.perform (S := logSig L ι ε) (.replace (compacted size maxBytes b))

/-- `appendLine`. -/
def appendLine (e : ε) : Prog (logSig L ι ε) Unit := do
  let fd ← Prog.perform (S := logSig L ι ε) .openAppend
  Prog.perform (S := logSig L ι ε) (.write fd e)

/-- `appendAfterCompact`, with the tries that are left. -/
def appendAfterCompact (maxBytes : Nat) (e : ε) : Nat → Prog (logSig L ι ε) Unit
  | 0 => .fail "events compaction failed after retries"
  | tries + 1 => do
    let st ← Prog.perform (S := logSig L ι ε) .stat
    let cur := st.getD 0
    if cur + size e ≤ maxBytes then appendLine e
    else if cur = 0 then appendLine e
    else do
      (compactLocked size maxBytes).mapErr fun err => "events compaction: " ++ err
      appendAfterCompact maxBytes e tries

/-- The part of `Append` under the mutex. -/
def appendLocked (maxBytes : Nat) (e : ε) : Prog (logSig L ι ε) Unit := do
  appendAfterCompact size maxBytes e 3
  match ← Prog.perform (S := logSig L ι ε) .stat with
  | none => Prog.fail "no such file or directory"
  | some n => if maxBytes < n then Prog.fail "events file over cap after append (unexpected)" else return ()

/-- `Append`, by a logger with the mutex `l`; the last command is the return of success to the caller. -/
def append (l : L) (maxBytes : Nat) (e : ε) : Prog (logSig L ι ε) Unit :=
  if maxBytes < size e then .fail "event line exceeds max bytes"
  else do
    Prog.perform (S := logSig L ι ε) (.lock l)
    let r ← (appendLocked size maxBytes e).attempt
    Prog.perform (S := logSig L ι ε) (.unlock l)
    Prog.ofExcept (S := logSig L ι ε) r
    Prog.perform (S := logSig L ι ε) .succeeded

end program

/-! ## The host -/

/-- The files, by number, one of which may be at the path; who holds each mutex; and, as a record of what happened, who has read the
file for a compaction and not replaced it yet, every line written, and who was told of a success. -/
structure LogState (L ι ε : Type) where
  files : Nat → List (Line ι ε)
  path : Option Nat
  fresh : Nat
  holder : L → Option ι := fun _ => none
  compacting : List ι := []
  written : List (Line ι ε)
  told : ι → Bool := fun _ => false

/-- The lines of the events file. -/
def LogState.content (s : LogState L ι ε) : List (Line ι ε) :=
  match s.path with
  | none => []
  | some n => s.files n

/-- What is decided at a turn: whether the command fails, and whether the process is killed before it. -/
structure LogChoice where
  fails : Bool := false
  killed : Bool := false
  deriving DecidableEq

section machine

variable [DecidableEq ι]

/-- The append `i` no longer compacts. -/
def LogState.compacted (s : LogState L ι ε) (i : ι) : LogState L ι ε := { s with compacting := s.compacting.filter (· ≠ i) }

/-- The line that a write of `i` to the file `fd` adds. The write is undisturbed if the file is the one at the path, and nobody else has
read it for a compaction without having replaced it. -/
def LogState.line (s : LogState L ι ε) (i : ι) (fd : Nat) (e : ε) : Line ι ε where
  event := e
  writer := some i
  number := s.written.length
  undisturbed := s.path = some fd ∧ ∀ j ∈ s.compacting, j = i

variable [DecidableEq L] (size : ε → Nat)

/-- A command of a thread. The mutex is waited for. -/
def logStep (i : ι) (c : LogCmd L ι ε) (ch : LogChoice) (s : LogState L ι ε) :
    Option (Outcome String ((logSig L ι ε).Ans c) (LogState L ι ε)) :=
  if ch.killed then some (.killed (s.compacted i))
  else
    match c with
    | .lock l => if (s.holder l).isSome then none else some (.done (.ok ()) { s with holder := Function.update s.holder l (some i) })
    | .unlock l => some (.done (.ok ()) { s with holder := Function.update s.holder l none })
    | .stat => some (.done (if ch.fails then .error "stat" else .ok (s.path.map fun n => fileSize size (s.files n))) s)
    | .readFile =>
      match ch.fails, s.path with
      | false, some n => some (.done (.ok (s.files n)) { s with compacting := i :: s.compacting })
      | _, _ => some (.done (.error "read") s)
    | .replace lines =>
      if ch.fails then some (.done (.error "rename") (s.compacted i))
      else
        some (.done (.ok ()) { s.compacted i with
          files := Function.update s.files s.fresh lines, path := some s.fresh, fresh := s.fresh + 1 })
    | .openAppend =>
      match ch.fails, s.path with
      | true, _ => some (.done (.error "open") s)
      | false, some n => some (.done (.ok n) s)
      | false, none =>
        some (.done (.ok s.fresh) { s with
          files := Function.update s.files s.fresh [], path := some s.fresh, fresh := s.fresh + 1 })
    | .write fd e =>
      if ch.fails then some (.done (.error "write") s)
      else
        some (.done (.ok ()) { s with
          files := Function.update s.files fd (s.files fd ++ [s.line i fd e]), written := s.written ++ [s.line i fd e] })
    | .succeeded => some (.done (.ok ()) { s with told := Function.update s.told i true })

/-- The events file of a host, and the threads that append to it. -/
abbrev logHost : Shared (logSig L ι ε) ι where
  State := LogState L ι ε
  Choice := LogChoice
  step := logStep size

end machine

end EvuProxy.EventLog
