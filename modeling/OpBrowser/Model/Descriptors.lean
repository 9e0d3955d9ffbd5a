import Mathlib.Data.List.Basic
import Mathlib.Tactic.Common

/-! # Descriptor tables and `createProc` (kernel/main.cpp)

A table maps descriptor numbers to open ends. Every child gets two pipes of its
own, one to its standard input and one from its standard output. -/

namespace OpBrowser

inductive Side where
  | read | write
  deriving DecidableEq, Repr

/-- The pipe into a child (`inFd`) or out of it (`outFd`). -/
inductive Channel where
  | inPipe | outPipe
  deriving DecidableEq, Repr

/-- An open end: something the kernel was started with, or an end of a pipe made
for the child with this serial number. -/
inductive Desc where
  | inherited (n : ℕ)
  | pipe (child : ℕ) (channel : Channel) (side : Side)
  deriving DecidableEq, Repr

structure Slot where
  desc : Desc
  cloexec : Bool
  deriving DecidableEq, Repr

abbrev FdTable := List (Option Slot)

namespace FdTable

def slot (t : FdTable) (fd : ℕ) : Option Slot := (t[fd]?).join

/-- The lowest descriptor number that is not in use. -/
def lowestFree (t : FdTable) : ℕ := t.findIdx Option.isNone

def put (t : FdTable) (fd : ℕ) (s : Option Slot) : FdTable :=
  (t ++ List.replicate (fd + 1 - t.length) none).set fd s

def close (t : FdTable) (fd : ℕ) : FdTable := t.put fd none

/-- `pipe`: the two lowest free numbers, the read end first, not close-on-exec. It
fails when the second one is not below the limit on descriptor numbers. -/
def pipe (limit : ℕ) (t : FdTable) (child : ℕ) (channel : Channel) : Option (FdTable × ℕ × ℕ) :=
  let r := t.lowestFree
  let t := t.put r (some ⟨.pipe child channel .read, false⟩)
  let w := t.lowestFree
  if w < limit then some (t.put w (some ⟨.pipe child channel .write, false⟩), r, w) else none

/-- `dup2` clears the close-on-exec mark of the copy. -/
def dup2 (t : FdTable) (fd newFd : ℕ) : FdTable :=
  if fd = newFd then t
  else
    match t.slot fd with
    | some s => t.put newFd (some { s with cloexec := false })
    | none => t

def exec (t : FdTable) : FdTable :=
  t.map fun
    | some s => if s.cloexec then none else some s
    | none => none

end FdTable

def stdinFileno : ℕ := 0
def stdoutFileno : ℕ := 1

/-- The three descriptors that a program is started with. -/
def startTable : FdTable := (List.range 3).map fun n => some ⟨.inherited n, false⟩

/-- What `createProc` leaves behind: both tables and the two numbers the kernel keeps. -/
structure Spawned where
  parent : FdTable
  child : FdTable
  inFd : ℕ
  outFd : ℕ

/-- The descriptor side of `createProc`: two pipes, which the code asserts to be
made, `fork`, and in the child two `dup2` and `exec`. Only the parent closes the ends
it does not use. -/
def spawn (limit : ℕ) (t : FdTable) (child : ℕ) : Option Spawned := do
  let (t, inRead, inWrite) ← t.pipe limit child .inPipe
  let (t, outRead, outWrite) ← t.pipe limit child .outPipe
  return {
    parent := (t.close inRead).close outWrite
    child := ((t.dup2 inRead stdinFileno).dup2 outWrite stdoutFileno).exec
    inFd := inWrite
    outFd := outRead }

/-- The tables that the children of `n` calls start with, in the order of the
calls and with their serial numbers. A call without room for its pipes ends the
program. -/
def spawnAll (limit : ℕ) (t : FdTable) (child : ℕ) : ℕ → List (ℕ × FdTable)
  | 0 => []
  | n + 1 =>
      match spawn limit t child with
      | none => []
      | some ends => (child, ends.child) :: spawnAll limit ends.parent (child + 1) n

end OpBrowser
