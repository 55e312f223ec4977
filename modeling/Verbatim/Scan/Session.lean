/-
  Scanning step by step.

  A session is always one token ahead: the token that comes next has been scanned
  already, and so have the problems in it.  Problems are handed out once.
-/
import Verbatim.Scan.Basic

set_option autoImplicit false

namespace Verbatim

/-- A scan in progress: the token that comes next, the place behind it, and the
problems that have not been handed out. -/
structure ScanSession where
  current : ScannedToken
  place : Scanner
  pending : List Diagnostic
  deriving DecidableEq, Repr, Inhabited

namespace ScanSession

/-- Starts scanning a text. -/
def start (source : Text) : Except Fault ScanSession := do
  let step ← (Scanner.start source).next
  return ⟨step.token, step.after, step.diagnostics⟩

/-- The token that comes next. -/
def peek (s : ScanSession) : ScannedToken :=
  s.current

/-- Hands out the token that comes next and scans the one behind it. -/
def next (s : ScanSession) : Except Fault (ScannedToken × ScanSession) := do
  let step ← s.place.next
  return (s.current, ⟨step.token, step.after, s.pending ++ step.diagnostics⟩)

/-- Hands out the problems found so far. -/
def takeDiagnostics (s : ScanSession) : List Diagnostic × ScanSession :=
  (s.pending, { s with pending := [] })

end ScanSession

end Verbatim
