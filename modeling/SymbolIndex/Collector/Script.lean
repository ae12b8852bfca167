import SymbolIndex.Collector

/-!
# Scripted collectors

A collector that does as a script says, for trying out what is built around it. A path
may have results, fail or break down; any other file yields one callable for each of
its lines that is not blank.
-/

namespace SymbolIndex

structure Script where
  results : List (Path × Results)
  failures : List Path
  panics : List Path

namespace Script

def empty : Script := ⟨[], [], []⟩

def setResults (s : Script) (p : Path) (r : Results) : Script :=
  { s with results := (p, r) :: s.results }

def fail (s : Script) (p : Path) : Script := { s with failures := p :: s.failures }

def clearFailure (s : Script) (p : Path) : Script :=
  { s with failures := s.failures.filter fun q => !p.same q }

def panicOn (s : Script) (p : Path) : Script := { s with panics := p :: s.panics }

/-- One more line of a file, given the number of lines before it. -/
def addLine (r : Results) (before : Nat) (text : String) : Results :=
  let name := Text.trim text
  if name.isEmpty then r
  else r.define ⟨"line:" ++ name, .callable, name⟩ (UInt32.ofNat before + 1) 1

def lineResults (source : String) : Results :=
  (Text.lines source).zipIdx.foldl (fun r line => addLine r line.2 line.1) Results.empty

def collect (s : Script) (d : Disk) (p : Path) : Collected :=
  if s.panics.any p.same then .panicked ("scripted panic for " ++ p.display)
  else if s.failures.any p.same then .failed (.parse p "scripted failure")
  else match s.results.find? fun e => p.same e.1 with
    | some e => .results e.2
    | none =>
        match d.readText p with
        | .ok source => .results (lineResults source)
        | .error fault => .failed (.parse p fault.message)

end Script

/-- The collections that were begun, and how many are and were at most going on at once. -/
structure CallLog where
  calls : List (Path × List String)
  active : Nat
  peak : Nat

namespace CallLog

def empty : CallLog := ⟨[], 0, 0⟩

def begin (l : CallLog) (p : Path) (arguments : List String) : CallLog :=
  ⟨l.calls ++ [(p, arguments)], l.active + 1, max l.peak (l.active + 1)⟩

def finish (l : CallLog) : CallLog := { l with active := l.active - 1 }

def callsFor (l : CallLog) (p : Path) : Nat := (l.calls.filter fun call => p.same call.1).length

end CallLog
end SymbolIndex
