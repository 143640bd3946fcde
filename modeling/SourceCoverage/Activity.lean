import SourceCoverage.Path

namespace SourceCoverage

inductive Phase where
  | reading
  | cacheCheck
  | parsing
  | finding
  | inserting
  | writing
  | compiling
deriving DecidableEq, Repr

def Phase.text : Phase → String
  | reading => "reading"
  | cacheCheck => "cache_check"
  | parsing => "parsing"
  | finding => "finding"
  | inserting => "rewriting"
  | writing => "writing"
  | compiling => "compiling"

structure Activity where
  phase : Option Phase := none
  file : Option Path := none
deriving DecidableEq, Repr

structure Progress where
  processed : Nat := 0
  total : Nat := 0
deriving DecidableEq, Repr

def Progress.advance (p : Progress) : Progress := { p with processed := p.processed + 1 }

/-- An activity with what it replaced, one keepsake for each phase and file entered. -/
structure ActivityTrack where
  activity : Activity := {}
  progress : Progress := {}
  /-- In the order of entering; nothing where the phase or file has been left. -/
  keepsakes : List (Option Activity) := []
deriving DecidableEq, Repr

inductive ActivityStep where
  | enterPhase (phase : Phase)
  | enterFile (file : Path)
  /-- Leaves what was entered as the given one, counted from zero. -/
  | leave (index : Nat)
  | setProgress (progress : Progress)
  | advance
  | reset
deriving DecidableEq, Repr

namespace ActivityTrack

def enter (t : ActivityTrack) (activity : Activity) : ActivityTrack :=
  { t with activity, keepsakes := t.keepsakes ++ [some t.activity] }

def step (t : ActivityTrack) : ActivityStep → ActivityTrack
  | .enterPhase phase => t.enter { t.activity with phase := some phase }
  | .enterFile file => t.enter { t.activity with file := some file }
  | .leave index =>
    match t.keepsakes[index]? with
    | some (some before) => { t with activity := before, keepsakes := t.keepsakes.set index none }
    | _ => t
  | .setProgress progress => { t with progress }
  | .advance => { t with progress := t.progress.advance }
  | .reset => { t with activity := {} }

end ActivityTrack

/-- The level of detail of messages for a number of `-v` flags. -/
def verbosityLevel : Nat → String
  | 0 => "warn"
  | 1 => "info"
  | 2 => "debug"
  | _ => "trace"

/-- A text cut to a number of characters, dots standing for what is missing. -/
def shorten (text : String) (limit : Nat) : String :=
  if text.length ≤ limit then text else String.ofList (text.toList.take (limit - 3)) ++ "..."

namespace CrashReport

def rule : String := String.ofList (List.replicate 80 '═')

def header : List String :=
  [rule, "COVERON CRASH REPORT", "Version: 0.1.0", "Platform: linux", rule]

/-- The cause of a crash; not every cause is a text. -/
def causeLine (cause : Option String) : String := "PANIC: " ++ shorten (cause.getD "Unknown panic") 72

def activityLines (activity : Activity) (progress : Progress) : List String :=
  [rule, "OPERATION CONTEXT:",
    match activity.phase with
    | some phase => s!"  Phase: {phase.text}"
    | none => "  Phase: (not set, crash happened before instrumentation)"] ++
  (activity.file.map fun file => "  File: " ++ shorten file.text 70).toList ++
  (if progress.total = 0 then []
    else [s!"  Progress: {progress.processed} / {progress.total} files " ++
      s!"({progress.processed * 100 / progress.total}%)"])

def footer : List String := [rule, "Run with RUST_BACKTRACE=1 for stack trace"]

/-- What is printed when a run crashes. -/
def text (cause : Option String) (activity : Activity) (progress : Progress) : String :=
  "\n" ++ "\n".intercalate (header ++ causeLine cause :: activityLines activity progress ++ footer) ++ "\n"

end CrashReport

end SourceCoverage
