import IMeDesktop.Lib.Runs
import IMeDesktop.Storage.FileUtilitiesRoundTrip

/-! # The manager of local files

A file is written when its turn comes, and only the last content that waits for a name is written. A call may end
between any two of its file operations, or inside of one: what gets its name at once is there as a whole or not at
all, and what is written in its place is cut anywhere. What waits is lost then.

What is done with a file never fails after it was opened, apart from giving it its name, and files are always removed.
-/

namespace IMeDesktop.Storage.Details

open Lib DataStream

section Code

variable (crypto : Crypto)

/-- What is given to be written has its own signature behind it. -/
structure Content where
  entry : WriteEntry
  value : FileReadDescriptor
  reads : readBytes crypto entry.bytes = some value

def Content.ofArrays (arrays : List QByteArray) (fits : (arrays.flatMap putByteArray).length + 16 < 2 ^ 31) :
    Content crypto where
  entry := (written arrays).finish crypto
  value := ⟨AppVersion, arrays.flatMap putByteArray, 0⟩
  reads := readBytes_written crypto arrays fits

variable {crypto} {ν : Type} [DecidableEq ν]

/-- The directory after each step of `writeNow`. The plain file is written in its place. -/
def writeSteps (writing : Writing) (now : Nat) (entry : WriteEntry) (files : Files) : List Files :=
  let file := some ⟨entry.bytes, now⟩
  if writing.saved then
    let saved := files.set .safe file
    [saved, saved.set .simple none, saved.set .simple none |>.set .backup none]
  else if writing.opened then
    let cut (length : Nat) := files.set .simple (some ⟨entry.bytes.take length, now⟩)
    let plain := files.set .simple file |>.set .backup none
    (List.range (entry.bytes.length + 1)).map cut ++
      [plain, if writing.renamed then plain.set .safe file |>.set .simple none else plain.set .safe none]
  else []

/-- Directories of files by their names. -/
abbrev Folder (ν : Type) := ν → Files

/-- A file that is written. -/
structure Made (ν : Type) (crypto : Crypto) where
  base : ν
  content : Content crypto
  writing : Writing
  now : Nat

def Made.apply (made : Made ν crypto) (folder : Folder ν) : Folder ν :=
  Function.update folder made.base (writeNow made.writing made.now made.content.entry (folder made.base))

def Made.steps (made : Made ν crypto) (folder : Folder ν) : List (Folder ν) :=
  (writeSteps made.writing made.now made.content.entry (folder made.base)).map (Function.update folder made.base)

/-- `posted` is how many times `writeScheduled` is going to be called. -/
structure WriteManager (ν : Type) (crypto : Crypto) where
  folder : Folder ν
  scheduled : List (ν × Content crypto) := []
  posted : Nat := 0

namespace WriteManager

/-- The first one with this name, or one more. -/
def place (base : ν) (content : Content crypto) : List (ν × Content crypto) → List (ν × Content crypto)
  | [] => [(base, content)]
  | first :: rest => if first.1 = base then (base, content) :: rest else first :: place base content rest

/-- The first one with this name. -/
def dropFirst (base : ν) : List (ν × Content crypto) → List (ν × Content crypto)
  | [] => []
  | first :: rest => if first.1 = base then rest else first :: dropFirst base rest

def scheduleWrite (m : WriteManager ν crypto) : WriteManager ν crypto := { m with posted := m.posted + 1 }

def write (base : ν) (content : Content crypto) (m : WriteManager ν crypto) : WriteManager ν crypto :=
  { m with scheduled := place base content m.scheduled }.scheduleWrite

def writeSync (made : Made ν crypto) (m : WriteManager ν crypto) : WriteManager ν crypto :=
  { m with scheduled := dropFirst made.base m.scheduled, folder := made.apply m.folder }

def writeOneScheduledNow (writing : Writing) (now : Nat) (m : WriteManager ν crypto) : Bool × WriteManager ν crypto :=
  match m.scheduled with
  | [] => (false, m)
  | (base, content) :: rest =>
      (true, { m with scheduled := rest, folder := Made.apply ⟨base, content, writing, now⟩ m.folder })

/-- Called once for each time it was scheduled. -/
def writeScheduled (writing : Writing) (now : Nat) (m : WriteManager ν crypto) : WriteManager ν crypto :=
  let (wrote, m) := { m with posted := m.posted - 1 }.writeOneScheduledNow writing now
  if wrote = true ∧ m.scheduled ≠ [] then m.scheduleWrite else m

/-- As long as there is something to write. -/
def writeAll (works : Nat → Writing × Nat) : Nat → WriteManager ν crypto → WriteManager ν crypto
  | 0, m => m
  | rounds + 1, m =>
      match m.writeOneScheduledNow (works rounds).1 (works rounds).2 with
      | (false, m) => m
      | (true, m) => writeAll works rounds m

def writeSyncAll (works : Nat → Writing × Nat) (m : WriteManager ν crypto) : WriteManager ν crypto :=
  writeAll works (m.scheduled.length + 1) m

/-- The other one of two files is removed by the one who reads. -/
def readFile (base : ν) (m : WriteManager ν crypto) : WriteManager ν crypto :=
  match ReadFile crypto (m.folder base) with
  | none => m
  | some (_, files) => { m with folder := Function.update m.folder base files }

end WriteManager

/-- What is asked of the manager. -/
inductive Call (ν : Type) (crypto : Crypto) where
  | write (base : ν) (content : Content crypto)
  | writeSync (made : Made ν crypto)
  | writeScheduled (writing : Writing) (now : Nat)
  | writeSyncAll (works : Nat → Writing × Nat)
  | readFile (base : ν)

namespace WriteManager

def call (m : WriteManager ν crypto) : Call ν crypto → WriteManager ν crypto
  | .write base content => m.write base content
  | .writeSync made => m.writeSync made
  | .writeScheduled writing now => m.writeScheduled writing now
  | .writeSyncAll works => m.writeSyncAll works
  | .readFile base => m.readFile base

/-- The files that are written when everything that waits is. -/
def madeOf (works : Nat → Writing × Nat) : Nat → List (ν × Content crypto) → List (Made ν crypto)
  | 0, _ => []
  | _ + 1, [] => []
  | rounds + 1, (base, content) :: rest =>
      ⟨base, content, (works rounds).1, (works rounds).2⟩ :: madeOf works rounds rest

/-- The files that a call writes. -/
def made (m : WriteManager ν crypto) : Call ν crypto → List (Made ν crypto)
  | .write _ _ => []
  | .writeSync made => [made]
  | .writeScheduled writing now => madeOf (fun _ => (writing, now)) 1 m.scheduled
  | .writeSyncAll works => madeOf works (m.scheduled.length + 1) m.scheduled
  | .readFile _ => []

/-- The folder after each step of writing files. -/
def foldersOf : List (Made ν crypto) → Folder ν → List (Folder ν)
  | [], folder => [folder]
  | made :: rest, folder => folder :: made.steps folder ++ foldersOf rest (made.apply folder)

/-- A call may not come to its end. -/
inductive Event (ν : Type) (crypto : Crypto) where
  | call (call : Call ν crypto)
  | crash (call : Call ν crypto) (after : Nat)

def step (m : WriteManager ν crypto) : Event ν crypto → WriteManager ν crypto
  | .call call => m.call call
  | .crash call after => ⟨(foldersOf (m.made call) m.folder).getD after m.folder, [], 0⟩

end WriteManager

end Code

end IMeDesktop.Storage.Details
