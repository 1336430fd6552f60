import ActionItems.Annotation
import ActionItems.Language

/-! # Faults

What can go wrong in a scan, by cause, with the wording of each cause. Faults of a single file are
recoverable: the scan goes on without the file or reads it line by line. -/

namespace ActionItems

open Text

/-- A fault of the settings. -/
inductive SettingsFault where
  | missingDirectory (root : Path)
  | notADirectory (root : Path)
  | unreadableRoot (root : Path) (cause : Text)
  | invalidOption (option reason : Text)
  | invalidGlob (pattern reason : Text)
  deriving DecidableEq

/-- The wording of a fault of the settings. -/
def SettingsFault.message : SettingsFault → Text
  | .missingDirectory p => "root directory does not exist: ".toList ++ p
  | .notADirectory p => "root path is not a directory: ".toList ++ p
  | .unreadableRoot p cause =>
    "root directory is not readable: ".toList ++ p ++ ": ".toList ++ cause
  | .invalidOption o r => "invalid value for '".toList ++ o ++ "': ".toList ++ r
  | .invalidGlob p r => "invalid ignore glob '".toList ++ p ++ "': ".toList ++ r

/-- The fault of asking for no files at once. -/
def SettingsFault.noConcurrency : SettingsFault :=
  .invalidOption "concurrency".toList "must be at least 1".toList

/-- A fault of reading a source by its syntax. -/
inductive SyntaxFault where
  /-- The grammar cannot be used. -/
  | unavailable (language : Text)
  /-- The source was not read. -/
  | unread
  /-- The source is no program of the language; the line of the first error. -/
  | error (line : LineNumber)
  deriving DecidableEq

/-- The wording of a fault of a source. -/
def SyntaxFault.message : SyntaxFault → Text
  | .unavailable l => "failed to set ".toList ++ l ++ " language".toList
  | .unread => "failed to parse source code".toList
  | .error line => "syntax error near line ".toList ++ ofNat line.toNat

/-- A fault of the walk through a directory. Wrappers say where the fault inside arose. -/
inductive WalkFault where
  /-- The system refused an operation. -/
  | system (message : Text)
  /-- A link leads back to a directory above it. -/
  | loop (link ancestor : Text)
  /-- The fault arose at a path. -/
  | atPath (path : Text) (fault : WalkFault)
  /-- The fault arose a number of steps below the root. -/
  | atDepth (depth : Nat) (fault : WalkFault)
  /-- The fault arose in a line of a file of rules. -/
  | atLine (line : Nat) (fault : WalkFault)
  /-- Several faults at once, by their wordings. -/
  | several (messages : List Text)
  /-- A pattern cannot be read. -/
  | badGlob (glob : Option Text) (reason : Text)
  /-- A type of files has no definition. -/
  | unknownFileType (name : Text)
  /-- A type of files is not defined as it should be. -/
  | badDefinition
  deriving DecidableEq

namespace WalkFault

/-- The wording of a fault of the walk. -/
def message : WalkFault → Text
  | .system m => m
  | .loop link ancestor =>
    "File system loop found: ".toList ++ link ++ " points to an ancestor ".toList ++ ancestor
  | .atPath p f => p ++ ": ".toList ++ message f
  | .atDepth _ f => message f
  | .atLine line f => "line ".toList ++ ofNat line ++ ": ".toList ++ message f
  | .several ms => join ['\n'] ms
  | .badGlob (some g) reason => "error parsing glob '".toList ++ g ++ "': ".toList ++ reason
  | .badGlob none reason => reason
  | .unknownFileType name => "unrecognized file type: ".toList ++ name
  | .badDefinition => "invalid definition (format is type:glob;glob;glob;...)".toList

/-- Whether the fault is that the root itself cannot be walked. -/
def isOfRoot : WalkFault → Bool
  | .atDepth d _ => d == 0
  | .atPath _ f => isOfRoot f
  | _ => false

end WalkFault

/-- A fault of a scan. -/
inductive ScanFault where
  | settings (fault : SettingsFault)
  | walk (fault : WalkFault)
  | read (path : Path) (cause : Text)
  | parse (path : Path) (fault : SyntaxFault)
  deriving DecidableEq

namespace ScanFault

/-- The wording of the cause of a fault. -/
def cause : ScanFault → Text
  | .settings f => f.message
  | .walk f => f.message
  | .read _ cause => cause
  | .parse _ f => f.message

/-- The words in front of the cause. -/
def lead : ScanFault → Text
  | .settings _ => "invalid configuration: ".toList
  | .walk _ => "cannot walk scan root: ".toList
  | .read p _ => "cannot read ".toList ++ p ++ ": ".toList
  | .parse p _ => "line scan used for ".toList ++ p ++ ": ".toList

/-- The wording of a fault. -/
def message (f : ScanFault) : Text := f.lead ++ f.cause

/-- Whether a fault ends the scan. -/
def endsScan : ScanFault → Bool
  | .settings _ => true
  | .walk _ => true
  | .read _ _ => false
  | .parse _ _ => false

/-- Whether the scan goes on after the fault. -/
def sparesScan (f : ScanFault) : Bool := !f.endsScan

/-- The file that a fault is about. -/
def path? : ScanFault → Option Path
  | .settings _ => none
  | .walk _ => none
  | .read p _ => some p
  | .parse p _ => some p

end ScanFault

end ActionItems
