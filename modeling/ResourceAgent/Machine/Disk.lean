import ResourceAgent.Text.Utf8

/-!
# Files of a machine

A disk is a tree of directories with files and programs at its leaves. A path is followed name by
name from the root or from the working directory: an empty name and `.` stay where they are, `..`
goes up, and every name asks for a directory to be looked up in. So a path that ends in a slash
leads to a directory or nowhere.
-/
namespace ResourceAgent

/-- What a path may lead to. -/
inductive DiskNode where
  | directory
  | file (bytes : List UInt8)
  /-- A file that can be run. -/
  | program (name : String)
deriving Repr, DecidableEq

/-- Why the system refuses a file. -/
inductive FileFault where
  | noEntry
  | tooManyArguments
  | noPermission
  | notDirectory
  | isDirectory
  | nameTooLong
  /-- The path has the character NUL in it. -/
  | nulInPath
  /-- The content is not UTF-8. -/
  | notText
deriving Repr, DecidableEq

/-- What the system calls the fault, and the number it gives it. -/
def FileFault.code? : FileFault → Option (String × Nat)
  | .noEntry => some ("No such file or directory", 2)
  | .tooManyArguments => some ("Argument list too long", 7)
  | .noPermission => some ("Permission denied", 13)
  | .notDirectory => some ("Not a directory", 20)
  | .isDirectory => some ("Is a directory", 21)
  | .nameTooLong => some ("File name too long", 36)
  | .nulInPath | .notText => none

def FileFault.message (fault : FileFault) : String :=
  match fault.code? with
  | some (reason, number) => reason ++ " (os error " ++ toString number ++ ")"
  | none =>
      if fault = .nulInPath then "file name contained an unexpected NUL byte"
      else "stream did not contain valid UTF-8"

/-- The fault as utilities tell it. -/
def FileFault.reason (fault : FileFault) : String :=
  match fault.code? with
  | some (reason, _) => reason
  | none => fault.message

/-- The names on the way from the root to a place. -/
abbrev Place := List String

/-- The places of a disk but for the root, and the working directory. -/
structure Disk where
  nodes : List (Place × DiskNode) := []
  workingDirectory : Place := []
deriving Repr

namespace Disk

/-- What is at a place; the root is a directory. -/
def node? (d : Disk) (p : Place) : Option DiskNode :=
  if p.isEmpty then some .directory else d.nodes.lookup p

/-- Put something at a place below the working directory. -/
def put (d : Disk) (names : List String) (node : DiskNode) : Disk :=
  { d with nodes := (d.workingDirectory ++ names, node) :: d.nodes }

/-- The parts of a path between slashes. -/
def slashParts : List Char → List (List Char)
  | [] => [[]]
  | c :: rest =>
      if c = '/' then [] :: slashParts rest
      else
        match slashParts rest with
        | [] => [[c]]
        | part :: parts => (c :: part) :: parts

def pathNames (path : String) : List String := (slashParts path.toList).map String.ofList

/-- The bytes that a name may have. -/
def nameLimit : Nat := 255

/-- The bytes that a path may have. -/
def pathLimit : Nat := 4095

def byteLength (s : String) : Nat := (Text.encodeUtf8 s).length

/-- Follow names from a place. -/
def follow (d : Disk) (p : Place) : List String → Except FileFault Place
  | [] => if (d.node? p).isSome then .ok p else .error .noEntry
  | name :: rest =>
      match d.node? p with
      | none => .error .noEntry
      | some (.file _) | some (.program _) => .error .notDirectory
      | some .directory =>
          if name = "" || name = "." then d.follow p rest
          else if name = ".." then d.follow p.dropLast rest
          else if nameLimit < byteLength name then .error .nameTooLong
          else d.follow (p ++ [name]) rest

def resolve (d : Disk) (path : String) : Except FileFault Place :=
  if path = "" then .error .noEntry
  else if pathLimit < byteLength path then .error .nameTooLong
  else d.follow (if path.front = '/' then [] else d.workingDirectory) (pathNames path)

def readBytes (d : Disk) (path : String) : Except FileFault (List UInt8) :=
  if path.toList.contains '\x00' then .error .nulInPath
  else
    match d.resolve path with
    | .error e => .error e
    | .ok p =>
        match d.node? p with
        | some (.file bytes) => .ok bytes
        | some (.program _) => .ok []
        | some .directory => .error .isDirectory
        | none => .error .noEntry

def readText (d : Disk) (path : String) : Except FileFault String :=
  match d.readBytes path with
  | .error e => .error e
  | .ok bytes =>
      match Text.decodeUtf8 bytes with
      | .ok text => .ok text
      | .error _ => .error .notText

def readProgram (d : Disk) (path : String) : Except FileFault String :=
  match d.resolve path with
  | .error e => .error e
  | .ok p =>
      match d.node? p with
      | some (.program name) => .ok name
      | _ => .error .noPermission

/-- An empty working directory beside a few directories that every system has. -/
def system : Disk where
  workingDirectory := ["work"]
  nodes :=
    [(["work"], .directory), (["tmp"], .directory), (["dev"], .directory),
      (["dev", "null"], .file []), (["bin"], .directory), (["usr"], .directory),
      (["usr", "bin"], .directory)]

/-- The disk with further files below the working directory, the later over the earlier. -/
def putAll (d : Disk) (files : List (List String × DiskNode)) : Disk :=
  files.foldl (fun d f => d.put f.1 f.2) d

end Disk

end ResourceAgent
