import PascalTokens.Read

/-! Files by their paths. -/
namespace PascalTokens

inductive Entry
  | file (bytes : List UInt8)
  | directory

/-- The entries of the working directory and of the directories in it. -/
structure Disk where
  entries : List (List String × Entry)

namespace Disk

inductive Location
  /-- Some directory above the working directory. -/
  | above
  | directory (path : List String)
  | file (bytes : List UInt8)

def maxNameBytes : Nat := 255

def maxPathBytes : Nat := 4095

def enter (d : Disk) (name : String) : Location → Except Failure Location
  | .file _ => .error .notADirectory
  | .above =>
    if name = "." || name = ".." then .ok .above
    else if name.utf8ByteSize > maxNameBytes then .error .nameTooLong
    else .error .notFound
  | .directory path =>
    if name = "." then .ok (.directory path)
    else if name = ".." then
      .ok (if path.isEmpty then .above else .directory path.dropLast)
    else if name.utf8ByteSize > maxNameBytes then .error .nameTooLong
    else match d.entries.lookup (path ++ [name]) with
      | none => .error .notFound
      | some .directory => .ok (.directory (path ++ [name]))
      | some (.file bytes) => .ok (.file bytes)

/-- A slash after the last name asks for a directory. -/
def locate (d : Disk) (path : String) : Except Failure Location :=
  let start : Location := if path.startsWith "/" then .above else .directory []
  let names := (path.splitOn "/").filter (· ≠ "")
  let names := if path.endsWith "/" then names ++ ["."] else names
  names.foldlM (fun here name => d.enter name here) start

/-- The files of a disk. A directory can be opened, but not read. -/
def files (d : Disk) : Files := fun path =>
  if path.isEmpty then .error .notFound
  else if path.contains '\x00' then .error .nulInPath
  else if path.utf8ByteSize > maxPathBytes then .error .nameTooLong
  else match d.locate path with
    | .error f => .error f
    | .ok (.file bytes) => .ok [.data bytes]
    | .ok _ => .ok [.failure .isADirectory]

end Disk
end PascalTokens
