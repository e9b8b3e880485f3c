import Barn.Hdfs.Placement.Names
import Barn.Hdfs.World
import Mathlib.Data.List.Sort

/-!
# Local files

Listing a service directory in the order of its file names and deleting retained files, as in
`localfs.scala` and `placement/local.scala`.
-/

namespace Barn.Hdfs

/-- The name matches the pattern of the exclude list: a dot and the rest of a line. -/
def excluded (name : Text) : Bool :=
  name.head? = some 46 ∧ name.tail.all dot

/-- The files of a listing that count, in the order of their paths. -/
def sortedFiles (listing : List File) : List File :=
  ((listing.filter fun file => !file.isDirectory).filter fun file =>
    !excluded file.getName).insertionSort fun first second => first.path ≤ second.path

/-- The sorted files are in the order of their paths. -/
theorem pairwise_sortedFiles (listing : List File) :
    (sortedFiles listing).Pairwise fun first second => first.path ≤ second.path := by
  have htotal : Std.Total fun first second : File => first.path ≤ second.path :=
    ⟨fun first second => le_total first.path second.path⟩
  have htrans : IsTrans File fun first second => first.path ≤ second.path :=
    ⟨fun _ _ _ => le_trans⟩
  exact List.pairwise_insertionSort _ _

/-- `listSortedLocalFiles` -/
def listSortedLocalFiles (jvm : Jvm) (dir : Dir) : Action (List File) :=
  Action.validate jvm (text "Can't list local files on: " ++ dir) do
    match ← Action.listFiles dir with
    | none => Action.attempt (.error (.thrown .nullPointer))
    | some listing => return sortedFiles listing

/-- `sumFileSizes` -/
def sumFileSizes (files : List File) : ℤ :=
  files.foldl (fun sum file => toLong (sum + file.length)) 0

/-- The deletion loop of `cleanupLocal`: how many files it deletes and how many bytes remain. -/
def deleteRetained (jvm : Jvm) (cleanupLimit : DateTime) (minMB : ℤ) :
    List File → ℤ × ℤ → Action (ℤ × ℤ)
  | [], deletedSoFar => return deletedSoFar
  | file :: files, (deletedSoFar, curSize) => do
      let ts ← Action.attempt (bare (fileTime jvm file))
      if ts.isBefore cleanupLimit ∧ toInt (minMB * 1024 * 1024) < curSize then
        Action.delete file
        deleteRetained jvm cleanupLimit minMB files
          (toInt (deletedSoFar + 1), toLong (curSize - file.length))
      else deleteRetained jvm cleanupLimit minMB files (deletedSoFar, curSize)

/-- `cleanupLocal`: the last file is never considered. -/
def cleanupLocal (jvm : Jvm) (dir : Dir) (cleanupLimit : DateTime) (minMB : ℤ) :
    Action (ℤ × ℤ) := do
  let localFiles ← listSortedLocalFiles jvm dir
  Action.validate jvm (text "Deletion of retained files failed.")
    (deleteRetained jvm cleanupLimit minMB (localFiles.rdrop 1) (0, sumFileSizes localFiles))

end Barn.Hdfs
