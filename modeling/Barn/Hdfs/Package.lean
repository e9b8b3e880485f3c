import Barn.Platform.Joda

/-!
# The types of barn-hdfs

Directories and files on both sides, the errors of a sync round and the information in names, as
in the `barn` and `barn.placement` package objects. `Attempt` is a pure computation of a round:
it returns a value, an error (`Left`), or lets an exception escape.
-/

namespace Barn.Hdfs

/-- A local directory, as its path. -/
abbrev Dir := Text

/-- An HDFS directory, as its path. -/
abbrev HdfsDir := Text

/-- The path of an entry of a directory. -/
def childPath (parent name : Text) : Text :=
  parent ++ text "/" ++ name

/-- The last component of a path, without the slashes that may end it. -/
def getName (path : Text) : Text :=
  (path.rdropWhile (· = 47)).rtakeWhile (· ≠ 47)

/-- A local file: an entry of a directory with what the collector reads of it. -/
structure File where
  parent : Dir
  getName : Text
  isDirectory : Bool
  length : ℕ
  deriving DecidableEq

/-- The path of a local file. -/
def File.path (file : File) : Text :=
  childPath file.parent file.getName

/-- The path of an HDFS file. -/
structure HdfsFile where
  parent : HdfsDir
  getName : Text
  deriving DecidableEq

/-- How an HDFS file is printed. -/
def HdfsFile.toText (file : HdfsFile) : Text :=
  childPath file.parent file.getName

/-- `BarnError` -/
inductive BarnError where
  | thrownException (str : Text)
  | renameFailed (str : Text)
  | invalidNameFormat (str : Text)
  | combinedError (first second : BarnError)
  | fileNotFound (str : Text)
  | nothingToSync (str : Text)
  | syncThrottled (str : Text)
  deriving DecidableEq

/-- `DateBucket` -/
abbrev DateBucket := CalendarDate

/-- `PlacedFileInfo` -/
structure PlacedFileInfo where
  bucket : DateBucket
  host : Text
  service : Text
  taistamp : Text
  deriving DecidableEq

/-- `LocalServiceInfo` -/
@[ext] structure LocalServiceInfo where
  serviceName : Text
  hostName : Text
  deriving DecidableEq

/-- `ShippingPlan` -/
structure ShippingPlan where
  hdfsDir : HdfsDir
  hdfsTempDir : HdfsDir
  lastTaistamp : Option Text
  deriving DecidableEq

/-- What `collapseValidate` keeps of listed names. -/
abbrev Listing := Except BarnError (List PlacedFileInfo)

/-- A cached listing: the listing itself can fail too. -/
abbrev CachedListing := Except BarnError Listing

/-- `BarnConf`, as far as a round depends on it. -/
structure BarnConf where
  localTempDir : Dir
  hdfsLogDir : HdfsDir
  shipInterval : ℤ
  deriving DecidableEq

/-- How a computation of a round can fail: with a `Left`, or with an exception that escapes. -/
inductive Failure where
  | left (error : BarnError)
  | thrown (throwable : Throwable)
  deriving DecidableEq

/-- The result of a computation of a round. -/
abbrev Attempt (α : Type) := Except Failure α

/-- A bare call: its exception escapes. -/
def bare {α : Type} : Throws α → Attempt α
  | .ok value => .ok value
  | .error throwable => .error (.thrown throwable)

/-- A bare call returns what the computation returns. -/
theorem bare_eq_ok_iff {α : Type} {result : Throws α} {value : α} :
    bare result = .ok value ↔ result = .ok value := by
  cases result <;> simp [bare]

/-- The error that `validate` makes of an exception. -/
def caught (jvm : Jvm) (detail : Text) (throwable : Throwable) : BarnError :=
  .thrownException (detail ++ jvm.lineSeparator ++ jvm.getStackTrace throwable)

/-- `validate`: an exception becomes a `Left`. -/
def validate {α : Type} (jvm : Jvm) (detail : Text) : Attempt α → Attempt α
  | .error (.thrown throwable) => .error (.left (caught jvm detail throwable))
  | other => other

/-- `collapseValidate`: all values in order, or all errors combined. -/
def collapseValidate {α : Type} (results : List (Except BarnError α)) :
    Except BarnError (List α) :=
  match results.filterMap fun | .error error => some error | .ok _ => none with
  | [] => .ok (results.filterMap fun | .ok value => some value | .error _ => none)
  | head :: tail => .error (tail.foldl .combinedError head)

end Barn.Hdfs
