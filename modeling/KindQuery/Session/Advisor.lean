import KindQuery.Config
import KindQuery.Index.File
/-!
# Index advisors

An advisor is told of every query before it is sent, and keeps the
composite index that the query needs. Where it keeps indexes is decided
when a session begins.
-/

namespace KindQuery

/-- Where the indexes that queries need are kept. -/
inductive Advisor where
  /-- Nowhere. -/
  | silent
  | memory (known : KnownIndexes)
  /-- In a file, at a path of a disk. -/
  | file (file : IndexFile) (disk : Disk)
deriving DecidableEq, Repr

namespace Advisor

/-- The advisor of a configuration. One that is given takes the place of
the file; neither is used unless indexes are to be kept. -/
def ofConfig (c : Config) (given : Option Advisor) (disk : Disk) : Except Error Advisor :=
  if !c.writesIndexFile then .ok .silent
  else
    match given with
    | some a => .ok a
    | none =>
      if c.indexFilePath.isEmpty then Fault.raise (.invalidConfig .noIndexPath)
      else .ok (.file (.ofPath c.indexFilePath) disk)

/-- Keeps the index that a query needs. -/
def advise (c : Compiled) : Advisor → Except Error Unit × Advisor
  | silent => (.ok (), silent)
  | memory known => (.ok (), memory (known.advise c))
  | file f d =>
    let (result, f, d) := f.advise c d
    (result, file f d)

/-- The indexes that are kept. -/
def indexes : Advisor → List Index
  | silent => []
  | memory known => known.indexes
  | file f _ => f.known.indexes

end Advisor

end KindQuery
