import UtilityCss.Files.Glob

/-!
# Failures of a pass

What can go wrong between the files of a project and its style sheet. A pass reports all of it, except
patterns and paths that mean nothing: those are mistakes of whoever wrote them.
-/

namespace UtilityCss

inductive Failure
  | missingRoot (root : Path)
  | rootIsFile (root : Path)
  | file (error : FileError)
  | encoding (fault : Text.Utf8.Fault)
  | pattern (fault : Glob.Fault)
  deriving DecidableEq, Repr

def Failure.message : Failure → String
  | missingRoot root => "Directory not found: " ++ root.text
  | rootIsFile root => "Not a directory: " ++ root.text
  | file error => error.message
  | encoding fault => fault.message
  | pattern fault => fault.message

def Failure.isReported : Failure → Bool
  | pattern _ => false
  | file error => error.fault ≠ .zeroByte
  | _ => true

end UtilityCss
