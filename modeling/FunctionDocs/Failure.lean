import FunctionDocs.Text.Quoted

/-!
# Failures

The causes for which an operation can give no result, and the message that goes with each.
-/

namespace FunctionDocs

/-- What a line number was needed for. -/
inductive LineUse where
  | subtraction
  | addition
  | range
  | comparison
  deriving DecidableEq, Repr

/-- Why an operation gave no result. -/
inductive Failure where
  /-- A record lacks a field. -/
  | missingKey (key : Text)
  /-- A position lies outside a list. -/
  | noSuchItem
  /-- A head of a function is followed by something other than a body. -/
  | danglingHead
  /-- The line of a definition is not known, but it is needed. -/
  | unplaced (use : LineUse)
  /-- A value of this kind has no such operation. -/
  | noOperation (kind operation : Text)
  /-- Bytes from `first` up to but not including `stop` are no text; `byte` is the first of them. -/
  | undecodable (byte first stop : Nat) (reason : Text)
  | notFound (path : Text)
  | notDirectory (path : Text)
  | isDirectory (path : Text)
  | alreadyExists (path : Text)
  | sameFile (path target : Text)
  | notIndexable (kind : Text)
  | notIterable (kind : Text)
  | notPath (kind : Text)
  /-- A path of this kind cannot be looked up. -/
  | notStatable (kind : Text)
  | unknownFormat (name : Text)
  /-- The world outside refused, for a reason of its own. -/
  | refused (kind message : Text)
  /-- A process ended with a code other than zero. -/
  | processFailed (command : List Text) (code : Int)
  /-- The web could not be reached. -/
  | unreachable (message : Text)
  /-- A configuration cannot be read. -/
  | malformedConfig
  | notJoinable (kind : Text)
  | noConfig
  | unknownLevel (name : Text)
  | notSearchable (kind : Text)
  /-- A range of commits holds characters that are not let through. -/
  | suspectRange (range : Text)
  /-- The name of a tag is empty or holds characters that are not let through. -/
  | badTag (name : Text)
  | noSection (version : Text)
  | noCategory (name : Text)
  /-- A query was answered with a status other than success. -/
  | queryFailed (status : Int) (answer : Text)
  /-- A replacement text is malformed at a position. -/
  | badTemplate (message : Text)
  | unknownGroup (name : Text)
  | outside (path root : Text)
  | noPart
  | malformedScript (file : Text) (line : Nat)
  | scriptMissing (path : Text)
  /-- The path of a setup script holds characters that are not let through, or has another ending. -/
  | suspectScript (path : Text)
  | notCallable (kind : Text)
  | unknownPeriod (name : Text)
  /-- A weekly period does not name its day. -/
  | dayMissing (name : Text)
  | unknownDay (name : Text)
  /-- A web answer tells a failure. -/
  | webStatus (status : Int)
  | noLength (kind : Text)
  | noEntry (number : Int)
  deriving DecidableEq, Repr

def Failure.message : Failure → Text
  | .missingKey key => "'" ++ key ++ "'"
  | .noSuchItem => "list index out of range"
  | .danglingHead => "'NoneType' object has no attribute 'group'"
  | .unplaced .subtraction => "unsupported operand type(s) for -: 'NoneType' and 'int'"
  | .unplaced .addition => "unsupported operand type(s) for +: 'NoneType' and 'int'"
  | .unplaced .range => "'NoneType' object cannot be interpreted as an integer"
  | .unplaced .comparison => "'>' not supported between instances of 'NoneType' and 'int'"
  | .undecodable byte first stop reason =>
    "'utf-8' codec can't decode " ++
      (if stop = first + 1 then "byte 0x" ++ Text.hexOf 2 byte ++ " in position " ++ Text.ofNat first
      else "bytes in position " ++ Text.ofNat first ++ "-" ++ Text.ofNat (stop - 1)) ++ ": " ++ reason
  | .notFound path => "[Errno 2] No such file or directory: " ++ Text.quoted path
  | .notDirectory path => "[Errno 20] Not a directory: " ++ Text.quoted path
  | .isDirectory path => "[Errno 21] Is a directory: " ++ Text.quoted path
  | .alreadyExists path => "[Errno 17] File exists: " ++ Text.quoted path
  | .sameFile path target => Text.quoted path ++ " and " ++ Text.quoted target ++ " are the same file"
  | .notIndexable kind =>
    if kind == "list" then "list indices must be integers or slices, not str"
    else if kind == "str" then "string indices must be integers, not 'str'"
    else "'" ++ kind ++ "' object is not subscriptable"
  | .notIterable kind => "'" ++ kind ++ "' object is not iterable"
  | .notPath kind => "expected str, bytes or os.PathLike object, not " ++ kind
  | .notStatable kind => "stat: path should be string, bytes, os.PathLike or integer, not " ++ kind
  | .unknownFormat name => "Invalid Output Format: " ++ name
  | .refused _ message => message
  | .processFailed command code =>
    "Command '" ++ Text.quotedList command ++ "' returned non-zero exit status " ++ Text.ofInt code ++ "."
  | .unreachable message => message
  | .malformedConfig => "malformed config"
  | .notJoinable kind => "join() argument must be str, bytes, or os.PathLike object, not '" ++ kind ++ "'"
  | .noConfig => "'NoneType' object does not support item assignment"
  | .unknownLevel name => "module 'logging' has no attribute '" ++ name ++ "'"
  | .notSearchable kind => "argument of type '" ++ kind ++ "' is not iterable"
  | .suspectRange range =>
    "Unsafe range_spec detected: " ++ range ++
      "\nShell-injection risk! This error is raised to protect subprocess.run()."
  | .badTag name => "Invalid git tag name: " ++ name
  | .noSection version => "Version " ++ version ++ " not found in changelog."
  | .noCategory name => "Category '" ++ name ++ "' not found."
  | .queryFailed status answer => "Query failed with code " ++ Text.ofInt status ++ ": " ++ answer
  | .badTemplate message => message
  | .unknownGroup name => "unknown group name " ++ Text.quoted name
  | .outside path root =>
    Text.quoted path ++ " is not in the subpath of " ++ Text.quoted root ++
      " OR one path is relative and the other is absolute."
  | .noPart => "tuple index out of range"
  | .malformedScript file line => "invalid syntax (" ++ file ++ ", line " ++ Text.ofNat line ++ ")"
  | .scriptMissing path => "The .iss-File can not be found: " ++ path
  | .suspectScript path => "Unsafe iss_path detected: " ++ path
  | .notCallable kind => "'" ++ kind ++ "' object is not callable"
  | .unknownPeriod name => "Invalid rollover interval specified: " ++ name
  | .dayMissing name => "You must specify a day for weekly rollover from 0 to 6 (0 is Monday): " ++ name
  | .unknownDay name => "Invalid day specified for weekly rollover: " ++ name
  | .webStatus status => Text.ofInt status ++ " error"
  | .noLength kind => "object of type '" ++ kind ++ "' has no len()"
  | .noEntry number => Text.ofInt number
  | .noOperation kind operation => "'" ++ kind ++ "' object has no attribute '" ++ operation ++ "'"

end FunctionDocs
