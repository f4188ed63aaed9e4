import Mustache.File.Path
import Mustache.Text.Hex
import Mustache.Text.Newline
import Mustache.Text.Utf8

/-! # Files

Templates, settings and data are read from files. `Files` says what is found at a path: nothing, a
file's bytes, or that it has not been looked at yet, which stops a run until it has been. A `FileTree`
is a directory held in memory.
-/
namespace Mustache

inductive FileState where
  | absent
  | content (bytes : List UInt8)
  | unread
  deriving DecidableEq, Repr

structure Files where
  find : Path → FileState

inductive FileError where
  | undecodable (e : Text.Utf8.DecodeError)
  | unread (path : Path)
  deriving DecidableEq, Repr

def Text.Utf8.DecodeError.message (e : Text.Utf8.DecodeError) : String :=
  let reason := match e.fault with
    | .invalidStart => "invalid start byte"
    | .invalidContinuation => "invalid continuation byte"
    | .unexpectedEnd => "unexpected end of data"
  let offset := toString e.offset
  let subject := match e.bytes with
    | [b] => "byte 0x" ++ Text.hexOfBytes [b] ++ " in position " ++ offset
    | bytes =>
      "bytes in position " ++ offset ++ "-" ++ toString (e.offset + bytes.length - 1)
  "'utf-8' codec can't decode " ++ subject ++ ": " ++ reason

def FileError.message : FileError → String
  | undecodable e => e.message
  | unread path => path.toString

namespace Files

/-- The text of a file: its bytes read as UTF-8, every line end a line feed. There is none where there
is no file. -/
def text? (files : Files) (path : Path) : Except FileError (Option String) :=
  match files.find path with
  | .absent => .ok none
  | .unread => .error (.unread path)
  | .content bytes =>
    match Text.Utf8.decode bytes with
    | .ok cs => .ok (some (String.ofList (Text.unifyNewlines cs)))
    | .error e => .error (.undecodable e)

end Files

/-- A directory in memory: the parts of the path of each file, and its bytes. -/
structure FileTree where
  files : List (List String × List UInt8)

namespace FileTree

def ofFiles (files : List (String × List UInt8)) : FileTree :=
  ⟨files.map fun (path, bytes) => ((Path.ofString path).parts, bytes)⟩

def isDirectory (t : FileTree) (parts : List String) : Bool :=
  parts.isEmpty || t.files.any fun (file, _) => parts.isPrefixOf file && file != parts

/-- The parts of the place that a path leads to, from the place `here`; `none` if it leaves the tree or
leads through something that is no directory. -/
def walk (t : FileTree) (here : List String) : List String → Option (List String)
  | [] => some here
  | part :: rest =>
    if !t.isDirectory here then none
    else if part = ".." then if here.isEmpty then none else t.walk here.dropLast rest
    else t.walk (here ++ [part]) rest

def toFiles (t : FileTree) : Files where
  find path :=
    if path.isAbsolute then .absent
    else match t.walk [] path.parts with
      | none => .absent
      | some place =>
        match t.files.find? (·.1 = place) with
        | some (_, bytes) => .content bytes
        | none => .absent

end FileTree
end Mustache
