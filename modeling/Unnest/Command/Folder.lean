/-! A folder of text files, read by relative paths. Folders inside it are there exactly
as far as files in them need them. -/

namespace Unnest.Command

structure Folder where
  files : List (String × String)

namespace Folder

def segments (path : String) : List String := path.splitOn "/"

/-- The text of the file with that path, given as the names along it. -/
def file? (folder : Folder) (path : List String) : Option String :=
  (folder.files.find? fun (name, _) => segments name == path).map Prod.snd

/-- Some file lies below the path. -/
def holds (folder : Folder) (path : List String) : Bool :=
  folder.files.any fun (name, _) => path.isPrefixOf (segments name) && segments name != path

/-- Follow the remaining segments from a place in the folder. -/
def walk (folder : Folder) (here : List String) : List String → Option String
  | [] => none
  | [name] => if name = "" ∨ name = "." ∨ name = ".." then none else folder.file? (here ++ [name])
  | name :: rest =>
    if name = "" ∨ name = "." then walk folder here rest
    else if name = ".." then if here = [] then none else walk folder here.dropLast rest
    else if folder.holds (here ++ [name]) then walk folder (here ++ [name]) rest
    else none

/-- Read a file. There is nothing at absolute paths. -/
def read (folder : Folder) (path : String) : Option String :=
  match segments path with
  | "" :: _ => none
  | names => folder.walk [] names

end Folder

/-- The path stands for the standard input: a lone dash, whatever dots and slashes follow. -/
def isStandardInput (path : String) : Bool :=
  match Folder.segments path with
  | "-" :: rest => rest.all fun segment => segment == "" || segment == "."
  | _ => false

end Unnest.Command
