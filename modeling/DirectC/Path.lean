/-
# Paths

Paths as texts: their parts, the shortest way to write one, and the directory a file is in.
-/
import DirectC.Bytes

namespace DirectC

namespace Path

/-- The texts between slashes. -/
def split (path : Bytes) : List Bytes :=
  Bytes.split 47 path

/-- The name of the directory itself. -/
def here : Bytes := "."

/-- The name of the directory above. -/
def up : Bytes := ".."

/-- A path that starts at the root. -/
def isRooted (path : Bytes) : Bool :=
  path.head? == some 47

/-- One more part behind parts, which are kept backwards. A step up takes back a part; above the
root there is nothing. -/
def step (rooted : Bool) (done : List Bytes) (part : Bytes) : List Bytes :=
  if part.isEmpty || part == here then done
  else if part == up then
    match done with
    | [] => if rooted then [] else [up]
    | last :: rest => if last == up then up :: done else rest
  else part :: done

/-- The shortest way to write a path. -/
def clean (path : Bytes) : Bytes :=
  let rooted := isRooted path
  let parts := ((split path).foldl (step rooted) []).reverse
  let body := List.intercalate [47] parts
  if rooted then 47 :: body else if body.isEmpty then here else body

/-- The directory that a file is in. -/
def directory (path : Bytes) : Bytes :=
  clean (path.reverse.dropWhile (· != 47)).reverse

/-- A path within a directory. -/
def join (directory name : Bytes) : Bytes :=
  if directory.isEmpty then if name.isEmpty then [] else clean name
  else clean (directory ++ 47 :: name)

end Path

end DirectC
