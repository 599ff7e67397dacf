import DualShell.File.Tree

/-!
# The files of a system

What is there before anyone made a file: the programs of the system in the directories where programs are looked for.
-/

namespace DualShell

/-- The names of the programs of the system. -/
def systemTools : List (String × Tool) :=
  [("sh", .sh), ("true", .true_), ("false", .false_), ("cat", .cat), ("printf", .printf), ("echo", .echo)]

/-- Where programs are looked for when nothing else is said. -/
def systemPath : String := "/usr/local/bin:/usr/bin:/bin"

namespace FileTree

/-- The files of a system, seen from a working directory. -/
def system (cwd : FilePath) : FileTree :=
  let t := systemTools.foldl (fun (t : FileTree) tool =>
    (t.install ["bin", tool.1] (.tool tool.2)).install ["usr", "bin", tool.1] (.tool tool.2)) ⟨[], cwd⟩
  (t.install ["usr", "local", "bin"] .directory).install cwd .directory

end FileTree

end DualShell
