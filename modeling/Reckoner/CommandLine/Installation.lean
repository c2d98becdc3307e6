/-!
# The parts of an installation

An installation is a directory with a fixed set of files. Before a session starts from there, it is
checked that none of them is missing.
-/

namespace Reckoner.CommandLine

/-- The files of an installation. -/
def requiredFiles : List String :=
  ["Calculator.py", "MathEngine.py", "ScientificEngine.py", "MatrixEngine.py", "ComplexEngine.py",
    "Cas.py", "config_manager.py", "error.py"]

/-- The required files that are not among the present ones. -/
def missingFiles (present : List String) : List String :=
  requiredFiles.filter fun name => !present.contains name

/-- The lines that report missing files; none if there are none. -/
def missingLines (present : List String) : List String :=
  match missingFiles present with
  | [] => []
  | missing =>
      "Error: The following files are missing or in the wrong location:" ::
        missing.map ("- " ++ ·)

end Reckoner.CommandLine
