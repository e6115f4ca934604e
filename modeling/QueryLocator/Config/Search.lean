import QueryLocator.FileSystem

/-! # Searching for a configuration file

A configuration is looked for in a directory and in the directories above it.  The nearest directory
wins, and in one directory the file name that comes first in the list of names.
-/
namespace QueryLocator.Config

/-- The names of configuration files, the preferred ones first. -/
def fileNames : List String :=
  [".graphqlrc.yml", ".graphqlrc.yaml", ".graphqlrc.json", ".graphqlrc",
    "graphql.config.yml", "graphql.config.yaml", "graphql.config.json"]

/-- The paths of the configuration files that a directory may have. -/
def candidates (directory : Path) : List Path :=
  fileNames.map directory.join

/-- The configuration file of a directory. -/
def fileIn? (files : FileSystem) (directory : Path) : Option Path :=
  (candidates directory).find? files.isFile

/-- The configuration file for a directory. -/
def find? (files : FileSystem) (start : Path) : Option Path :=
  start.ancestors.findSome? (fileIn? files)

end QueryLocator.Config
