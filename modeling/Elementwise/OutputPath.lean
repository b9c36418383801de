import Elementwise.Path

/-!
# Where kernels are written

Inputs of one name in different directories share a path.
-/
namespace Elementwise

/-- The file of the kernel of an input in a directory. -/
def kernelPath (dir input : String) : String :=
  Path.join dir (Path.stem input ++ ".spv")

/-- The paths of the kernels. A given output is a directory if it ends in a slash or there are
several inputs. -/
def outputPaths (inputs : List String) (output outputDir : String) : List String :=
  if !output.isEmpty && inputs.length == 1 && !output.endsWith "/" then [output]
  else inputs.map (kernelPath (if output.isEmpty then outputDir else output))

end Elementwise
