/-
# Settings

What can be set for a compilation: the limits, the address the image is mapped at, and the path
it is written to.
-/
import DirectC.Image
import DirectC.Layout

namespace DirectC

/-- The settings of a compilation. -/
structure Settings where
  limits : Limits := {}
  loadBase : UInt64 := Image.defaultBase
  /-- The path of the executable. -/
  output : Bytes := "a.out"
  deriving DecidableEq, Repr, Inhabited

namespace Settings

/-- Why settings cannot be used. -/
inductive Fault where
  | typeSize (value : Int64)
  | arrayLength (value : Int64)
  | branch (value : Int64)
  | registerArgs (value : Int64)
  | emptyOutput
  | base (fault : Image.BaseFault)
  deriving DecidableEq, Repr, Inhabited

/-- The message of a fault. -/
def Fault.message : Fault → Bytes
  | .typeSize v => "max_type_size must be positive, got " ++ Bytes.ofInt v.toInt
  | .arrayLength v => "max_array_len must be positive, got " ++ Bytes.ofInt v.toInt
  | .branch v => "max_branch_displacement must be between 1 and 127, got " ++ Bytes.ofInt v.toInt
  | .registerArgs v => "max_register_args must be between 0 and 6, got " ++ Bytes.ofInt v.toInt
  | .emptyOutput => "output path is empty"
  | .base fault => fault.message

/-- Checks that every setting can be honoured. -/
def validate (s : Settings) : Except Fault Unit :=
  let l := s.limits
  if l.typeSize < 1 then .error (.typeSize l.typeSize)
  else if l.arrayLength < 1 then .error (.arrayLength l.arrayLength)
  else if l.branch < 1 || 127 < l.branch then .error (.branch l.branch)
  else if l.registerArgs < 0 || 6 < l.registerArgs then .error (.registerArgs l.registerArgs)
  else if s.output.isEmpty then .error .emptyOutput
  else (Image.checkBase s.loadBase).mapError .base

end Settings

end DirectC
