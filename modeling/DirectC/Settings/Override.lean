/-
# Settings from flags

The flags that override settings. One flag sets the limits of types and of array lengths
together.
-/
import DirectC.Flags
import DirectC.Settings

namespace DirectC

namespace Settings

/-- The flags that override settings. -/
def flags : List Flags.Flag :=
  [{ name := "output", letter := some 111, kind := .text },
    { name := "max-type-size", kind := .signed },
    { name := "max-branch", kind := .signed },
    { name := "load-base", kind := .word }]

/-- Sets what flags set. -/
def override (s : Settings) (p : Flags.Parsed) : Settings where
  limits := { s.limits with
    typeSize := (p.signed? "max-type-size").getD s.limits.typeSize
    arrayLength := (p.signed? "max-type-size").getD s.limits.arrayLength
    branch := (p.signed? "max-branch").getD s.limits.branch }
  loadBase := (p.word? "load-base").getD s.loadBase
  output := (p.text? "output").getD s.output

end Settings

end DirectC
