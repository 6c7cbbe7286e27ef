/-
# The layouts that reading goes through

Whatever a text says, the types in it have array lengths that the limits allow, and structs are
defined with such types only. So the layouts along a trail are among those that definitions reach
(`Reading.Trail.reachable`), and what holds of these holds at every moment of reading.
-/
import DirectC.Proofs.Grammar.Keeping
import DirectC.Proofs.StructLayout

namespace DirectC

namespace Grammar

variable {k : Layer} {s t : Reading}

namespace Reading

/-- **A trail goes through layouts that definitions reach.** -/
theorem Trail.reachable (h : s.Trail k t) (hs : s.env.layout.Reachable) :
    t.env.layout.Reachable := by
  induction h with
  | refl => exact hs
  | next _ ih =>
    rw [rest_env]
    exact ih hs
  | intern _ value ih =>
    rw [Env.layout_intern]
    exact ih hs
  | scope _ _ _ ih => exact ih hs
  | inner _ _ _ _ ih => exact ih hs
  | param _ _ _ ih => exact ih hs
  | enter _ _ ih => exact ih hs
  | declare _ _ e ih =>
    cases e <;> exact ih hs
  | @struct s t u fuel fields l h hkeyword hname hbrace hbody hfields hl ih ihbody =>
    have hu : u.env.layout.Reachable := by
      apply ihbody
      rw [rest_env, rest_env, rest_env]
      exact ih hs
    -- The members were read under the limits at the brace, and the struct is defined under those
    -- behind it, which are the same.
    have hforms := members_formed hfields
    rw [← hbody.limits] at hforms
    have hdefine := hu.define t.rest.current.literal fun f hf => (hforms f hf).bounded
    rwa [Layout.attempt_of_define hl] at hdefine

end Reading

end Grammar

end DirectC
