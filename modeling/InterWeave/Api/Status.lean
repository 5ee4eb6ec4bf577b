import Mathlib

/-!
The part of `transport_api::status` that the connectivity managers share.
-/

namespace InterWeave

inductive DirectInboundState where
  | unknown
  | verifiedPublic
  | notVerified
  deriving DecidableEq, Repr

end InterWeave
