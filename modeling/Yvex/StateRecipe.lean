import Yvex.AttentionData
import Yvex.CheckedArithmetic

/-!
# State identities

A state identity is advanced by each publication: per token for a publication
that names its tokens, once for the whole batch otherwise.
-/

set_option autoImplicit false

namespace Yvex.StateRecipe

open AttentionData CheckedArithmetic

def errorOnly (status : Status) (site reason : String) : Refusal := ⟨status, site, reason, none⟩

def textField (value : String) : HashField := .text value.toList

def tokenAdvanceFields (recipe : StateRecipe) (planIdentity current : Identity)
    (position token : ℕ) : List HashField :=
  [textField "yvex.graph.attention.state.v5", .text planIdentity, .text recipe.identity,
    .text current, .word position, .word token]

def batchAdvanceFields (recipe : StateRecipe) (planIdentity current : Identity)
    (publication : Publication) : List HashField :=
  [textField "yvex.graph.attention.state.v4", .text planIdentity, .text recipe.identity,
    .text current, .text publication.executionIdentity,
    .word ((publication.tokenPosition + publication.tokenCount) % wordLimit)]

def advanceIdentity (sha : Sha256) (prior : Identity) (recipe : StateRecipe)
    (planIdentity : Identity) (publication : Publication) : Option Identity := do
  guard (hexValid prior ∧ hexValid planIdentity)
  match publication.tokenIds with
  | some tokenIds =>
    (List.range publication.tokenCount).foldlM (fun current row =>
      sha.digest (tokenAdvanceFields recipe planIdentity current
        ((publication.tokenPosition + row) % wordLimit) (tokenIds row))) prior
  | none => do
    guard (hexValid publication.executionIdentity)
    sha.digest (batchAdvanceFields recipe planIdentity prior publication)

end Yvex.StateRecipe
