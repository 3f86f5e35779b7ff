import Yvex.HistoryRing
import Yvex.ProviderBank

/-!
# State identities and chunking

A publication that names its tokens advances the identity of its layer once per
token, so the identity reached depends on the tokens only.
-/

set_option autoImplicit false

namespace Yvex.Provider

open AttentionData CheckedArithmetic StateRecipe StateBank List

section Chain

variable (sha : Sha256) (recipe : StateRecipe) (plan : Identity)

def tokenChain : ℕ → Identity → List ℕ → Option Identity
  | _, current, [] => some current
  | position, current, token :: tokens =>
    (sha.digest (tokenAdvanceFields recipe plan current (position % wordLimit) token)).bind
      fun next => tokenChain (position + 1) next tokens

inductive Carries : ℕ → List ℕ → List Publication → Prop where
  | done (position : ℕ) : Carries position [] []
  | next {position : ℕ} {tokens : List ℕ} {publication : Publication}
      {publications : List Publication} {ids : ℕ → ℕ} (named : publication.tokenIds = some ids)
      (placed : publication.tokenPosition = position % wordLimit)
      (rest : Carries (position + publication.tokenCount) tokens publications) :
      Carries position ((List.range publication.tokenCount).map ids ++ tokens)
        (publication :: publications)

def publishedIdentity (bank : Bank) (publications : List Publication) : Option Identity :=
  publications.foldlM (fun identity publication =>
    bankAdvanceIdentity sha recipe plan publication { bank with stateIdentity := identity })
    bank.stateIdentity

def Injective : Prop :=
  ∀ first second identity, sha.digest first = some identity →
    sha.digest second = some identity → first = second

variable {sha plan} {r : StateRecipe} {p : ℕ} {s identity : Identity} {ts : List ℕ}

theorem tokenChain_append (others : List ℕ) : tokenChain sha r plan p s (ts ++ others) =
      (tokenChain sha r plan p s ts).bind fun mid =>
        tokenChain sha r plan (p + ts.length) mid others := by
  induction ts generalizing p s with
  | nil => rfl
  | cons token ts ih =>
    simp only [cons_append, tokenChain, ih, Option.bind_assoc, length_cons,
      Nat.add_assoc, Nat.add_comm 1]

theorem tokenChain_hex (hv : hexValid s = true)
    (hre : tokenChain sha r plan p s ts = some identity) :
    hexValid identity = true := by
  induction ts generalizing p s with
  | nil => exact Option.some.inj hre ▸ hv
  | cons token ts ih =>
    obtain ⟨next, hd, re⟩ := Option.bind_eq_some_iff.mp hre
    exact ih (sha.digest_hex _ next hd) re

/-- One publication advances the identity token by token. -/
theorem advanceIdentity_chain (hva : hexValid plan = true) (hv : hexValid s = true)
    {publication : Publication} {ids : ℕ → ℕ} (hn : publication.tokenIds = some ids)
    (hpl : publication.tokenPosition = p % wordLimit) :
    advanceIdentity sha s r plan publication =
      tokenChain sha r plan p s ((List.range publication.tokenCount).map ids) := by
  have rows : ∀ n, (range n).foldlM (fun hc row => sha.digest
      (tokenAdvanceFields r plan hc ((p + row) % wordLimit) (ids row))) s =
      tokenChain sha r plan p s ((range n).map ids) := by
    intro n
    induction n with
    | zero => rfl
    | succ n ih =>
      rw [range_succ, foldlM_append, ih, map_append, tokenChain_append, length_map, length_range]
      simp [tokenChain]
  simp [advanceIdentity, hva, hv, hn, hpl, rows, guard]

/-- The publications only matter through the tokens they carry. -/
theorem publishedIdentity_chain (hva : hexValid plan = true) {b : Bank}
    (hv : hexValid b.stateIdentity = true) {pu : List Publication}
    (hc : Carries p ts pu) :
    publishedIdentity sha r plan b pu =
      tokenChain sha r plan p b.stateIdentity ts := by
  unfold publishedIdentity
  generalize b.stateIdentity = s at hv ⊢
  induction hc generalizing s with
  | done => rfl
  | next hn hpl rest ih =>
    rw [foldlM_cons, tokenChain_append, ← advanceIdentity_chain hva hv hn hpl,
      length_map, length_range]
    simp only [bankAdvanceIdentity, hn, Option.isSome_some, if_true]
    refine Option.bind_congr fun mid hre => ih mid ?_
    rw [advanceIdentity_chain hva hv hn hpl] at hre
    exact tokenChain_hex hv hre

/-- The last digest determines the last token, its position and the identity before it. -/
theorem tokenChain_injective (hi : Injective sha) {o : List ℕ}
    (he : ts = [] ↔ o = []) (hsh : ts.length ≤ wordLimit)
    (hb : o.length ≤ wordLimit)
    (hr : tokenChain sha r plan p s ts = some identity)
    (ha : tokenChain sha r plan p s o = some identity) :
    ts = o := by
  induction ts using reverseRecOn generalizing o identity with
  | nil => exact (he.mp rfl).symm
  | append_singleton ts a ih =>
    obtain rfl | ⟨o, b, rfl⟩ := o.eq_nil_or_concat
    · simp at he
    rw [concat_eq_append] at ha hb ⊢
    rw [length_append, length_singleton] at hsh hb
    rw [tokenChain_append] at hr ha
    obtain ⟨mid, be, hr⟩ := Option.bind_eq_some_iff.mp hr
    obtain ⟨ot, hea, ha⟩ := Option.bind_eq_some_iff.mp ha
    simp only [tokenChain, Option.bind_fun_some] at hr ha
    have hs := hi _ _ identity hr ha
    simp only [tokenAdvanceFields, cons.injEq, HashField.text.injEq, HashField.word.injEq,
      and_true, true_and] at hs
    obtain ⟨rfl, pl, rfl⟩ := hs
    have l : ts.length = o.length := (Nat.ModEq.add_left_cancel' p pl).eq_of_lt_of_lt hsh hb
    have both : ts = [] ↔ o = [] := by rw [← length_eq_zero_iff, l, length_eq_zero_iff]
    rw [ih both (by omega) (by omega) be hea]

end Chain

/-- The same tokens give the same identity, and nonempty sequences that differ do not. -/
theorem publishedIdentity_tokens (sha : Sha256) (recipe : StateRecipe) (plan : Identity)
    (bank : Bank) (position : ℕ) (validPlan : hexValid plan = true)
    (valid : hexValid bank.stateIdentity = true) :
    (∀ tokens first second, Carries position tokens first → Carries position tokens second →
      publishedIdentity sha recipe plan bank first =
        publishedIdentity sha recipe plan bank second) ∧
    (Injective sha → ∀ tokens others first second identity, tokens ≠ [] → others ≠ [] →
      tokens.length ≤ wordLimit → others.length ≤ wordLimit →
      Carries position tokens first → Carries position others second →
      publishedIdentity sha recipe plan bank first = some identity →
      publishedIdentity sha recipe plan bank second = some identity → tokens = others) := by
  constructor
  · intro tokens first second carries again
    rw [publishedIdentity_chain validPlan valid carries,
      publishedIdentity_chain validPlan valid again]
  · intro injective tokens others first second identity held other short brief carries again
    rw [publishedIdentity_chain validPlan valid carries,
      publishedIdentity_chain validPlan valid again]
    exact tokenChain_injective injective (by simp [held, other]) short brief

def lettered (letter : Char) : Identity := List.replicate 64 letter

-- a hash that knows the tokens 7, 8 and 9 from one identity on
def digestFrom (letter : Char) : Sha256 where
  digest fields :=
    if fields = tokenAdvanceFields pairRecipe (lettered 'c') (lettered letter) 0 7 then
      some (lettered 'a')
    else if fields = tokenAdvanceFields pairRecipe (lettered 'c') (lettered 'a') 1 8 then
      some (lettered 'd')
    else if fields = tokenAdvanceFields pairRecipe (lettered 'c') (lettered 'd') 2 9 then
      some (lettered 'e')
    else none
  digest_hex := by
    intro fields identity digested
    split_ifs at digested <;>
    · rw [← Option.some.inj digested]
      decide

theorem digestFrom_injective (letter : Char) : Injective (digestFrom letter) := by
  have apart : lettered 'a' ≠ lettered 'd' ∧ lettered 'a' ≠ lettered 'e' ∧
      lettered 'd' ≠ lettered 'e' := by
    decide
  intro first second identity digested again
  simp only [digestFrom] at digested again
  split_ifs at digested again <;> simp_all

def startBank (letter : Char) : Bank := { emptyBank with stateIdentity := lettered letter }

def namedTokens (position : ℕ) (tokens : List ℕ) : Publication :=
  { threeTokens with
    tokenIds := some fun row => tokens.getD row 0
    tokenPosition := position
    tokenCount := tokens.length }

theorem carries_last (position token : ℕ) (small : position < wordLimit) :
    Carries position [token] [namedTokens position [token]] :=
  @Carries.next position [] (namedTokens position [token]) [] _ rfl
    (Nat.mod_eq_of_lt small).symm (.done _)

/-- Two tokens and then one, or one and then two. -/
theorem publishedIdentity_tokens_cut :
    publishedIdentity (digestFrom 'b') pairRecipe (lettered 'c') (startBank 'b')
      [namedTokens 0 [7, 8], namedTokens 2 [9]] = some (lettered 'e') ∧
    publishedIdentity (digestFrom 'b') pairRecipe (lettered 'c') (startBank 'b')
      [namedTokens 0 [7], namedTokens 1 [8, 9]] = some (lettered 'e') ∧
    ∀ others second, others ≠ [] → others.length ≤ wordLimit → Carries 0 others second →
      publishedIdentity (digestFrom 'b') pairRecipe (lettered 'c') (startBank 'b') second =
        some (lettered 'e') → [7, 8, 9] = others := by
  have carries : Carries 0 [7, 8, 9] [namedTokens 0 [7, 8], namedTokens 2 [9]] :=
    @Carries.next 0 [9] (namedTokens 0 [7, 8]) _ _ rfl rfl (carries_last 2 9 (by decide))
  have again : Carries 0 [7, 8, 9] [namedTokens 0 [7], namedTokens 1 [8, 9]] :=
    @Carries.next 0 [8, 9] (namedTokens 0 [7]) _ _ rfl rfl
      (@Carries.next 1 [] (namedTokens 1 [8, 9]) [] _ rfl (by decide) (.done 3))
  have both := publishedIdentity_tokens (digestFrom 'b') pairRecipe (lettered 'c') (startBank 'b') 0
    (by decide) (by decide)
  have first : publishedIdentity (digestFrom 'b') pairRecipe (lettered 'c') (startBank 'b')
      [namedTokens 0 [7, 8], namedTokens 2 [9]] = some (lettered 'e') := by
    rw [publishedIdentity_chain (by decide) (by decide) carries]
    decide +kernel
  refine ⟨first, (both.1 [7, 8, 9] _ _ again carries).trans first, ?_⟩
  intro others second held short carried reached
  exact both.2 (digestFrom_injective 'b') [7, 8, 9] others _ second _ (by decide) held
    (by decide) short carries carried first reached

/-- An injective hash may lead from an identity back to it: one token and none agree. -/
theorem start_identity_returns :
    ∃ sha recipe plan bank tokens others first second identity,
      hexValid plan = true ∧ hexValid bank.stateIdentity = true ∧ Injective sha ∧
      tokens ≠ others ∧ Carries 0 tokens first ∧ Carries 0 others second ∧
      publishedIdentity sha recipe plan bank first = some identity ∧
      publishedIdentity sha recipe plan bank second = some identity :=
  ⟨digestFrom 'a', pairRecipe, lettered 'c', startBank 'a', [], [7], [], [namedTokens 0 [7]],
    lettered 'a', by decide, by decide, digestFrom_injective 'a', by decide, .done 0,
    carries_last 0 7 (by decide), rfl,
    (publishedIdentity_chain (by decide) (by decide) (carries_last 0 7 (by decide))).trans
      (by decide +kernel)⟩

end Yvex.Provider
