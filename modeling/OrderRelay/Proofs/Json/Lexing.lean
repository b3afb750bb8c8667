import Mathlib.Tactic.Common
import OrderRelay.Json.Lexer
import OrderRelay.Proofs.Json.Grammar

/-!
# Tokens one after another

* `tokensOnto_eq_append`: the tokens found before do not matter.
* `tokensOnto_cons`: the first token, and those after it.
-/

namespace OrderRelay.Json

/-- The tokens found before stay in front. -/
theorem tokensOnto_eq_append (acc : List Token) (offset : ℕ) (bs : Bytes) :
    tokensOnto acc offset bs = acc.reverse ++ tokensOnto [] offset bs := by
  induction hn : bs.length using Nat.strongRecOn generalizing acc offset bs with
  | _ n ih =>
    cases bs with
    | nil => simp [tokensOnto]
    | cons b rest =>
      rw [tokensOnto, tokensOnto]
      split
      · simp
      · subst hn
        have hshort : ∀ k m, ((rest.drop k).drop m).length < (b :: rest).length := by
          intro k m
          simp only [List.length_drop, List.length_cons]
          omega
        rw [ih _ (hshort _ _) (_ :: acc) _ _ rfl, ih _ (hshort _ _) [_] _ _ rfl]
        simp

/-- The gap behind the first octets, which no token takes in. -/
def gapAfter (bs : Bytes) : ℕ := (bs.takeWhile isSpace).length

/-- **The first token, and those after it.** -/
theorem tokensOnto_cons (offset : ℕ) (b : UInt8) (rest : Bytes) :
    let scan := Scan.token offset b rest
    let after := rest.drop scan.extra
    let stop := offset + 1 + scan.extra
    let gap := gapAfter after
    tokensOnto [] offset (b :: rest) = ⟨scan.lexeme, offset, stop, stop + gap⟩ ::
      if scan.lexeme.isBroken then [] else tokensOnto [] (stop + gap) (after.drop gap) := by
  rw [tokensOnto]
  simp only
  split
  · rfl
  · rw [tokensOnto_eq_append]
    rfl

end OrderRelay.Json
