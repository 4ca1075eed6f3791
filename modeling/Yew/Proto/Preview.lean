import Yew.Proto.Types
import Mathlib.Tactic.NormNum

/-!
# The preview of a transaction

What the caller shows before signing and what the signer computes again from the bytes and the
prevouts: the inputs to sign, every output, the fee and the net outflow.  Sums are 64-bit, as in
the source, and wrap.

A preview is computed twice, by the wallet and by the signer, from the same bytes; the signer
compares.

## Source

* `yewd/proto/src/preview.rs`: `script_address`, `output_kind`, `is_bond_redeem`, `compute`,
  `with_sapling`, `difference`
* `yewd/proto/src/lib.rs`: `SaplingPart::values`
* `yewd/wallet/src/keys.rs`: `script_address`
-/

namespace Yew.Proto

open Script Tx Vault SetAct

section

variable (C : Crypto) (network : Keys.Network)

/-- `script_address`: P2PKH, P2SH or `TX_PQPKH`. -/
def scriptAddress (script : Bytes) : Option String :=
  match p2pkhHash script, p2shHash script, Pq.pqpkhOf script with
  | some h, _, _ => some (Keys.encodeP2pkh C network h)
  | none, some h, _ => some (Keys.encodeP2sh C network h)
  | none, none, some id => Keys.encodePqYec C network id
  | none, none, none => none

end

/-- `is_bond_redeem`. -/
def isBondRedeem (spk : Bytes) : Bool :=
  match ops spk with
  | .ok [_, o1, o2, o3, o4] => o1.opcode = opChecklocktimeverify && o2.opcode = opDrop &&
      o3.data.length = 33 && o4.opcode = opChecksig
  | _ => false

/-- `output_kind`. -/
def outputKind (spk : Bytes) : String :=
  if isActOutput spk then "act"
  else if (parseVault spk).isSome then "vault"
  else if (parseIntent spk).isSome then "intent"
  else if isBondRedeem spk then "bond"
  else "payment"

/-- The wrapping sum of 64-bit amounts. -/
def sumZat : List Int64 → Int64
  | [] => 0
  | a :: as => a + sumZat as

/-- Positions and elements of a list, counted from `i`. -/
def indexed {α : Type} : Nat → List α → List (Nat × α)
  | _, [] => []
  | i, a :: as => (i, a) :: indexed (i + 1) as

theorem getElem?_indexed {α : Type} (k : Nat) (as : List α) (i : Nat) :
    (indexed k as)[i]? = as[i]?.map fun a ↦ (k + i, a) := by
  induction as generalizing k i with
  | nil => simp [indexed]
  | cons a as ih =>
    cases i with
    | zero => simp [indexed]
    | succ i =>
      simp only [indexed, List.getElem?_cons_succ, ih]
      rw [show k + 1 + i = k + (i + 1) by omega]

@[simp] theorem length_indexed {α : Type} (k : Nat) (as : List α) :
    (indexed k as).length = as.length := by
  induction as generalizing k with
  | nil => rfl
  | cons a as ih => simp [indexed, ih]

theorem mem_indexed {α : Type} {k n : Nat} {a : α} {as : List α} :
    (n, a) ∈ indexed k as ↔ ∃ i, n = k + i ∧ as[i]? = some a := by
  simp only [List.mem_iff_getElem?, getElem?_indexed, Option.map_eq_some_iff, Prod.mk.injEq]
  constructor
  · rintro ⟨i, b, hb, rfl, rfl⟩
    exact ⟨i, rfl, hb⟩
  · rintro ⟨i, rfl, ha⟩
    exact ⟨i, a, ha, rfl, rfl⟩

/-- Choosing elements by position or by what stands there. -/
theorem filter_indexed_map {α β : Type} {k : Nat} {as : List α} {f : α → β} {p : Nat → Bool}
    {q : α → Bool} (h : ∀ i a, as[i]? = some a → p (k + i) = q a) :
    ((indexed k (as.map f)).filter fun x ↦ p x.1).map Prod.snd = (as.filter q).map f := by
  induction as generalizing k with
  | nil => rfl
  | cons a as ih =>
    have ha : p k = q a := h 0 a rfl
    have ih' := ih (k := k + 1) fun i b hb ↦ by
      rw [show k + 1 + i = k + (i + 1) by omega]
      exact h (i + 1) b hb
    cases hq : q a with
    | true => simp [indexed, ha, hq, ih']
    | false => simp [indexed, ha, hq, ih']

/-- A wrapping sum is the true sum up to a multiple of the word size. -/
theorem toInt_sumZat (as : List Int64) :
    (sumZat as).toInt = ((as.map Int64.toInt).sum).bmod (2 ^ 64) := by
  induction as with
  | nil => rfl
  | cons a as ih => simp only [sumZat, Int64.toInt_add, ih, Int.add_bmod_bmod, List.map_cons,
      List.sum_cons]

/-- An integer that a signed 64-bit word holds. -/
def FitsI64 (n : Int) : Prop := -2 ^ 63 ≤ n ∧ n < 2 ^ 63

theorem FitsI64.bmod_eq {n : Int} (h : FitsI64 n) : n.bmod (2 ^ 64) = n := by
  obtain ⟨h₁, h₂⟩ := h
  exact Int.bmod_eq_of_le (by norm_num; omega) (by norm_num; omega)

/-- The amounts of the inputs to sign. -/
def signedAmounts (prevouts : List Prevout) (signed : List Nat) : List Int64 :=
  ((indexed 0 prevouts).filter fun x ↦ x.1 ∈ signed).map fun x ↦ x.2.amountZat

/-- The values of the outputs named as the wallet's own. -/
def ownValues (vout : List TxOut) (own : List Nat) : List Int64 :=
  ((indexed 0 vout).filter fun x ↦ x.1 ∈ own).map fun x ↦ x.2.value

section

variable (C : Crypto) (network : Keys.Network)

/-- `compute`: the preview of a transaction, its prevouts in input order. -/
def compute (tx : Transaction) (prevouts : List Prevout) (signed own : List Nat) : Preview where
  sign := ((indexed 0 prevouts).filter fun x ↦ x.1 ∈ signed).map fun x ↦
    ⟨x.1, x.2.outpoint, x.2.amountZat⟩
  outputs := (indexed 0 tx.vout).map fun x ↦
    let address := scriptAddress C network x.2.scriptPubkey
    { n := x.1
      amountZat := x.2.value
      address
      script := if address.isNone then some (Hex.encode x.2.scriptPubkey) else none
      mine := x.1 ∈ own
      kind := outputKind x.2.scriptPubkey }
  feeZat := sumZat (prevouts.map Prevout.amountZat) - sumZat (tx.vout.map TxOut.value)
  outflowZat := sumZat (signedAmounts prevouts signed) - sumZat (ownValues tx.vout own)

end

/-- The value of a shielded output of a Sapling part and whether it counts as the wallet's own: a
flag of the caller, or change. -/
def SaplingOut.partValue : SaplingOut → Int64 × Bool
  | .shielded _ value _ own => (value, own)
  | .change value => (value, true)
  | .transparent .. => (0, false)

/-- `SaplingPart::values`: spent, paid, and paid to the wallet. -/
def SaplingPart.values (p : SaplingPart) : Int64 × Int64 × Int64 :=
  let outs := p.outputs.map SaplingOut.partValue
  (sumZat (p.spends.map fun s ↦ s.value.toInt64), sumZat (outs.map Prod.fst),
    sumZat ((outs.filter Prod.snd).map Prod.fst))

/-- `with_sapling`. -/
def withSapling (p : Preview) : Option SaplingPart → Preview
  | none => p
  | some part =>
    let (spent, paid, own) := part.values
    { p with
      feeZat := p.feeZat + (spent - paid)
      outflowZat := p.outflowZat + (spent - own) }

/-- The inputs of a preview, as a refusal prints them. -/
def debugCoins (cs : List PreviewCoin) : String :=
  Text.debugList (cs.map fun c ↦ "(" ++ Text.decimal c.vin ++ ", " ++ Text.debugStr c.outpoint ++
    ", " ++ Text.decimalInt c.amountZat.toInt ++ ")")

/-- What an output of a preview pays, and to what. -/
def PreviewOutput.payee (o : PreviewOutput) : String :=
  Text.decimalInt o.amountZat.toInt ++ " zat to " ++ ((o.address.or o.script).getD "?")

/-- The first pair of outputs that differ, as the refusal prints it. -/
def outputDifference : List PreviewOutput → List PreviewOutput → Option String
  | a :: as, b :: bs =>
    if a ≠ b then some ("output " ++ Text.decimal a.n ++ ": the bytes pay " ++ a.payee ++
      ", the preview " ++ b.payee)
    else outputDifference as bs
  | _, _ => none

/-- `difference`: the first difference between two previews. -/
def difference (want got : Preview) : Option String :=
  if want.sign ≠ got.sign then
    some ("the inputs to sign are " ++ debugCoins want.sign ++ ", the preview lists " ++
      debugCoins got.sign)
  else if want.outputs.length ≠ got.outputs.length then
    some ("the transaction has " ++ Text.decimal want.outputs.length ++ " outputs, the preview " ++
      Text.decimal got.outputs.length)
  else match outputDifference want.outputs got.outputs with
    | some d => some d
    | none =>
      if want.feeZat ≠ got.feeZat then
        some ("the fee is " ++ Text.decimalInt want.feeZat.toInt ++ " zat, the preview says " ++
          Text.decimalInt got.feeZat.toInt)
      else if want.outflowZat ≠ got.outflowZat then
        some ("the outflow is " ++ Text.decimalInt want.outflowZat.toInt ++
          " zat, the preview says " ++ Text.decimalInt got.outflowZat.toInt)
      else none

end Yew.Proto
