import CoinLayers.Layers
import CoinLayers.Transaction

/-!
Applying transactions to a cache: their inputs are spent, their outputs become coins.
-/
namespace CoinLayers

/-- The coins that a transaction spent, in the order of its inputs: what is needed to take it back. -/
structure Undo where
  spends : List (OutPoint × Coin)
  deriving DecidableEq

namespace Undo

def empty : Undo := ⟨[]⟩

def record (undo : Undo) (o : OutPoint) (coin : Coin) : Undo :=
  ⟨undo.spends ++ [(o, coin)]⟩

def size (undo : Undo) : Nat := undo.spends.length

def isEmpty (undo : Undo) : Bool := undo.spends.isEmpty

end Undo

def Transaction.place (txid : Hash256) (number : Nat) : OutPoint := ⟨txid, UInt32.ofNat number⟩

namespace Layers

variable {ρ : Type} [Backing ρ]

/-- Adds outputs as coins, the first of them under the given number. -/
def addOutputsFrom (txid : Hash256) (height : UInt32) (isCoinbase checks : Bool) (depth : Nat) :
    Nat → List Output → Layers ρ → Outcome (Layers ρ) Unit
  | _, [], layers => .done () layers
  | number, output :: rest, layers =>
    let o := Transaction.place txid number
    let mayOverwrite := if checks then holds o depth layers else .done isCoinbase layers
    (mayOverwrite.andThen fun allowed layers =>
      add o (.ofOutput output height isCoinbase) allowed depth layers).andThen fun _ layers =>
        addOutputsFrom txid height isCoinbase checks depth (number + 1) rest layers

/-- Adds the outputs of a transaction as coins. A coinbase transaction may overwrite, as some early ones
    have the same hash. With checks, an overwrite is allowed just where an unspent coin is found. -/
def addOutputs (tx : Transaction) (height : UInt32) (checks : Bool) (depth : Nat) (layers : Layers ρ) :
    Outcome (Layers ρ) Unit :=
  addOutputsFrom tx.txid height tx.isCoinbase checks depth 0 tx.outputs layers

/-- Whether there are unspent coins at all the given outpoints; the search ends at the first without. -/
def holdsAll (depth : Nat) : List OutPoint → Layers ρ → Outcome (Layers ρ) Bool
  | [], layers => .done true layers
  | o :: rest, layers =>
    (holds o depth layers).andThen fun found layers =>
      if found then holdsAll depth rest layers else .done false layers

/-- Whether all inputs of a transaction refer to unspent coins. Those of a coinbase transaction need not. -/
def hasInputs (tx : Transaction) (depth : Nat) (layers : Layers ρ) : Outcome (Layers ρ) Bool :=
  if tx.isCoinbase then .done true layers else holdsAll depth tx.sources layers

/-- Looks at outputs of a transaction from the given number on, until one is unspent. -/
def firstUnspentFrom (txid : Hash256) (depth : Nat) :
    (count number : Nat) → List Event → Layers ρ → Outcome (Layers ρ) Sight
  | 0, _, said, layers => ⟨.ok .nothing, layers, said⟩
  | count + 1, number, said, layers =>
    let o := Transaction.place txid number
    match sight o depth layers with
    | ⟨.error why, layers, events⟩ => ⟨.error why, layers, said ++ events⟩
    | ⟨.ok seen, layers, events⟩ =>
      if seen.coin.isSpent then firstUnspentFrom txid depth count (number + 1) (said ++ events) layers
      else (sight o depth layers).after (said ++ events)

/-- The first unspent output of a transaction, of as many as a transaction can have. -/
def firstUnspent (txid : Hash256) (depth : Nat) (layers : Layers ρ) : Outcome (Layers ρ) Sight :=
  firstUnspentFrom txid depth Transaction.maxOutputs 0 [] layers

/-- Fails at the first outpoint that holds no unspent coin or has come before. -/
def checkSources (depth : Nat) : (earlier sources : List OutPoint) → Layers ρ → Outcome (Layers ρ) Unit
  | _, [], layers => .done () layers
  | earlier, o :: rest, layers =>
    if earlier.contains o then .failed (.fault (.missingInput o)) layers
    else
      (holds o depth layers).andThen fun found layers =>
        if found then checkSources depth (o :: earlier) rest layers
        else .failed (.fault (.missingInput o)) layers

/-- Spends the coins at the given outpoints, each of which must be unspent. -/
def spendSources (depth : Nat) : Undo → List OutPoint → Layers ρ → Outcome (Layers ρ) Undo
  | undo, [], layers => .done undo layers
  | undo, o :: rest, layers =>
    (spend o depth layers).andThen fun found layers =>
      match found with
      | some coin =>
        if coin.isSpent then .failed (.fault (.missingInput o)) layers
        else spendSources depth (undo.record o coin) rest layers
      | none => .failed (.fault (.missingInput o)) layers

/-- Spends all inputs of a transaction. All of them are checked before the first is spent, so that a
    transaction with a missing input changes nothing. -/
def spendInputs (tx : Transaction) (depth : Nat) (layers : Layers ρ) : Outcome (Layers ρ) Undo :=
  if tx.isCoinbase then .done .empty layers
  else
    (checkSources depth [] tx.sources layers).andThen fun _ layers =>
      spendSources depth .empty tx.sources layers

/-- Applies a transaction: spends its inputs and then adds its outputs. -/
def apply (tx : Transaction) (height : UInt32) (depth : Nat) (layers : Layers ρ) : Outcome (Layers ρ) Undo :=
  (spendInputs tx depth layers).andThen fun undo layers =>
    (addOutputs tx height false depth layers).map fun _ => undo

end Layers

end CoinLayers
