/-!
Coins: what is remembered of a transaction output.

A spent coin is a value like any other. Layers keep it as a tombstone until the layer below has heard
of the spend.
-/
namespace CoinLayers

/-- Scripts are equal if their bytes are. -/
instance (priority := high) decidableEqScript : DecidableEq ByteArray := ByteArray.instDecidableEq

/-- A transaction output: an amount and the script that guards it. -/
structure Output where
  amount : UInt64
  script : ByteArray
  deriving DecidableEq

/-- An output together with the block height it came from and whether a coinbase transaction made it. -/
structure Coin where
  amount : UInt64
  height : UInt32
  isCoinbase : Bool
  script : ByteArray
  isSpent : Bool
  deriving DecidableEq

namespace Coin

/-- The longest script that can ever be satisfied, in bytes. -/
def maxScriptSize : Nat := 10000

/-- The first byte of a script that declares its output unspendable. -/
def returnOpcode : UInt8 := 0x6a

/-- The empty coin, in the spent state. -/
def spent : Coin := ⟨0, 0, false, .empty, true⟩

def ofOutput (output : Output) (height : UInt32) (isCoinbase : Bool) : Coin :=
  ⟨output.amount, height, isCoinbase, output.script, false⟩

def output (coin : Coin) : Output :=
  ⟨coin.amount, coin.script⟩

/-- The coin after a spend: nothing of it is left. -/
def cleared (_coin : Coin) : Coin := spent

/-- Whether the coin can never be spent, so that it has no place among the unspent ones: its script is
    too long, or starts with the byte that forbids it. -/
def isUnspendable (coin : Coin) : Bool :=
  maxScriptSize < coin.script.size || coin.script[0]? == some returnOpcode

/-- The bytes that a coin holds besides its fixed fields. -/
def footprint (coin : Coin) : Nat :=
  coin.script.size

def text (coin : Coin) : String :=
  let script := ", ".intercalate (coin.script.data.toList.map fun b => toString b.toNat)
  "Coin \x7b is_coinbase: " ++ toString coin.isCoinbase ++ ", amount: " ++ toString coin.amount.toNat ++
    ", height: " ++ toString coin.height.toNat ++ ", script_pubkey: [" ++ script ++ "], spent: " ++
    toString coin.isSpent ++ " \x7d"

end Coin

end CoinLayers
