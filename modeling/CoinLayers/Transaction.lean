import CoinLayers.Coin
import CoinLayers.OutPoint
import CoinLayers.Sha256

/-!
Transactions, and the hashes that name them.

A transaction is named by the double hash of its serialized form. Witness data is no part of that form.
-/
namespace CoinLayers

/-- An input: the output that it spends, the script that justifies the spend, and a sequence number. -/
structure Input where
  source : OutPoint
  script : ByteArray
  sequence : UInt32

structure Transaction where
  version : Int32
  inputs : List Input
  outputs : List Output
  lockTime : UInt32

namespace Transaction

/-- The bytes of a number, least significant first. -/
def littleEndian (size n : Nat) : List UInt8 :=
  (List.range size).map fun i => UInt8.ofNat (n >>> (8 * i))

/-- A length in one, three, five or nine bytes: as it is below 253, otherwise behind a byte that says how
    many bytes follow. -/
def compactSize (n : Nat) : List UInt8 :=
  if n < 0xfd then [UInt8.ofNat n]
  else if n < 0x10000 then 0xfd :: littleEndian 2 n
  else if n < 0x100000000 then 0xfe :: littleEndian 4 n
  else 0xff :: littleEndian 8 n

/-- A script behind its length. -/
def scriptBytes (script : ByteArray) : ByteArray :=
  (compactSize script.size).toByteArray ++ script

def inputBytes (input : Input) : ByteArray :=
  (input.source.txid.bytes ++ littleEndian 4 input.source.vout.toNat).toByteArray ++
    scriptBytes input.script ++ (littleEndian 4 input.sequence.toNat).toByteArray

def outputBytes (output : Output) : ByteArray :=
  (littleEndian 8 output.amount.toNat).toByteArray ++ scriptBytes output.script

def concatenated (parts : List ByteArray) : ByteArray :=
  parts.foldl (· ++ ·) .empty

/-- The serialized form of a transaction, without witness data. -/
def serialized (tx : Transaction) : ByteArray :=
  concatenated ([(littleEndian 4 tx.version.toUInt32.toNat).toByteArray,
      (compactSize tx.inputs.length).toByteArray] ++ tx.inputs.map inputBytes ++
    [(compactSize tx.outputs.length).toByteArray] ++ tx.outputs.map outputBytes ++
    [(littleEndian 4 tx.lockTime.toNat).toByteArray])

/-- The hash that names a transaction. -/
def txid (tx : Transaction) : Hash256 :=
  Sha256.twice tx.serialized

/-- Whether a transaction makes new money: its only input spends nothing. -/
def isCoinbase (tx : Transaction) : Bool :=
  match tx.inputs with
  | [input] => input.source = .null
  | _ => false

/-- The outpoints that a transaction spends, in the order of its inputs. -/
def sources (tx : Transaction) : List OutPoint :=
  tx.inputs.map (·.source)

/-- The largest size of a transaction in bytes. -/
def maxSize : Nat := 1000000

/-- The size of the smallest output: eight bytes of amount, and one for the length of an empty script. -/
def minOutputSize : Nat := 9

/-- No valid transaction has more outputs than this. -/
def maxOutputs : Nat := maxSize / minOutputSize

end Transaction

end CoinLayers
