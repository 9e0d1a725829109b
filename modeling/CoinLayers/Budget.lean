/-!
How much a cache may hold, and how far it shrinks when it holds more.

The size to shrink to is a percentage of the limit. It is computed from the limit's hundreds and the
rest, so that in 64-bit words no product grows beyond a word unless the result itself does.
-/
namespace CoinLayers

/-- A limit in bytes, and the percentage of it that is left when a cache shrinks. -/
structure Budget where
  limit : UInt64
  percent : UInt8
  deriving DecidableEq

/-- One change to a budget that is being put together. -/
inductive Budget.Setting where
  | limit (bytes : UInt64)
  | percent (share : UInt8)

namespace Budget

/-- The limit of a budget that nobody set: 450 MiB. -/
def standardLimit : UInt64 := 450 * 1024 * 1024

def standard : Budget := ⟨standardLimit, 80⟩

/-- A budget with one setting changed. A percentage above a hundred counts as a hundred. -/
def set (budget : Budget) : Setting → Budget
  | .limit bytes => { budget with limit := bytes }
  | .percent share => { budget with percent := min share 100 }

/-- The budget after a list of settings, the last of a kind deciding. -/
def build (settings : List Setting) : Budget :=
  settings.foldl set standard

/-- The product of two words, unless it needs more than 64 bits. -/
def product? (a b : UInt64) : Option UInt64 :=
  if a.toNat * b.toNat < UInt64.size then some (a * b) else none

/-- The sum of two words, unless it needs more than 64 bits. -/
def sum? (a b : UInt64) : Option UInt64 :=
  if a.toNat + b.toNat < UInt64.size then some (a + b) else none

/-- The size to shrink to, computed step by step in words; nothing if a step leaves the range of a word. -/
def target? (budget : Budget) : Option UInt64 := do
  let hundreds ← product? (budget.limit / 100) budget.percent.toUInt64
  let rest ← product? (budget.limit % 100) budget.percent.toUInt64
  sum? hundreds (rest / 100)

/-- The size to shrink to, by the same steps in numbers without bounds. -/
def target (budget : Budget) : Nat :=
  budget.limit.toNat / 100 * budget.percent.toNat + budget.limit.toNat % 100 * budget.percent.toNat / 100

end Budget

end CoinLayers
