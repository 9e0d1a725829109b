import CoinLayers.Entry
import CoinLayers.Recency

/-!
The order in which a batch is drained.

A batch lists its entries in no order that anyone may count on. So each cache is told how the batches that
it receives will come, by an order of which nothing else is known than that it names every outpoint of the
batch once. What is said of a cache is said for all such orders.
-/
namespace CoinLayers

/-- How batches come to a cache: an order of the outpoints of each. As it may hang on the uses that the cache
    remembers, the same batch may come in another order the next time. -/
structure Draining where
  order : Recency → Entries → List OutPoint
  enumerates : ∀ (recency : Recency) (batch : Entries), (order recency batch).Perm batch.keys

/-- Every batch comes in the order of its outpoints. -/
def Draining.sorted : Draining := ⟨fun _ batch => batch.keys, fun _ _ => .refl _⟩

end CoinLayers
