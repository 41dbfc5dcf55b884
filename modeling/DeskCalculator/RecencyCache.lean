/-!
# A cache that forgets what was used longest ago

The entries stand in the order of their last use, the latest one last. A look-up moves an entry to the
end or computes a new one, and then as many entries are dropped from the front as are over the capacity.
With capacity zero every new entry is dropped at once. With a negative capacity even an empty cache is
too large, and a look-up that finds nothing leaves the cache empty and fails.
-/

namespace DeskCalculator

/-- A bounded cache with counters. -/
structure RecencyCache (κ : Type) (α : Type) where
  capacity : Int
  /-- The entries, least recently used first. -/
  entries : List (κ × α)
  hits : Nat
  misses : Nat

namespace RecencyCache

variable {κ α : Type}

/-- The cache without entries. -/
def empty (capacity : Int) : RecencyCache κ α := ⟨capacity, [], 0, 0⟩

/-- Drops the entries and resets the counters. -/
def clear (c : RecencyCache κ α) : RecencyCache κ α := empty c.capacity

/-- The keys, least recently used first. -/
def keys (c : RecencyCache κ α) : List κ := c.entries.map Prod.fst

/-- Drops as many of the oldest entries as are over the capacity. -/
def trim (capacity : Int) (entries : List (κ × α)) : List (κ × α) :=
  entries.drop (entries.length - capacity.toNat)

@[simp] theorem capacity_clear (c : RecencyCache κ α) : c.clear.capacity = c.capacity := rfl

variable [DecidableEq κ]

/-- The entry of a key. -/
def find? (c : RecencyCache κ α) (k : κ) : Option α :=
  c.entries.lookup k

/-- The value of a key, computed by `make` if the cache does not have it, and the cache afterwards. No
value if the capacity is negative and the key is new. -/
def fetch (c : RecencyCache κ α) (make : κ → α) (k : κ) : Option α × RecencyCache κ α :=
  match c.find? k with
  | some a =>
    (some a,
      { c with entries := c.entries.filter (·.1 ≠ k) ++ [(k, a)], hits := c.hits + 1 })
  | none =>
    if c.capacity < 0 then (none, { c with entries := [], misses := c.misses + 1 })
    else
      let a := make k
      (some a, { c with entries := trim c.capacity (c.entries ++ [(k, a)]), misses := c.misses + 1 })

/-- Looking up never changes the capacity. -/
@[simp] theorem capacity_fetch (c : RecencyCache κ α) (make : κ → α) (k : κ) :
    (c.fetch make k).2.capacity = c.capacity := by
  unfold fetch
  split
  · rfl
  · split <;> rfl

/-- Every look-up is counted once. -/
theorem hits_add_misses_fetch (c : RecencyCache κ α) (make : κ → α) (k : κ) :
    (c.fetch make k).2.hits + (c.fetch make k).2.misses = c.hits + c.misses + 1 := by
  unfold fetch
  split
  · simp only; omega
  · split <;> simp only <;> omega

end RecencyCache

end DeskCalculator
