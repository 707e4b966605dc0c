/-
The cache of templates.

Entries are written once: a key that is there keeps its text, and only clearing
the whole cache takes it away.  Keys stand in the order they were first written.

* **`get?_put`** — a write is seen under its key unless the key was there;
* **`keys_put`** — a write adds its key at the end unless the key was there.
-/

namespace PromptShelf

/-- Keys and texts in the order they were written. -/
structure Cache where
  entries : List (String × String) := []
  deriving DecidableEq

namespace Cache

def get? (c : Cache) (key : String) : Option String := c.entries.lookup key

def contains (c : Cache) (key : String) : Bool := (c.get? key).isSome

/-- Writes a text under a key that has none. -/
def put (c : Cache) (key content : String) : Cache :=
  -- The first text stays: a later one under the same key is dropped.
  if c.contains key then c else ⟨c.entries ++ [(key, content)]⟩

def keys (c : Cache) : List String := c.entries.map (·.1)

def size (c : Cache) : Nat := c.entries.length

theorem lookup_append_singleton (entries : List (String × String)) (key content k : String) :
    (entries ++ [(key, content)]).lookup k =
      (entries.lookup k).or (if k = key then some content else none) := by
  induction entries with
  | nil =>
    by_cases h : k = key
    · simp [h]
    · have hb : (k == key) = false := by simpa using h
      simp [List.lookup_cons, hb, h]
  | cons e rest ih =>
    obtain ⟨k', v⟩ := e
    by_cases h : k = k'
    · simp [h]
    · have hb : (k == k') = false := by simpa using h
      simp [List.lookup_cons, hb, ih]

/-- A write is seen under its key unless the key was there; other keys do not change. -/
theorem get?_put (c : Cache) (key content k : String) :
    (c.put key content).get? k =
      (c.get? k).or (if k = key then some content else none) := by
  by_cases h : c.contains key
  · by_cases hk : k = key
    · subst hk
      obtain ⟨v, hv⟩ := Option.isSome_iff_exists.1 h
      simp [put, h, hv]
    · simp [put, h, hk]
  · simp only [put, h, get?]
    exact lookup_append_singleton c.entries key content k

/-- A write adds its key at the end unless the key was there. -/
theorem keys_put (c : Cache) (key content : String) :
    (c.put key content).keys = c.keys ++ (if c.contains key then [] else [key]) := by
  by_cases h : c.contains key <;> simp [put, keys, h]

end Cache

end PromptShelf
