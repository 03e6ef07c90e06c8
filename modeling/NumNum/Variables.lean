import Std.Data.TreeMap.Lemmas

/-!
# Variables

A finite map from addresses to words. `Variables.get?_set` says what is found after a
store, and `Variables.pairwise_entries` that the entries are listed by address.
-/

namespace NumNum

/-- The defined variables. -/
structure Variables where
  table : Std.TreeMap UInt32 UInt32 := ∅

namespace Variables

/-- Address and value of each, by increasing address. -/
def entries (v : Variables) : List (UInt32 × UInt32) :=
  v.table.toList

/-- The value of a variable, if it is defined. -/
def get? (v : Variables) (address : UInt32) : Option UInt32 :=
  v.table[address]?

/-- Stores a value. -/
def set (v : Variables) (address value : UInt32) : Variables :=
  ⟨v.table.insert address value⟩

theorem get?_empty (address : UInt32) : ({} : Variables).get? address = none :=
  Std.TreeMap.getElem?_emptyc

theorem get?_set (v : Variables) (address value a : UInt32) :
    (v.set address value).get? a = if a = address then some value else v.get? a := by
  unfold get? set
  rw [Std.TreeMap.getElem?_insert]
  by_cases h : a = address
  · subst h
    simp
  · simp [h, Ne.symm h]

theorem pairwise_entries (v : Variables) : v.entries.Pairwise (fun a b => a.1 < b.1) :=
  v.table.ordered_keys_toList.imp fun h => Std.compare_eq_lt.mp h

end Variables

end NumNum
