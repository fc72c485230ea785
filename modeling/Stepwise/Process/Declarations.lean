/-!
Things declared under names, in the order of their declarations. No name is declared twice.
-/

namespace Stepwise

structure Declarations (α : Type) where
  entries : List (String × α)
  distinct : (entries.map Prod.fst).Nodup

namespace Declarations

variable {α β : Type}

def empty : Declarations α := ⟨[], .nil⟩

/-- Replace the entry of a name where it stands, or add one at the end. -/
def insertEntry (name : String) (a : α) : List (String × α) → List (String × α)
  | [] => [(name, a)]
  | (n, b) :: rest => if n = name then (name, a) :: rest else (n, b) :: insertEntry name a rest

theorem mem_names_insertEntry {name n : String} {a : α} {entries : List (String × α)} :
    n ∈ (insertEntry name a entries).map Prod.fst ↔ n = name ∨ n ∈ entries.map Prod.fst := by
  induction entries with
  | nil => simp [insertEntry]
  | cons e rest ih =>
    obtain ⟨m, b⟩ := e
    unfold insertEntry
    split
    · rename_i same
      simp [same]
    · rw [List.map_cons, List.mem_cons, ih, List.map_cons, List.mem_cons]
      exact or_left_comm

theorem nodup_insertEntry {name : String} {a : α} {entries : List (String × α)}
    (distinct : (entries.map Prod.fst).Nodup) :
    ((insertEntry name a entries).map Prod.fst).Nodup := by
  induction entries with
  | nil => simp [insertEntry]
  | cons e rest ih =>
    obtain ⟨m, b⟩ := e
    rw [List.map_cons, List.nodup_cons] at distinct
    unfold insertEntry
    split
    · rename_i same
      rw [List.map_cons, List.nodup_cons]
      exact ⟨same ▸ distinct.1, distinct.2⟩
    · rename_i other
      rw [List.map_cons, List.nodup_cons]
      refine ⟨fun h => ?_, ih distinct.2⟩
      rcases mem_names_insertEntry.1 h with h | h
      · exact other h
      · exact distinct.1 h

/-- Declare a name; one that is declared already keeps its place. -/
def insert (d : Declarations α) (name : String) (a : α) : Declarations α :=
  ⟨insertEntry name a d.entries, nodup_insertEntry d.distinct⟩

def get? (d : Declarations α) (name : String) : Option α :=
  d.entries.lookup name

def contains (d : Declarations α) (name : String) : Bool :=
  (d.get? name).isSome

def names (d : Declarations α) : List String :=
  d.entries.map Prod.fst

def size (d : Declarations α) : Nat :=
  d.entries.length

def isEmpty (d : Declarations α) : Bool :=
  d.entries.isEmpty

/-- Take a name out. -/
def erase (d : Declarations α) (name : String) : Declarations α :=
  ⟨d.entries.filter fun e => e.1 != name,
    (List.filter_sublist.map Prod.fst).nodup d.distinct⟩

/-- The names in increasing order. -/
def sortedNames (d : Declarations α) : List String :=
  d.names.mergeSort fun a b => decide (a ≤ b)

/-- Replace what is declared under each name. -/
def map (f : String → α → β) (d : Declarations α) : Declarations β :=
  ⟨d.entries.map fun e => (e.1, f e.1 e.2), by
    rw [List.map_map]
    exact d.distinct⟩

end Declarations

end Stepwise
