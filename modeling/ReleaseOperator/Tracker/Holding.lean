import ReleaseOperator.Tracker.Basic

/-!
# Holding entries

Entries are shared: whoever was handed an entry goes on working with it, also
after the tracker has let go of it. Here every entry that was ever handed out has
a number, the tracker's keys lead to the numbers of the entries that it keeps,
and holders keep numbers under names of their own. A change made by a holder is
seen in the tracker as long as the tracker keeps that very entry.
-/

namespace ReleaseOperator

/-- A tracker with those who hold its entries. -/
structure Holding where
  tracker : Tracker
  /-- All entries handed out, by their numbers. -/
  issued : List Entry
  /-- The numbers of the entries that the tracker keeps, by key. -/
  kept : List (String × Nat)
  /-- The numbers that are held, by holder. -/
  held : List (String × Nat)

namespace Holding

def empty : Holding := ⟨.empty, [], [], []⟩

def entry? (h : Holding) (holder : String) : Option Entry :=
  (h.held.lookup holder).bind fun n => h.issued[n]?

def hold (h : Holding) (holder : String) (n : Nat) : Holding :=
  { h with held := (holder, n) :: h.held.filter fun kv => kv.1 ≠ holder }

/-- The numbers of the keys that are still kept. -/
def prune (h : Holding) : Holding :=
  { h with kept := h.kept.filter fun kv => (h.tracker.find? kv.1).isSome }

def ensure (h : Holding) (holder : String) (id : ObjectId) (generation : Int) (initial : Stage) :
    Holding :=
  let key := id.key generation
  let (e, tracker) := h.tracker.ensure id generation initial
  match h.kept.lookup key with
  | some n => h.hold holder n
  | none =>
    let n := h.issued.length
    let isKept := (tracker.find? key).isSome
    let h := prune { h with tracker, issued := h.issued ++ [e] }
    let h := if isKept then { h with kept := (key, n) :: h.kept } else h
    h.hold holder n

/-- The entry of a generation looked up; a holder keeps what it has when there is
none. -/
def get (h : Holding) (holder : String) (id : ObjectId) (generation : Int) : Bool × Holding :=
  match h.kept.lookup (id.key generation) with
  | some n => (true, h.hold holder n)
  | none => (false, h)

def change (h : Holding) (holder : String) (f : Entry → Entry) : Holding :=
  match h.held.lookup holder with
  | none => h
  | some n =>
    let issued := h.issued.modify n f
    let key? := (h.kept.find? fun kv => kv.2 = n).map fun kv => kv.1
    let entries := h.tracker.entries.map fun (k, e) => if some k = key? then (k, f e) else (k, e)
    { h with issued, tracker := ⟨entries⟩ }

def onTracker (h : Holding) (f : Tracker → Tracker) : Holding :=
  prune { h with tracker := f h.tracker }

end Holding

end ReleaseOperator
